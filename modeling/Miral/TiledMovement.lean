import Miral.Retiling

/-! Movement under `TilingWindowManagerPolicy`: `constrain_size_and_place` keeps a window in its
tile, and the windows below a moved one follow it, each as far as its own tile lets it. -/
namespace Miral

open Program Prog Forest Model

namespace Tiling

variable {data : Application → TilingWindowManagerPolicyData} {s t u : Model}
  {root w v c : Window} {info tmp : WindowInfo} {fuel : Nat} {movement : Displacement}
  {tile window : Rectangle} {modifications : WindowSpecification}

section Clamp

theorem getD_changed {p q : Point} : (if p ≠ q then some p else none).getD q = p := by
  by_cases same : p = q
  · rw [if_neg (not_not.mpr same), same]
    rfl
  · rw [if_pos same]
    rfl

theorem constrainSizeAndPlace_inside (inside : tile.contains window) :
    tile.contains
      ⟨(constrainSizeAndPlace modifications window tile).topLeft.getD window.topLeft,
        (constrainSizeAndPlace modifications window tile).size.getD window.size⟩ := by
  unfold constrainSizeAndPlace
  dsimp only
  rw [getD_changed]
  rw [Rectangle.contains_iff] at inside ⊢
  cases modifications.size <;> cases modifications.topLeft <;>
    simp only [Option.map_some, Option.map_none, Option.getD_some, Option.getD_none,
      Rectangle.left, Rectangle.right, Rectangle.top, Rectangle.bottom, Rectangle.bottomRight,
      Point.add_x, Point.add_y, Point.sub_dx, Point.sub_dy, asDisplacement] at * <;>
    omega

theorem confirmInheritedMove_inside (inside : tile.contains window) :
    tile.contains (confirmInheritedMove tile window movement) :=
  constrainSizeAndPlace_inside inside

end Clamp

def tileOf (data : Application → TilingWindowManagerPolicyData) (s : Model) (v : Window) :
    Rectangle :=
  match s.info? v with
  | some info => tileFor data info
  | none => default

theorem tileOf_eq (here : s.info? v = some info) : tileOf data s v = tileFor data info := by
  simp [tileOf, here]

section Carried

variable {tiles rects rects' : Window → Rectangle} {links : Window → Option Window} {n : Nat}

def follows (tile window : Rectangle) (movement : Displacement) : Displacement :=
  if movement = ⟨0, 0⟩ then ⟨0, 0⟩
  else (confirmInheritedMove tile window movement).topLeft - window.topLeft

/-- How far a window moves that is `n` levels below one that is moved. -/
def carried (tiles rects : Window → Rectangle) (links : Window → Option Window)
    (movement : Displacement) : Nat → Window → Displacement
  | 0, _ => movement
  | n + 1, v =>
    match links v with
    | some p => follows (tiles v) (rects v) (carried tiles rects links movement n p)
    | none => ⟨0, 0⟩

theorem carried_still : carried tiles rects links ⟨0, 0⟩ n v = ⟨0, 0⟩ := by
  induction n generalizing v with
  | zero => rfl
  | succ n ih =>
    rw [carried]
    split
    · rw [ih, follows, if_pos rfl]
    · rfl

theorem carried_child (reached : climb links n v = some c) (link : links c = some root) :
    carried tiles rects links movement (n + 1) v =
      carried tiles rects links (follows (tiles c) (rects c) movement) n v := by
  induction n generalizing v with
  | zero =>
    obtain rfl := Option.some.inj reached
    simp [carried, link]
  | succ n ih =>
    cases up : links v with
    | none =>
      rw [climb_root up] at reached
      contradiction
    | some p =>
      rw [climb_link up] at reached
      rw [carried, carried, up]
      exact congrArg (follows (tiles v) (rects v)) (ih reached)

theorem carried_congr (rooted : Rooted links c)
    (same : ∀ u, u ≠ c → Above links c u → rects' u = rects u)
    (reached : climb links n v = some c) :
    carried tiles rects' links movement n v = carried tiles rects links movement n v := by
  induction n generalizing v with
  | zero => rfl
  | succ n ih =>
    cases up : links v with
    | none =>
      rw [climb_root up] at reached
      contradiction
    | some p =>
      have ne : v ≠ c := by
        rintro rfl
        exact not_rooted_of_loop reached rooted
      have here := same v ne ⟨n + 1, reached⟩
      rw [climb_link up] at reached
      simp only [carried, up, here, ih reached]

end Carried

theorem Moved.tileOf (moved : Moved root s t) : tileOf data t = tileOf data s := by
  funext v
  simp only [Tiling.tileOf, moved.info?]

/-- The tree below `root` has followed it. -/
def Followed (data : Application → TilingWindowManagerPolicyData) (root : Window)
    (movement : Displacement) (s t : Model) : Prop :=
  ∀ n v, climb s.parentOf n v = some root →
    t.topLeft v = s.topLeft v + carried (tileOf data s) s.rect s.parentOf movement n v

/-- The loop of `move_tree`. -/
theorem ensures_moveChildren_followed
    (move : ∀ t, Moved root s t → ∀ c, s.parentOf c = some root → ∀ movement,
      (moveTree data fuel c movement).Ensures t (fun _ u => (Moved c t u ∧
        ∀ v, u.size v = t.size v) ∧ Followed data c movement t u) (fun _ _ => False) True)
    (rooted : Rooted s.parentOf root) (moves : movement ≠ ⟨0, 0⟩) {children : List Window}
    (distinct : children.Nodup) (linked : ∀ c ∈ children, s.parentOf c = some root)
    (moved : Moved root s t) (sizes : ∀ v, t.size v = s.size v)
    (unmoved : ∀ c ∈ children, ∀ v, Above s.parentOf c v → t.topLeft v = s.topLeft v) :
    (forEach (fun child => do
        let childInfo ← infoFor child
        let s ← Prog.state
        let pos := confirmInheritedMove (tileFor data childInfo) (s.rect child) movement
        placeAndSizeWith (moveTree data fuel) child pos.topLeft pos.size) children).Ensures t
      (fun _ u => (∀ v, (∀ c ∈ children, ¬Above s.parentOf c v) → u.topLeft v = t.topLeft v) ∧
        ∀ c ∈ children, ∀ n v, climb s.parentOf n v = some c → u.topLeft v = s.topLeft v +
          carried (tileOf data s) s.rect s.parentOf movement (n + 1) v)
      (fun _ _ => False) True := by
  induction children generalizing t with
  | nil => exact ⟨fun _ _ => rfl, by simp⟩
  | cons c rest ih =>
    obtain ⟨fresh, distinct⟩ := List.nodup_cons.mp distinct
    have link := linked c (by simp)
    have same (v : Window) (above : Above s.parentOf c v) : t.rect v = s.rect v := by
      rw [Model.rect, unmoved c (by simp) v above, sizes]
      rfl
    obtain ⟨info, here⟩ :=
      managed_iff.mp ((moved.sameStructure.managed c).mpr (managed_of_parentOf link))
    rw [forEach, ensures_bind, ensures_bind, ensures_infoFor_here here, ensures_bind,
      ensures_state, ensures_placeAndSizeWith_kept rfl]
    refine (move t moved c link _).mono ?_ (fun _ _ h => h.elim) id
    intro _ u after
    rcases after with ⟨⟨moved', sizes'⟩, followed⟩
    have below : Above t.parentOf root c := by
      rw [moved.parentOf]
      exact .link link .refl
    have apart (c' : Window) (member : c' ∈ rest) (v : Window) (above : Above s.parentOf c' v) :
        ¬Above s.parentOf c v := fun below =>
      fresh (Above.sibling rooted link (linked c' (by simp [member])) below above ▸ member)
    have outside (v : Window) (apart : ¬Above s.parentOf c v) : u.topLeft v = t.topLeft v :=
      moved'.topLeft_outside (by rwa [moved.parentOf])
    refine (ih distinct (fun c' member => linked c' (by simp [member]))
      (moved.trans (moved'.below below)) (fun v => (sizes' v).trans (sizes v)) ?_).imp ?_
    · intro c' member v above
      rw [outside v (apart c' member v above)]
      exact unmoved c' (by simp [member]) v above
    · intro _ x after
      rcases after with ⟨others, there⟩
      constructor
      · intro v away
        rw [others v fun c' member => away c' (by simp [member])]
        exact outside v (away c (by simp))
      · intro c' member n v reached
        rcases List.mem_cons.mp member with rfl | member
        · have still := others v fun c'' member above => apart c'' member v above ⟨n, reached⟩
          have arrived := followed n v (by rwa [moved.parentOf])
          rw [still, arrived, unmoved c' (by simp) v ⟨n, reached⟩, carried_child reached link,
            Moved.tileOf moved, moved.parentOf, carried_congr ((rooted_link link).mpr rooted)
              (fun v _ above => same v above) reached, follows,
            if_neg moves, tileOf_eq (moved.info? ▸ here), same c' .refl,
            unmoved c' (by simp) c' .refl]
          rfl
        · exact there c' member n v reached

/-- `move_tree` carries every window of the tree along, each as far as its tile lets it. -/
theorem ensures_moveTree_followed (integrity : s.Integrity) (rooted : Rooted s.parentOf root)
    (live : s.Live root) :
    (moveTree data fuel root movement).Ensures s (fun _ t => Followed data root movement s t)
      (fun _ _ => False) True := by
  induction fuel generalizing s root movement with
  | zero => trivial
  | succ fuel ih =>
    rw [moveTree, ensures_ite]
    constructor
    · rintro rfl n v _
      rw [carried_still]
      exact Point.ext (by simp) (by simp)
    · intro moves
      apply ensures_moveRoot integrity live
      intro info s₁ here step
      obtain ⟨moved, sizes, placed, others, -⟩ := step
      have linked (c : Window) : c ∈ info.children ↔ s.parentOf c = some root :=
        integrity.mem_children here
      have move (t : Model) (moved : Moved root s t) (c : Window)
          (link : s.parentOf c = some root) (movement : Displacement) :
          (moveTree data fuel c movement).Ensures t (fun _ u => (Moved c t u ∧
            ∀ v, u.size v = t.size v) ∧ Followed data c movement t u) (fun _ _ => False) True := by
        have kept := moved.integrity integrity
        have childLive := moved.live_child integrity link
        exact ((ensures_moveTree kept childLive).and
          (ih kept (moved.rooted_child rooted link) childLive)).mono
          (fun _ _ h => ⟨⟨h.1.1, h.1.2.1⟩, h.2⟩) (fun _ _ h => h.1) fun _ => trivial
      have apart (c : Window) (member : c ∈ info.children) : ¬Above s.parentOf c root :=
        fun above => by
          have link := (linked c).mp member
          exact ((rooted_link link).mpr rooted).not_above_parent link above
      refine (ensures_moveChildren_followed move rooted moves (integrity.children_nodup here)
        (fun c member => (linked c).mp member) moved sizes ?_).imp ?_
      · intro c member v above
        apply others
        rintro rfl
        exact apart c member above
      · intro _ t after
        rcases after with ⟨untouched, followed⟩
        intro n v reached
        cases n with
        | zero =>
          obtain rfl := Option.some.inj reached
          rw [untouched v apart, placed]
          rfl
        | succ n =>
          obtain ⟨c, up, link⟩ := climb_last reached
          exact followed c ((linked c).mpr link) n v up

/-- A window that is moved inside its tile is not moved out of it on the way round a loop. -/
theorem ensures_moveTree_inside (integrity : s.Integrity) (live : s.Live root)
    (stays : root ≠ w → (tileOf data s w).contains (s.rect w))
    (arrives : root = w → (tileOf data s w).contains ⟨s.topLeft w + movement, s.size w⟩) :
    (moveTree data fuel root movement).Ensures s
      (fun _ t => (tileOf data s w).contains (t.rect w)) (fun _ _ => False) True := by
  induction fuel generalizing s root movement with
  | zero => trivial
  | succ fuel ih =>
    rw [moveTree, ensures_ite]
    constructor
    · rintro rfl
      by_cases eq : root = w
      · have unmoved : s.topLeft w + (⟨0, 0⟩ : Displacement) = s.topLeft w :=
          Point.ext (by simp) (by simp)
        have there := arrives eq
        rwa [unmoved] at there
      · exact stays eq
    · intro _
      apply ensures_moveRoot integrity live
      intro info s₁ here step
      obtain ⟨moved, sizes, placed, others, -⟩ := step
      have kept : (tileOf data s w).contains (s₁.rect w) := by
        by_cases eq : root = w
        · subst eq
          rw [Model.rect, placed, sizes]
          exact arrives rfl
        · rw [Model.rect, others w (Ne.symm eq), sizes]
          exact stays eq
      refine (ensures_forEach (fun t => Moved root s t ∧ (tileOf data s w).contains (t.rect w))
        _ _ ?_ ⟨moved, kept⟩).imp (fun _ _ h => h.2)
      intro child member t after
      rcases after with ⟨moved, inside⟩
      have childLive : t.Live child :=
        moved.live.mpr ((integrity.live child).mpr (integrity.managed_child here member))
      obtain ⟨childInfo, there⟩ :=
        managed_iff.mp (((moved.integrity integrity).live child).mp childLive)
      have same : tileOf data t = tileOf data s := Moved.tileOf moved
      rw [ensures_bind, ensures_infoFor_here there, ensures_bind, ensures_state,
        ensures_placeAndSizeWith_kept rfl]
      have arrives : child = w → (tileOf data t w).contains ⟨t.topLeft w + ((confirmInheritedMove
          (tileFor data childInfo) (t.rect child) movement).topLeft - t.topLeft child),
          t.size w⟩ := by
        rintro rfl
        rw [Point.add_sub_self, tileOf_eq there]
        rw [← same, tileOf_eq there] at inside
        exact confirmInheritedMove_inside inside
      have placed := ih (moved.integrity integrity) childLive
        (fun _ => same ▸ inside) arrives
      rw [same] at placed
      refine ((ensures_moveTree (moved.integrity integrity) childLive).and placed).mono ?_
        (fun _ _ h => h.1) fun _ => trivial
      intro _ u after
      rcases after with ⟨⟨moved', -⟩, inside'⟩
      refine ⟨moved.trans (moved'.below ?_), inside'⟩
      rw [moved.parentOf]
      exact .link ((integrity.mem_children here).mp member) .refl

end Tiling

end Miral
