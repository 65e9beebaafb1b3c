import Miral.Selection

/-! Moving and resizing a window moves its tree along with it, and changes nothing but the
geometry of the windows in that tree. -/
namespace Miral

open Program Prog Forest

namespace Model

variable {s t u : Model} {root w v c : Window}

/-- `t` differs from `s` in the geometry of the tree below `root`, and in quiet reports. -/
structure Moved (root : Window) (s t : Model) : Prop where
  frame : t = { s with scene := t.scene, log := t.log }
  quiet : ∃ events, (∀ event ∈ events, event.quiet) ∧ t.log = s.log ++ events
  outside : ∀ v, ¬Above s.parentOf root v → t.surface? v = s.surface? v
  inside : ∀ v, ∃ rect : Rectangle, t.surface? v = (s.surface? v).map fun surface =>
    { surface with topLeft := rect.topLeft, size := rect.size }

namespace Moved

theorem unmoved (s : Model) (v : Window) : ∃ rect : Rectangle, s.surface? v =
    (s.surface? v).map fun surface =>
      { surface with topLeft := rect.topLeft, size := rect.size } := by
  cases s.surface? v with
  | none => exact ⟨default, rfl⟩
  | some surface => exact ⟨⟨surface.topLeft, surface.size⟩, rfl⟩

theorem refl : Moved root s s := ⟨rfl, ⟨[], by simp, by simp⟩, fun _ _ => rfl, unmoved s⟩

variable (h : Moved root s t)

include h

theorem info? : t.info? w = s.info? w := by rw [h.frame]; rfl

theorem parentOf : t.parentOf = s.parentOf := by rw [h.frame]; rfl

theorem mru : t.mruActiveWindows = s.mruActiveWindows := by rw [h.frame]

theorem live : t.Live w ↔ s.Live w := by
  obtain ⟨rect, eq⟩ := h.inside w
  simp [Live, eq]

theorem sameStructure : SameStructure s t where
  live _ := h.live
  managed w := by rw [h.frame]; rfl
  parents w := by rw [h.frame]; rfl
  children w := by rw [h.frame]; rfl
  windows a := by rw [h.frame]; rfl
  states w := by rw [h.frame]; rfl
  fullscreen := by rw [h.frame]
  workspaces := by rw [h.frame]
  living := by rw [h.frame]
  dead := by rw [h.frame]

theorem integrity (integrity : s.Integrity) : t.Integrity :=
  integrity.sameStructure h.sameStructure (by rw [h.mru]; exact integrity.mru)

theorem trans (h' : Moved root t u) : Moved root s u where
  frame := by
    rw [h'.frame, h.frame]
  quiet := quiet_trans h.quiet h'.quiet
  outside v apart := by
    rw [h'.outside v (by rwa [h.parentOf]), h.outside v apart]
  inside v := by
    obtain ⟨rect, eq⟩ := h.inside v
    obtain ⟨rect', eq'⟩ := h'.inside v
    refine ⟨rect', ?_⟩
    rw [eq', eq]
    cases s.surface? v <;> rfl

theorem below {top : Window} (above : Above s.parentOf top root) : Moved top s t where
  frame := h.frame
  quiet := h.quiet
  outside v apart := h.outside v fun inner => apart (above.trans inner)
  inside := h.inside

theorem live_child (integrity : s.Integrity) (link : s.parentOf c = some root) : t.Live c :=
  h.live.mpr ((integrity.live c).mpr (managed_of_parentOf link))

theorem rooted_child (rooted : Rooted s.parentOf root) (link : s.parentOf c = some root) :
    Rooted t.parentOf c := by
  rw [h.parentOf]
  exact (rooted_link link).mpr rooted

end Moved

theorem moved_emit {event : Event} (quiet : event.quiet) : Moved root s (s.emit event) where
  frame := rfl
  quiet := ⟨[event], by simpa using quiet, rfl⟩
  outside _ _ := rfl
  inside := Moved.unmoved s

theorem moved_configure (topLeft : Surface → Point) (size : Surface → Size) :
    Moved root s (s.configure root fun surface =>
      { surface with topLeft := topLeft surface, size := size surface }) where
  frame := by
    rw [configure_eq]
  quiet := ⟨[], by simp, by simp⟩
  outside v apart := by
    have ne : v ≠ root := fun eq => apart (eq ▸ .refl)
    simp [ne]
  inside v := by
    by_cases eq : v = root
    · subst eq
      cases here : s.surface? v with
      | none => exact ⟨default, by simp [here]⟩
      | some surface => exact ⟨⟨topLeft surface, size surface⟩, by simp [here]⟩
    · simpa [eq] using Moved.unmoved s v

end Model

open Model

variable {s t : Model} {root w c : Window} {fuel : Nat} {movement : Displacement}

/-- The root of a tree has been moved, and nothing else yet. -/
structure Model.RootMoved (root : Window) (movement : Displacement) (s t : Model) : Prop where
  moved : Moved root s t
  sizes : ∀ v, t.size v = s.size v
  placed : t.topLeft root = s.topLeft root + movement
  others : ∀ v, v ≠ root → t.topLeft v = s.topLeft v
  reported : t.log = s.log ++ [.adviseMoveTo root (s.topLeft root + movement)]

theorem rootMoved (live : s.Live root) (movement : Displacement) :
    RootMoved root movement s
      ((s.emit (.adviseMoveTo root (s.topLeft root + movement))).configure root
        ({ · with topLeft := s.topLeft root + movement })) := by
  obtain ⟨surface, here⟩ := live_iff.mp live
  refine ⟨(moved_emit rfl).trans (moved_configure (fun _ => _) Surface.size), fun v => ?_, ?_,
    fun v ne => ?_, ?_⟩
  · by_cases eq : v = root
    · simp [size, eq, here]
    · simp [size, eq]
  · simp [topLeft, here]
  · simp [topLeft, ne]
  · rw [configure_eq]
    rfl

theorem ensures_moveRoot (integrity : s.Integrity) (live : s.Live root)
    {rest : WindowInfo → Manager Unit} {post : Unit → Model → Prop}
    {error : Failure → Model → Prop} {short : Prop}
    (children : ∀ info t, s.info? root = some info → RootMoved root movement s t →
      (rest info).Ensures t post error short) :
    Ensures (do
      let info ← infoFor root
      let s ← Prog.state
      let topLeft := s.topLeft root + movement
      emit (.adviseMoveTo root topLeft)
      configure root ({ · with topLeft })
      rest info) s post error short := by
  obtain ⟨info, here⟩ := integrity.info_of_live live
  simp only [ensures_bind, ensures_infoFor_here here, ensures_state, ensures_emit,
    ensures_configure]
  exact children info _ here (rootMoved live movement)

/-- A window has been given a size, and nothing has been moved yet. -/
structure Model.Resized (w : Window) (newSize : Size) (s t : Model) : Prop where
  moved : Moved w s t
  sized : t.size w = newSize
  others : ∀ v, v ≠ w → t.size v = s.size v
  corners : ∀ v, t.topLeft v = s.topLeft v
  same : s.size w = newSize → t = s

theorem ensures_resize {newSize : Size} {rest : Manager Unit} {post : Unit → Model → Prop}
    {error : Failure → Model → Prop} {short : Prop} (live : s.Live w)
    (moves : ∀ t, Resized w newSize s t → rest.Ensures t post error short) :
    Ensures (do
      let s ← Prog.state
      Prog.onlyIf (s.size w ≠ newSize) do
        emit (.adviseResize w newSize)
        configure w ({ · with size := newSize })
      rest) s post error short := by
  simp only [ensures_bind, ensures_state, ensures_onlyIf, ensures_emit, ensures_configure]
  obtain ⟨surface, here⟩ := live_iff.mp live
  constructor
  · intro resized
    apply moves
    refine ⟨(moved_emit rfl).trans (moved_configure Surface.topLeft fun _ => _), ?_, fun v ne => ?_,
      fun v => ?_, fun same => absurd same resized⟩
    · simp [size, here]
    · simp [size, ne]
    · by_cases eq : v = w
      · simp [topLeft, eq, here]
      · simp [topLeft, eq]
  · intro same
    exact moves s ⟨.refl, not_not.mp same, fun _ _ => rfl, fun _ => rfl, fun _ => rfl⟩

/-- `move_tree` moves the tree below a window, whose sizes it leaves alone. An actual
movement goes down to every window below, so that it can only end off a loop. -/
theorem ensures_moveTree (integrity : s.Integrity) (live : s.Live root) (movement : Displacement) :
    (moveTree fuel root movement).Ensures s
      (fun _ t => Moved root s t ∧ (∀ v, t.size v = s.size v) ∧
        t.topLeft root = s.topLeft root + movement ∧ (movement = ⟨0, 0⟩ → t = s) ∧
        (movement ≠ ⟨0, 0⟩ → ∀ n v, climb s.parentOf n v = some root → n ≤ fuel))
      (fun _ _ => False)
      (∀ d n a, s.DepthBelow d → climb s.parentOf n root = some a → fuel + n < d) := by
  induction fuel generalizing s root movement with
  | zero =>
    intro d n a bound reached
    simpa using bound.lt reached
  | succ fuel ih =>
    rw [moveTree, ensures_ite]
    constructor
    · rintro rfl
      exact ⟨.refl, fun _ => rfl, Point.ext (by simp) (by simp), fun _ => rfl,
        fun moves => absurd rfl moves⟩
    · intro moves
      apply ensures_moveRoot integrity live
      intro info s₁ here step
      obtain ⟨moved, sizes, placed, -, -⟩ := step
      let strict (v : Window) : Prop := ∃ n, climb s.parentOf (n + 1) v = some root
      let shallow (c : Window) : Prop := ∀ n v, climb s.parentOf n v = some c → n ≤ fuel
      refine Ensures.mono (ensures_forEach_each (fun t => Moved root s t ∧
        (∀ v, t.size v = s.size v) ∧ ∀ v, ¬strict v → t.surface? v = s₁.surface? v) shallow _ _ ?_
        ⟨moved, sizes, fun _ _ => rfl⟩) ?_ (fun _ _ h => h) id
      rotate_left
      · intro _ t after
        rcases after with ⟨⟨moved, sizes, outside⟩, settled⟩
        have bound (n : Nat) (v : Window) (reached : climb s.parentOf n v = some root) :
            n ≤ fuel + 1 := by
          cases n with
          | zero => exact Nat.zero_le _
          | succ n =>
            obtain ⟨c, up, link⟩ := climb_last reached
            exact Nat.succ_le_succ (settled c ((integrity.mem_children here).mpr link) n v up)
        have apart : ¬strict root := by
          rintro ⟨n, around⟩
          have deep := bound _ _ (climb_loop around (fuel + 2))
          have late : fuel + 2 ≤ (fuel + 2) * (n + 1) := Nat.le_mul_of_pos_right _ n.succ_pos
          omega
        refine ⟨moved, sizes, ?_, fun still => absurd still moves, fun _ => bound⟩
        rw [← placed, topLeft, topLeft, outside root apart]
      · rintro child member t ⟨moved, sizes, outside⟩
        have link := (integrity.mem_children here).mp member
        have childManaged := integrity.managed_child here member
        have childLive : t.Live child := moved.live.mpr ((integrity.live child).mpr childManaged)
        rw [ensures_bind, ensures_infoFor, ensures_bind, ensures_state]
        constructor
        · intro _ _
          refine (ih (moved.integrity integrity) childLive _).mono ?_ (fun _ _ h => h) ?_
          · intro _ u after
            rcases after with ⟨moved', sizes', -, -, deep⟩
            rw [moved.parentOf] at deep
            refine ⟨⟨moved.trans (moved'.below ?_), fun v => (sizes' v).trans (sizes v),
              fun v apart => ?_⟩, deep ?_⟩
            · rw [moved.parentOf]
              exact .link link .refl
            · rw [← outside v apart]
              apply moved'.outside v
              intro below
              rcases below with ⟨n, above⟩
              refine apart ⟨n, ?_⟩
              rw [moved.parentOf] at above
              rw [climb_add, above]
              simp [climb, link]
            · rw [Point.add_sub_cancel]
              exact moves
          · intro short d n a bound reached
            have := short d (n + 1) a (by rwa [DepthBelow, moved.parentOf])
              (by rw [moved.parentOf, climb_link link, reached])
            omega
        · intro gone
          rw [moved.info?] at gone
          simp [Managed, gone] at childManaged

theorem ensures_placeAndSize (integrity : s.Integrity) (live : s.Live w) (newPos : Point)
    (newSize : Size) :
    (placeAndSize fuel w newPos newSize).Ensures s
      (fun _ t => Moved w s t ∧ t.rect w = ⟨newPos, newSize⟩ ∧
        (s.rect w = ⟨newPos, newSize⟩ → t = s)) (fun _ _ => False)
      (s.Short fuel) := by
  apply ensures_resize live
  intro t resized
  obtain ⟨moved, sized, -, -, kept⟩ := resized
  rw [ensures_bind, ensures_state]
  refine (ensures_moveTree (moved.integrity integrity) (moved.live.mpr live) _).mono ?_
    (fun _ _ h => h) ?_
  · intro _ u after
    rcases after with ⟨moved', sizes, placed, still, -⟩
    refine ⟨moved.trans moved', ?_, fun same => ?_⟩
    · rw [rect, placed, sizes, sized, Point.add_sub_self]
    · obtain rfl := kept (congrArg Rectangle.size same)
      exact still (Point.sub_eq_zero.mpr (congrArg Rectangle.topLeft same).symm)
  · intro short d bound
    have := short d 0 w (by rwa [DepthBelow, moved.parentOf]) rfl
    omega

end Miral
