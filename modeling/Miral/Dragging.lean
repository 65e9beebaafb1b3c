import Miral.FullscreenPlacement

/-! Dragging a window: its whole tree moves by one displacement, and nothing else does. -/
namespace Miral

open Program Prog Forest Model

/-- How far a window follows a displacement it is dragged by. -/
def WindowInfo.dragged (info : WindowInfo) (d : Displacement) : Displacement :=
  if info.type.draggable then
    match info.state with
    | .restored => d
    | .vertmaximized => ⟨d.dx, 0⟩
    | .horizmaximized => ⟨0, d.dy⟩
    | _ => ⟨0, 0⟩
  else ⟨0, 0⟩

namespace Model

variable {s t : Model} {root v w : Window} {movement : Displacement} {tree : List Window}

/-- The reports of moving some windows by the same displacement. -/
def moves (s : Model) (movement : Displacement) (tree : List Window) : List Event :=
  tree.map fun v => .adviseMoveTo v (s.topLeft v + movement)

theorem moves_append (first second : List Window) :
    s.moves movement (first ++ second) = s.moves movement first ++ s.moves movement second :=
  List.map_append

theorem moves_congr (same : ∀ v ∈ tree, t.topLeft v = s.topLeft v) :
    t.moves movement tree = s.moves movement tree := by
  apply List.map_congr_left
  intro v member
  rw [same v member]

/-- Every window of the tree below `root` has been moved by a report of its own. -/
def Told (root : Window) (movement : Displacement) (s t : Model) : Prop :=
  ∃ tree, Walk s.parentOf root tree ∧ t.log = s.log ++ s.moves movement tree

end Model

variable {s t u : Model} {root w : Window} {fuel : Nat} {movement : Displacement}

/-- The loop of `move_tree` reports the trees of the children, one after the other. -/
theorem told_of_steps (rooted : Rooted s.parentOf root) {children : List Window}
    (distinct : children.Nodup) (linked : ∀ c ∈ children, s.parentOf c = some root)
    (unmoved : ∀ c ∈ children, ∀ v, Above s.parentOf c v → t.topLeft v = s.topLeft v)
    (steps : Steps (fun c t u => Moved root s t ∧ Moved c t u ∧ Told c movement t u)
      children t u) :
    ∃ parts, List.Forall₂ (Walk s.parentOf) children parts ∧
      u.log = t.log ++ s.moves movement parts.flatten := by
  induction steps with
  | nil t => exact ⟨[], .nil, by simp [moves]⟩
  | cons step steps ih =>
    rename_i c rest t x u
    obtain ⟨moved, moved', tree, walk, told⟩ := step
    obtain ⟨fresh, distinct⟩ := List.nodup_cons.mp distinct
    have link := linked c (by simp)
    rw [moved.parentOf] at walk
    have later : ∀ c ∈ rest, ∀ v, Above s.parentOf c v → x.topLeft v = s.topLeft v := by
      intro c' member v above
      have apart : ¬Above s.parentOf c v := by
        intro below
        exact fresh (Above.sibling rooted link (linked c' (by simp [member])) below above ▸ member)
      rw [moved'.topLeft_outside (by rwa [moved.parentOf])]
      exact unmoved c' (by simp [member]) v above
    obtain ⟨parts, walks, told'⟩ := ih distinct (fun c' member => linked c' (by simp [member])) later
    refine ⟨tree :: parts, .cons walk walks, ?_⟩
    have same : t.moves movement tree = s.moves movement tree := by
      apply moves_congr
      intro v member
      exact unmoved c (by simp) v ((walk.mem v).mp member)
    rw [told', told, same, List.flatten_cons, moves_append, List.append_assoc]

/-- `move_tree` reports every window of the tree once, with where it moves. -/
theorem ensures_moveTree_told (integrity : s.Integrity) (rooted : Rooted s.parentOf root)
    (live : s.Live root) (moves : movement ≠ ⟨0, 0⟩) :
    (moveTree fuel root movement).Ensures s (fun _ t => Moved root s t ∧ Told root movement s t)
      (fun _ _ => False) True := by
  suffices told : (moveTree fuel root movement).Ensures s (fun _ t => Told root movement s t)
      (fun _ _ => False) True from
    ((ensures_moveTree integrity live movement).and told).mono
      (fun _ _ h => ⟨h.1.1, h.2⟩) (fun _ _ h => h.1) fun _ => trivial
  induction fuel generalizing s root with
  | zero => trivial
  | succ fuel ih =>
    rw [moveTree, if_neg moves]
    apply ensures_moveRoot integrity live
    intro info s₁ here step
    obtain ⟨moved, -, -, others, reported⟩ := step
    have linked (c : Window) : c ∈ info.children ↔ s.parentOf c = some root :=
      integrity.mem_children here
    have move := ensures_moveChild ih integrity rooted
    have unmoved : ∀ c ∈ info.children, ∀ v, Above s.parentOf c v →
        s₁.topLeft v = s.topLeft v := by
      intro c member v above
      apply others
      rintro rfl
      have link := (linked c).mp member
      exact ((rooted_link link).mpr rooted).not_above_parent link above
    refine (ensures_moveChildren_steps move (fun c member => (linked c).mp member) moved).imp ?_
    intro _ t after
    rcases after with ⟨steps, -⟩
    obtain ⟨parts, walks, told⟩ := told_of_steps rooted (integrity.children_nodup here)
      (fun c member => (linked c).mp member) unmoved steps
    refine ⟨root :: parts.flatten,
      Walk.node rooted (integrity.children_nodup here) linked walks, ?_⟩
    rw [told, reported, List.append_assoc]
    rfl

namespace Model

/-- The tree below `root` has been moved as a whole, each of its windows once. -/
structure Shifted (root : Window) (movement : Displacement) (s t : Model) : Prop where
  frame : t = { s with scene := t.scene, log := t.log }
  carried : ∀ v, Above s.parentOf root v → t.topLeft v = s.topLeft v + movement
  sizes : ∀ v, t.size v = s.size v
  outside : ∀ v, ¬Above s.parentOf root v → t.surface? v = s.surface? v
  still : movement = ⟨0, 0⟩ → t = s
  once : movement ≠ ⟨0, 0⟩ → Told root movement s t

theorem Shifted.refl (s : Model) (root : Window) : Shifted root ⟨0, 0⟩ s s where
  frame := rfl
  carried _ _ := Point.ext (by simp) (by simp)
  sizes _ := rfl
  outside _ _ := rfl
  still _ := rfl
  once moves := absurd rfl moves

end Model

/-- `move_tree` moves the whole tree below a window. -/
theorem ensures_moveTree_shifted (integrity : s.Integrity) (rooted : Rooted s.parentOf root)
    (live : s.Live root) (movement : Displacement) :
    (moveTree fuel root movement).Ensures s (fun _ t => Shifted root movement s t)
      (fun _ _ => False) True := by
  have inner (v : Window) (above : Above s.parentOf root v) : s.Live v := by
    rcases above_iff_strict.mp above with rfl | ⟨n, reached⟩
    · exact live
    · obtain ⟨p, link⟩ : ∃ p, s.parentOf v = some p := by
        cases link : s.parentOf v with
        | none => rw [climb_root link] at reached; contradiction
        | some p => exact ⟨p, rfl⟩
      exact (integrity.live v).mpr (managed_of_parentOf link)
  by_cases moves : movement = ⟨0, 0⟩
  · refine (ensures_moveTree integrity live movement).mono ?_ (fun _ _ h => h) fun _ => trivial
    intro _ t after
    rcases after with ⟨-, -, -, still, -⟩
    obtain rfl := still moves
    rw [moves]
    exact .refl t root
  · have placed : (moveTree fuel root movement).Ensures s _ _ _ :=
      (ensures_moveTree integrity live movement).and
        ((ensures_moveTree_carried integrity rooted live movement).and
          (ensures_moveTree_told integrity rooted live moves))
    refine placed.mono ?_ (fun _ _ h => h.1) fun _ => trivial
    intro _ t after
    rcases after with ⟨⟨moved, sizes, -⟩, ⟨-, carried⟩, -, told⟩
    exact ⟨moved.frame, fun v above => carried v above (inner v above), sizes, moved.outside,
      fun zero => absurd zero moves, fun _ => told⟩

theorem ensures_dragWindow_shifted (integrity : s.Integrity) (rooted : Rooted s.parentOf w)
    {info : WindowInfo} (here : s.info? w = some info) (d : Displacement) :
    (dragWindow fuel (some w) d).Ensures s (fun _ t => Shifted w (info.dragged d) s t)
      (fun _ _ => False) True := by
  have live : s.Live w := integrity.live_of_info here
  have move (movement : Displacement) : (moveTree fuel w movement).Ensures s
      (fun _ t => Shifted w movement s t) (fun _ _ => False) True :=
    ensures_moveTree_shifted integrity rooted live movement
  rw [dragWindow, ensures_bind, ensures_state, lock_some live, whenSome, ensures_bind,
    ensures_infoFor_here here, ensures_onlyIf]
  constructor
  · intro draggable
    rw [WindowInfo.dragged, if_pos draggable]
    cases info.state
    case restored => exact move d
    case vertmaximized => exact move ⟨d.dx, 0⟩
    case horizmaximized => exact move ⟨0, d.dy⟩
    all_goals exact Shifted.refl s w
  · intro fixed
    rw [WindowInfo.dragged, if_neg fixed]
    exact Shifted.refl s w

/-- Dragging a window moves its tree as a whole. -/
theorem drag_window_rigid (integrity : s.Integrity) (acyclic : s.Acyclic) {info : WindowInfo}
    (here : s.info? w = some info) (d : Displacement) :
    (∃ n, ∀ fuel ≥ n, ∃ t, dragWindow fuel (some w) d s = .returned () t) ∧
    (∀ fuel failure t, dragWindow fuel (some w) d s ≠ .thrown failure t) ∧
    ∀ fuel t, dragWindow fuel (some w) d s = .returned () t → Shifted w (info.dragged d) s t := by
  have rooted : Rooted s.parentOf w := acyclic w (managed_iff.mpr ⟨info, here⟩)
  have dragging (fuel : Nat) : (dragWindow fuel (some w) d).Ensures s
      (fun _ t => Shifted w (info.dragged d) s t) (fun _ _ => False) True :=
    ensures_dragWindow_shifted integrity rooted here d
  obtain ⟨depth, bound⟩ := acyclic.exists_depth
  refine ⟨⟨4 * depth, fun fuel le => ?_⟩, fun fuel failure t => (dragging fuel).thrown,
    fun fuel t => (dragging fuel).returned⟩
  obtain ⟨_, t, run, -⟩ := (ensures_dragWindow integrity (some w) d).returns
    fun short => Nat.not_lt.mpr le (short depth bound)
  exact ⟨t, run⟩

def Op.belowRun : List Op :=
  [.addSession 1, .addSurface 1 { size := ⟨100, 80⟩ } 1,
    .addSurface 1 { size := ⟨30, 20⟩, type := some .dialog, parent := some ⟨1, 1⟩ } 2]

def Model.belowState : Model :=
  (Op.follow 12 (fun s op => op.Contract s ∧ op.asksParent = false) Op.belowRun .start).get
    (by decide +kernel)

theorem reachable_belowState :
    Reachable (fun s op => op.Contract s ∧ op.asksParent = false) belowState :=
  (Reachable.initial _ _).follow (Option.some_get _).symm

theorem drag_window_rigid_below : ∃ fuel t,
    dragWindow fuel (some ⟨1, 1⟩) ⟨7, -3⟩ belowState = .returned () t ∧
      Shifted ⟨1, 1⟩ ⟨7, -3⟩ belowState t ∧ Above belowState.parentOf ⟨1, 1⟩ ⟨1, 2⟩ := by
  obtain ⟨integrity, acyclic⟩ := reachable_belowState.acyclic_of_linkless.acyclic
  obtain ⟨info, here, dragged⟩ : ∃ info, belowState.info? ⟨1, 1⟩ = some info ∧
      info.dragged ⟨7, -3⟩ = ⟨7, -3⟩ := by
    simpa [Option.any_eq_true] using (by decide +kernel :
      (belowState.info? ⟨1, 1⟩).any fun info => info.dragged ⟨7, -3⟩ = ⟨7, -3⟩)
  obtain ⟨⟨n, enough⟩, -, shifted⟩ := drag_window_rigid integrity acyclic here ⟨7, -3⟩
  obtain ⟨t, run⟩ := enough n le_rfl
  exact ⟨n, t, run, dragged ▸ shifted n t run, 1, by decide +kernel⟩

end Miral
