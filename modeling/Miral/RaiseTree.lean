import Miral.WorkspaceChanges
import Miral.Library.Stacking

/-! Raising a tree: the groups that `raise_tree` hands to the focus controller, and the
stacking order they leave. -/
namespace Miral

open Program Prog Forest Stacking Model

/-- What a call makes of the stacking order, from the bottom to the top. -/
def Event.restack (z : List Window) : Event → List Window
  | .raise windows => Stacking.raise windows z
  | _ => z

def raises (groups : List (List Window)) : List Event :=
  groups.flatMap fun group => [.adviseRaise group, .raise group]

theorem restack_raises (groups : List (List Window)) (z : List Window) :
    (raises groups).foldl Event.restack z = groups.foldl (fun z group => Stacking.raise group z) z := by
  induction groups generalizing z with
  | nil => rfl
  | cons group rest ih => exact ih (Stacking.raise group z)

theorem adviseRaise_mem_raises {groups : List (List Window)} {group : List Window} :
    .adviseRaise group ∈ raises groups ↔ group ∈ groups := by
  simp [raises]

/-- The subtrees of a window and its ancestors, from that of the root down. -/
inductive Ascent (parent : Window → Option Window) : Window → List (List Window) → Prop where
  | root {w : Window} {below : List Window} : parent w = none → Walk parent w (w :: below) →
      Ascent parent w [w :: below]
  | link {w p : Window} {groups : List (List Window)} {below : List Window} :
      parent w = some p → Ascent parent p groups → Walk parent w (w :: below) →
      Ascent parent w (groups ++ [w :: below])

section Order

variable {parent : Window → Option Window} {w : Window} {groups : List (List Window)}

theorem Ascent.subtree (ascent : Ascent parent w groups) {group : List Window}
    (member : group ∈ groups) : ∃ root rest, group = root :: rest ∧ Above parent root w ∧
      Walk parent root group := by
  induction ascent with
  | @root w below top walk =>
    obtain rfl := List.mem_singleton.mp member
    exact ⟨w, below, rfl, .refl, walk⟩
  | @link w p groups below up ascent walk ih =>
    rcases List.mem_append.mp member with earlier | own
    · obtain ⟨root, rest, first, above, walk⟩ := ih earlier
      exact ⟨root, rest, first, .link up above, walk⟩
    · obtain rfl := List.mem_singleton.mp own
      exact ⟨w, below, rfl, .refl, walk⟩

/-- The tree of `w` is above everything else, and what is below `w` in it is on top. -/
structure EnBloc (parent : Window → Option Window) (w : Window) (z z' : List Window) : Prop where
  perm : z'.Perm z
  tree : ∀ a ∈ z, ∀ b ∈ z, ¬SameTree parent w a → SameTree parent w b → Below z' a b
  subtree : ∀ a ∈ z, ∀ b ∈ z, SameTree parent w a → ¬Above parent w a → Above parent w b →
    Below z' a b
  within : ∀ a b, Above parent w a → Above parent w b → (Below z' a b ↔ Below z a b)
  outside : ∀ a b, ¬SameTree parent w a → ¬SameTree parent w b → (Below z' a b ↔ Below z a b)

theorem Ascent.mem_root (top : parent w = none) {v : Window} :
    SameTree parent w v ↔ Above parent w v := by
  constructor
  · intro same
    refine (same.congr (Above parent w) ?_).mp .refl
    intro x p link
    rw [above_link link]
    apply or_iff_right
    rintro rfl
    simp [top] at link
  · exact Above.sameTree

/-- Raising part of the subtree of `p` that is on top already. -/
theorem EnBloc.raise {p : Window} {z z' group : List Window} (bloc : EnBloc parent p z z')
    (up : parent w = some p) (walk : Walk parent w group) :
    EnBloc parent w z (Stacking.raise group z') := by
  have same (v : Window) : SameTree parent w v ↔ SameTree parent p v :=
    ⟨fun h => (Relation.EqvGen.symm _ _ (.rel w p up)).trans _ _ _ h,
      fun h => (Relation.EqvGen.rel w p up).trans _ _ _ h⟩
  have inner (v : Window) (above : Above parent w v) : Above parent p v :=
    (Above.link up .refl).trans above
  have there (v : Window) (member : v ∈ z) : v ∈ z' := bloc.perm.mem_iff.mpr member
  have apart (v : Window) (other : ¬SameTree parent w v) : v ∉ group := fun member =>
    other (walk.mem v |>.mp member).sameTree
  constructor
  · exact (raise_perm group z').trans bloc.perm
  · intro a left b right other own
    by_cases below : Above parent w b
    · exact below_raise (apart a other) ((walk.mem b).mpr below) (there a left) (there b right)
    · refine (below_raise_outside (apart a other) (mt (walk.mem b).mp below)).mpr ?_
      exact bloc.tree a left b right (mt (same a).mpr other) ((same b).mp own)
  · intro a left b right _ rest below
    exact below_raise (mt (walk.mem a).mp rest) ((walk.mem b).mpr below) (there a left)
      (there b right)
  · intro a b left right
    rw [below_raise_inside ((walk.mem a).mpr left) ((walk.mem b).mpr right)]
    exact bloc.within a b (inner a left) (inner b right)
  · intro a b left right
    rw [below_raise_outside (apart a left) (apart b right)]
    exact bloc.outside a b (mt (same a).mpr left) (mt (same b).mpr right)

theorem Ascent.enBloc (ascent : Ascent parent w groups) (z : List Window) :
    EnBloc parent w z (groups.foldl (fun z group => Stacking.raise group z) z) := by
  induction ascent with
  | @root w below top walk =>
    have whole (v : Window) : SameTree parent w v ↔ v ∈ w :: below :=
      (Ascent.mem_root top).trans (walk.mem v).symm
    constructor
    · exact raise_perm _ z
    · intro a left b right other own
      exact below_raise (mt (whole a).mpr other) ((whole b).mp own) left right
    · intro a _ b _ own rest
      exact absurd ((Ascent.mem_root top).mp own) rest
    · intro a b left right
      exact below_raise_inside ((walk.mem a).mpr left) ((walk.mem b).mpr right)
    · intro a b left right
      exact below_raise_outside (mt (whole a).mpr left) (mt (whole b).mpr right)
  | @link w p groups below up ascent walk ih =>
    rw [List.foldl_append]
    exact ih.raise up walk

end Order

variable {s : Model} {w : Window} {fuel : Nat}

/-- `raise_tree` raises the subtrees of the window and of its ancestors. -/
theorem ensures_raiseTree_ascent (integrity : s.Integrity) (acyclic : s.Acyclic)
    (managed : s.Managed w) :
    (raiseTree fuel w).Ensures s
      (fun _ t => ∃ groups, Ascent s.parentOf w groups ∧ t = s.emits (raises groups))
      (fun _ _ => False) True := by
  induction fuel generalizing w with
  | zero => trivial
  | succ fuel ih =>
    obtain ⟨info, here⟩ := managed_iff.mp managed
    rw [raiseTree, ensures_bind, ensures_infoFor_here here, ensures_bind, ensures_state,
      integrity.lock_parent here]
    have below (t : Model) (groups : List (List Window)) (known : t = s.emits (raises groups))
        (before : ∀ below, Walk s.parentOf w (w :: below) →
          Ascent s.parentOf w (groups ++ [w :: below])) :
        Ensures (do
          let below ← descendants fuel w
          emit (.adviseRaise (w :: below))
          emit (.raise (w :: below))) t
          (fun _ t => ∃ groups, Ascent s.parentOf w groups ∧ t = s.emits (raises groups))
          (fun _ _ => False) True := by
      subst known
      have linked : (s.emits (raises groups)).Linked := integrity.emits.toLinked
      apply (ensures_descendants_walk linked managed (acyclic w managed)).bind
      intro below t after
      rcases after with ⟨rfl, walk⟩
      refine ⟨groups ++ [w :: below], before _ walk, ?_⟩
      simp [raises, Model.emits, Model.emit]
    rw [ensures_bind, ensures_whenSome]
    constructor
    · intro p link
      have up : s.parentOf w = some p := (parentOf_eq here).trans link
      refine (ih (integrity.managed_parent up)).imp ?_
      intro _ t after
      rcases after with ⟨groups, ascent, known⟩
      exact below t groups known fun _ walk => .link up ascent walk
    · intro none
      exact below s [] (by simp [raises, Model.emits]) fun _ walk =>
        .root ((parentOf_eq here).trans none) walk

/-- Raising a tree raises all of it, and the subtree of the window to its top. -/
theorem raise_tree_en_bloc (integrity : s.Integrity) (acyclic : s.Acyclic) (managed : s.Managed w) :
    (∃ n, ∀ fuel ≥ n, ∃ t, raiseTree fuel w s = .returned () t) ∧
    (∀ fuel failure t, raiseTree fuel w s ≠ .thrown failure t) ∧
    ∀ fuel t, raiseTree fuel w s = .returned () t → ∃ events, t = s.emits events ∧
      (∀ z, EnBloc s.parentOf w z (events.foldl Event.restack z)) ∧
      ∀ windows, .adviseRaise windows ∈ events →
        ∃ root rest, windows = root :: rest ∧ Above s.parentOf root w ∧ windows.Nodup ∧
          (∀ v, v ∈ windows ↔ Above s.parentOf root v) ∧
          windows.Pairwise fun a b => s.parentOf a ≠ some b := by
  have raising (fuel : Nat) : (raiseTree fuel w).Ensures s
      (fun _ t => ∃ groups, Ascent s.parentOf w groups ∧ t = s.emits (raises groups))
      (fun _ _ => False) True := ensures_raiseTree_ascent integrity acyclic managed
  obtain ⟨n, enough⟩ := acyclic.walks integrity
  refine ⟨⟨n, fun fuel le => (enough fuel le w managed).2.1⟩,
    fun fuel failure t => (raising fuel).thrown, fun fuel t run => ?_⟩
  obtain ⟨groups, ascent, known⟩ := (raising fuel).returned run
  refine ⟨raises groups, known, fun z => ?_, fun windows told => ?_⟩
  · rw [restack_raises]
    exact ascent.enBloc z
  · obtain ⟨root, rest, first, above, walk⟩ := ascent.subtree (adviseRaise_mem_raises.mp told)
    exact ⟨root, rest, first, above, walk.nodup, walk.mem, walk.ordered.imp And.right⟩

theorem raise_tree_en_bloc_dialog : ∃ fuel t events,
    raiseTree fuel ⟨1, 1⟩ dialogState = .returned () t ∧ t = dialogState.emits events ∧
      EnBloc dialogState.parentOf ⟨1, 1⟩ [⟨1, 1⟩, ⟨2, 1⟩, ⟨1, 2⟩]
        (events.foldl Event.restack [⟨1, 1⟩, ⟨2, 1⟩, ⟨1, 2⟩]) := by
  obtain ⟨integrity, acyclic⟩ := reachable_dialogState.acyclic_of_linkless.acyclic
  obtain ⟨⟨n, enough⟩, -, raised⟩ :=
    raise_tree_en_bloc integrity acyclic (s := dialogState) (w := ⟨1, 1⟩) (by decide +kernel)
  obtain ⟨t, run⟩ := enough n le_rfl
  obtain ⟨events, known, bloc, -⟩ := raised n t run
  exact ⟨n, t, events, run, known, bloc _⟩

end Miral
