import Miral.WorkspaceChanges
import Mathlib.Data.Set.Basic

/-! The relation of workspaces and windows as a set of pairs, and the operations on that set
which the operations of the manager refine. -/
namespace Miral

open Program Prog Forest Roster Model

namespace Model

variable {s t : Model} {w v : Window} {changes : List (Change Workspace Window)}

def relation (s : Model) : Set (Workspace × Window) := {pair | pair ∈ s.workspacesToWindows}

/-- The windows reachable from the root ancestor of a window. -/
def tree (s : Model) (w : Window) : Set Window := Forest.tree s.parentOf w

theorem Lists.mem {tree : List Window} (lists : s.Lists w tree) : v ∈ tree ↔ v ∈ s.tree w := by
  obtain ⟨root, top, above, walk⟩ := lists
  rw [walk.mem, Model.tree, mem_tree top above]

theorem mem_applyAll_missing {pairs : List (Workspace × Window)} {k k' : Workspace}
    {tree : List Window} (known : ∀ v ∈ s.windowsIn k, (k, v) ∈ pairs) :
    (k', v) ∈ applyAll pairs (told (.join k) (tree.filter (· ∉ s.windowsIn k))) ↔
      (k', v) ∈ pairs ∨ k' = k ∧ v ∈ tree := by
  rw [applyAll_join, List.mem_append]
  simp only [List.mem_map, List.mem_filter, decide_eq_true_eq, Prod.mk.injEq]
  constructor
  · intro either
    rcases either with old | ⟨u, ⟨listed, -⟩, rfl, rfl⟩
    · exact .inl old
    · exact .inr ⟨rfl, listed⟩
  · intro either
    rcases either with old | ⟨rfl, listed⟩
    · exact .inl old
    · by_cases present : v ∈ s.windowsIn k'
      · exact .inl (known v present)
      · exact .inr ⟨v, ⟨listed, present⟩, rfl, rfl⟩

theorem JoinsAll.mem {ks : List Workspace} (joins : s.JoinsAll t w ks changes) {k : Workspace} :
    (k, v) ∈ applyAll s.workspacesToWindows changes ↔
      (k, v) ∈ s.workspacesToWindows ∨ k ∈ ks ∧ v ∈ t.tree w := by
  obtain ⟨parts, joins, rfl⟩ := joins
  suffices general : ∀ pairs : List (Workspace × Window),
      (∀ pair ∈ s.workspacesToWindows, pair ∈ pairs) →
        ((k, v) ∈ applyAll pairs parts.flatten ↔ (k, v) ∈ pairs ∨ k ∈ ks ∧ v ∈ t.tree w) from
    general _ fun _ member => member
  induction joins with
  | nil => simp [applyAll]
  | @cons k₀ part rest parts here _ ih =>
    obtain ⟨tree, lists, rfl⟩ := here
    intro pairs kept
    have known (v : Window) (present : v ∈ s.windowsIn k₀) : (k₀, v) ∈ pairs :=
      kept _ (mem_windowsIn.mp present)
    rw [List.flatten_cons, applyAll_append, ih, mem_applyAll_missing known, lists.mem,
      List.mem_cons, or_assoc, ← or_and_right]
    intro pair member
    exact (mem_applyAll_missing known).mpr (.inl (kept _ member))

end Model

/-- What an operation that starts in `s` and ends in `t` does to the set of pairs. -/
def Op.regroup (s t : Model) (R : Set (Workspace × Window)) : Op → Set (Workspace × Window)
  | addSurface session _ surface =>
    R ∪ {pair | ∃ p, t.parentOf ⟨session, surface⟩ = some p ∧ (pair.1, p) ∈ R ∧
      pair.2 ∈ t.tree ⟨session, surface⟩}
  | removeSurface _ w => R \ {pair | pair.2 = w}
  | forceClose window => R \ {pair | s.lock window = some pair.2}
  | addTreeToWorkspace window k =>
    R ∪ {pair | pair.1 = k ∧ ∃ w, s.lock window = some w ∧ pair.2 ∈ s.tree w}
  | removeTreeFromWorkspace window k =>
    R \ {pair | pair.1 = k ∧ ∃ w, s.lock window = some w ∧ pair.2 ∈ s.tree w}
  | moveWorkspaceContentToWorkspace toWorkspace fromWorkspace =>
    (R \ {pair | pair.1 = fromWorkspace}) ∪
      {pair | pair.1 = toWorkspace ∧ (fromWorkspace, pair.2) ∈ R}
  | _ => R

variable {s t : Model} {changes : List (Change Workspace Window)}

theorem Model.mem_departs (housed : s.Housed) {w v : Window} {k : Workspace} :
    (k, v) ∈ applyAll s.workspacesToWindows (s.departs w) ↔
      (k, v) ∈ s.workspacesToWindows ∧ v ≠ w := by
  rw [departs, applyAll_leaves, List.mem_filter, decide_eq_true_eq]
  refine and_congr_right fun member => not_congr ⟨And.right, ?_⟩
  rintro (rfl : v = w)
  exact ⟨mem_workspacesContaining.mpr ⟨member, housed _ member⟩, rfl⟩

theorem Model.mem_movesContent {toWorkspace fromWorkspace k : Workspace} {v : Window} :
    (k, v) ∈ applyAll s.workspacesToWindows (s.movesContent toWorkspace fromWorkspace) ↔
      (k, v) ∈ s.workspacesToWindows ∧ k ≠ fromWorkspace ∨
        k = toWorkspace ∧ (fromWorkspace, v) ∈ s.workspacesToWindows := by
  rw [movesContent, applyAll_append, applyAll_join, applyAll_leave]
  simp only [List.mem_append, List.mem_filter, List.mem_map, Prod.mk.injEq, mem_windowsIn,
    decide_eq_true_eq]
  constructor
  · intro either
    rcases either with ⟨old, stays⟩ | ⟨u, ⟨moved, -⟩, rfl, rfl⟩
    · refine .inl ⟨old, ?_⟩
      rintro rfl
      exact stays ⟨rfl, old⟩
    · exact .inr ⟨rfl, moved⟩
  · intro either
    rcases either with ⟨old, ne⟩ | ⟨rfl, moved⟩
    · exact .inl ⟨old, fun h => ne h.1⟩
    · by_cases present : k ≠ fromWorkspace ∧ (k, v) ∈ s.workspacesToWindows
      · exact .inl ⟨present.2, fun h => present.1 h.1⟩
      · refine .inr ⟨v, ⟨moved, ?_⟩, rfl, rfl⟩
        by_cases same : k = fromWorkspace
        · exact .inl same
        · exact .inr fun there => present ⟨same, there⟩

/-- The changes of an operation do to the pairs what the operation does to their set. -/
theorem Op.Changes.relation {op : Op} (changed : op.Changes s t changes) (housed : s.Housed)
    (regroups : Regroups changes s t) : t.relation = op.regroup s t s.relation := by
  ext ⟨k, v⟩
  change (k, v) ∈ t.workspacesToWindows ↔ _
  rw [regroups.pairs]
  cases op with
  | addSurface session params surface =>
    rw [JoinsAll.mem changed.joins]
    apply or_congr_right
    cases link : t.parentOf ⟨session, surface⟩ with
    | none => simp
    | some p =>
      have listed : k ∈ s.workspacesContaining p ↔ (k, p) ∈ s.relation := by
        rw [mem_workspacesContaining]
        exact and_iff_left_of_imp fun member => housed _ member
      simp [listed]
  | removeSurface session w =>
    obtain rfl := changed
    exact mem_departs housed
  | forceClose window =>
    obtain rfl := changed
    cases locked : s.lock window with
    | none => simp [regroup, locked, applyAll, Model.relation]
    | some w =>
      rw [Option.elim_some, mem_departs housed]
      simp [regroup, locked, Model.relation, eq_comm]
  | addTreeToWorkspace window k' =>
    obtain ⟨⟨gone, rfl⟩ | ⟨w, tree, locked, lists, rfl⟩, -⟩ := changed
    · simp [regroup, gone, applyAll, Model.relation]
    · rw [mem_applyAll_missing fun v present => mem_windowsIn.mp present, lists.mem]
      simp [regroup, locked, Model.relation]
  | removeTreeFromWorkspace window k' =>
    obtain ⟨⟨gone, rfl⟩ | ⟨w, tree, locked, lists, rfl⟩, -⟩ := changed
    · simp [regroup, gone, applyAll, Model.relation]
    · rw [applyAll_leave, List.mem_filter, decide_eq_true_eq]
      simp only [regroup, locked, Model.relation, List.mem_filter, mem_windowsIn, decide_eq_true_eq,
        lists.mem]
      refine and_congr_right fun member => not_congr ?_
      simp only [Option.some.injEq, exists_eq_left']
      apply and_congr_right
      rintro rfl
      exact and_iff_right member
  | moveWorkspaceContentToWorkspace toWorkspace fromWorkspace =>
    obtain ⟨rfl, -⟩ := changed
    exact mem_movesContent
  | _ =>
    obtain rfl : changes = [] := changed
    rfl

/-- The operations that put windows into workspaces and take them out, closing apart. -/
def Op.groups : Op → Bool
  | addSurface .. | addTreeToWorkspace .. | removeTreeFromWorkspace .. => true
  | moveWorkspaceContentToWorkspace .. => true
  | _ => false

/-- With enough fuel the operation returns or throws. -/
def Op.Ends (op : Op) (s : Model) : Prop :=
  ∃ n, ∀ fuel ≥ n, ∃ t, op.run fuel s = .returned () t ∨
    ∃ failure, op.run fuel s = .thrown failure t

/-- Where trees are acyclic, the operations on workspaces end. -/
theorem Model.Grouped.ends (grouped : s.Grouped) (acyclic : s.Acyclic) {op : Op}
    (contract : op.Contract s) (groups : op.groups) : op.Ends s := by
  have linked := grouped.integrity.swept.toLinked
  obtain ⟨d, bound⟩ := acyclic.exists_depth
  have ended {body : Manager Unit} {post : Unit → Model → Prop} {error : Failure → Model → Prop}
      {short : Prop} (h : body.Ensures s.swept post error short) (enough : ¬short) :
      ∃ t, Op.locked body s = .returned () t ∨ ∃ failure, Op.locked body s = .thrown failure t := by
    have run : (Op.locked body).Ensures s post error short := ensures_locked.mpr h
    unfold Ensures at run
    cases result : Op.locked body s with
    | returned _ t => exact ⟨t, .inl rfl⟩
    | thrown failure t => exact ⟨t, .inr ⟨failure, rfl⟩⟩
    | exhausted =>
      rw [result] at run
      exact absurd run enough
  refine ⟨4 * (d + 1), fun fuel le => ?_⟩
  have enough : ¬s.swept.Short fuel := fun short => by
    have := short d bound
    omega
  cases op with
  | addTreeToWorkspace window k => exact ended (ensures_addTree_regroups linked acyclic) enough
  | removeTreeFromWorkspace window k =>
    exact ended (ensures_removeTree_regroups linked acyclic) enough
  | moveWorkspaceContentToWorkspace toWorkspace fromWorkspace =>
    exact ended (ensures_moveContent_regroups grouped.distinct_swept _ _) not_false
  | addSurface session params surface =>
    refine ended (ensures_addSurface_regroups grouped.integrity.swept acyclic grouped.distinct_swept
      contract.1 contract.2.2) fun short => ?_
    have := short d bound
    omega
  | _ => simp [Op.groups] at groups

/-- The bimap never holds a pair twice, and refines a set of pairs: every operation under the
lock does to the set, less the pairs of the workspaces that have died, what it is there for, and
nothing else changes the set. -/
theorem workspaces_refine_relation
    (reachable : Reachable (fun s op => op.Contract s ∧ s.Acyclic) s) (acyclic : s.Acyclic) :
    s.workspacesToWindows.Nodup ∧
    (∀ k, (s.windowsIn k).Nodup ∧ ∀ w, w ∈ s.windowsIn k ↔ (k, w) ∈ s.relation) ∧
    (∀ w, (s.workspacesContaining w).Nodup ∧
      ∀ k, k ∈ s.workspacesContaining w ↔ (k, w) ∈ s.relation ∧ k ∈ s.liveWorkspaces) ∧
    ∀ op : Op, op.Contract s → (op.groups → op.Ends s) ∧ ∀ t, op.Completes s t →
      (op.locks → t.deadWorkspaces = [] ∧ (∀ k ∈ s.deadWorkspaces, ∀ w, (k, w) ∉ t.relation) ∧
        t.relation = op.regroup s t {pair ∈ s.relation | pair.1 ∉ s.deadWorkspaces}) ∧
      (op.locks = false → t.relation = s.relation ∧
        ∀ k, k ∈ t.deadWorkspaces ↔ k ∈ s.deadWorkspaces ∨ op = .destroyWorkspace k) := by
  have grouped := reachable.grouped
  refine ⟨grouped.distinct, fun k => ⟨members_nodup grouped.distinct k, fun w => mem_windowsIn⟩,
    fun w => ⟨workspacesContaining_nodup grouped.distinct, fun k => mem_workspacesContaining⟩,
    fun op contract => ⟨grouped.ends acyclic contract, fun t completes =>
      ⟨fun locks => ?_, fun unlocked => ?_⟩⟩⟩
  · obtain ⟨changes, changed, regroups⟩ := completes.regroups locks grouped acyclic contract
    have swept : s.swept.relation = {pair ∈ s.relation | pair.1 ∉ s.deadWorkspaces} := by
      ext pair
      simp [Model.relation, Model.swept]
    refine ⟨regroups.dead, fun k dead w member => ?_, ?_⟩
    · change (k, w) ∈ t.workspacesToWindows at member
      rw [regroups.pairs] at member
      apply grouped.integrity.retired k dead
      rcases mem_applyAll member with old | ⟨ws, joined⟩
      · exact grouped.housed_swept _ old
      · exact changed.joined contract rfl joined
    · rw [← swept]
      exact changed.relation grouped.housed_swept regroups
  · obtain ⟨pairs, -, -, dead⟩ := completes.ungrouped unlocked
    exact ⟨by rw [Model.relation, pairs]; rfl, dead⟩

theorem workspaces_refine_relation_dialog :
    (dialogState.windowsIn 7).Nodup ∧
      (Op.moveWorkspaceContentToWorkspace 7 7).Ends dialogState := by
  have acyclic := reachable_dialogState.acyclic_of_linkless
  obtain ⟨-, windows, -, steps⟩ :=
    workspaces_refine_relation acyclic.through_acyclic acyclic.acyclic.2
  exact ⟨(windows 7).1, (steps (.moveWorkspaceContentToWorkspace 7 7) (by decide +kernel)).1 rfl⟩

end Miral
