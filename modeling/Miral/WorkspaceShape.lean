import Miral.WorkspaceNotifications
import Miral.WorkspaceRelation

/-! What a notification about a workspace lists: one tree with parents before children, as it
is documented, or several trees or windows out of order. -/
namespace Miral

open Program Prog Forest Roster Model

/-- One operation of a run, with the states around it. -/
structure RunStep where
  before : Model
  op : Op
  after : Model

/-- The steps of runs from an empty manager, each of which is `allowed`. -/
inductive Trace (allowed : Model → Op → Prop) : List RunStep → Model → Prop where
  | initial (focusController : FocusController) (displayLayout : DisplayLayout) :
      Trace allowed [] (Model.initial focusController displayLayout)
  | step {steps : List RunStep} {s t : Model} {op : Op} : Trace allowed steps s → allowed s op →
      op.Completes s t → Trace allowed (steps ++ [⟨s, op, t⟩]) t

theorem Trace.mono {allowed allowed' : Model → Op → Prop} {steps : List RunStep} {s : Model}
    (weaker : ∀ s op, allowed s op → allowed' s op) (trace : Trace allowed steps s) :
    Trace allowed' steps s := by
  induction trace with
  | initial focusController displayLayout => exact .initial focusController displayLayout
  | step _ allow completes ih => exact ih.step (weaker _ _ allow) completes

theorem Trace.reachable {allowed : Model → Op → Prop} {steps : List RunStep} {s : Model}
    (trace : Trace allowed steps s) : Reachable allowed s := by
  induction trace with
  | initial focusController displayLayout => exact .initial focusController displayLayout
  | step _ allow completes ih => exact ih.step allow completes

theorem Reachable.trace {allowed : Model → Op → Prop} {s : Model}
    (reachable : Reachable allowed s) : ∃ steps, Trace allowed steps s := by
  induction reachable with
  | initial focusController displayLayout => exact ⟨[], .initial focusController displayLayout⟩
  | step _ allow completes ih =>
    obtain ⟨steps, trace⟩ := ih
    exact ⟨_, trace.step allow completes⟩

def RunStep.reported (step : RunStep) : List (Change Workspace Window) :=
  step.after.reports.drop step.before.reports.length

/-- Every list the step reports is ordered with parents before children and forms a single tree
rooted at its first element. -/
def RunStep.OneTrees (step : RunStep) : Prop :=
  ∀ change ∈ step.reported, OneTree step.after.parentOf change.listed

/-- No window of a set has been put in a workspace before its parent. -/
def Model.InOrder (s : Model) (windows : Set Window) (k : Workspace) : Prop :=
  ∀ v ∈ windows, ∀ p, s.parentOf v = some p → ¬[v, p].Sublist (s.windowsIn k)

/-- The condition on the state before an operation under which it reports single trees. -/
def Op.Orderly (s : Model) : Op → Prop
  | addSurface session params _ => s.Accepts session params → ∀ p, s.lock params.parent = some p →
    ∀ k ∈ s.workspacesContaining p, ∀ v ∈ s.tree p, v ∈ s.windowsIn k
  | addTreeToWorkspace window k => ∀ w, s.lock window = some w →
    OneTop s.parentOf {v | v ∈ s.tree w ∧ v ∉ s.windowsIn k}
  | removeTreeFromWorkspace window k => ∀ w, s.lock window = some w →
    s.InOrder (s.tree w) k ∧ OneTop s.parentOf {v | v ∈ s.tree w ∧ v ∈ s.windowsIn k}
  | moveWorkspaceContentToWorkspace toWorkspace fromWorkspace =>
    s.InOrder Set.univ fromWorkspace ∧ OneTop s.parentOf {v | v ∈ s.windowsIn fromWorkspace} ∧
    OneTop s.parentOf {v | v ∈ s.windowsIn fromWorkspace ∧
      (toWorkspace = fromWorkspace ∨ v ∉ s.windowsIn toWorkspace)}
  | _ => True

variable {s t : Model} {w : Window} {k : Workspace} {changes : List (Change Workspace Window)}

theorem oneTree_nil {parent : Window → Option Window} : OneTree parent [] := ⟨.nil, by simp⟩

theorem windowsIn_nodup (distinct : s.workspacesToWindows.Nodup) (k : Workspace) :
    (s.windowsIn k).Nodup := members_nodup distinct k

/-- The part of a tree that is in a workspace is listed in order if the tree has been put in it
in order. -/
theorem inOrder_iff {tree : List Window}
    (closed : ∀ v p, s.parentOf v = some p → v ∈ tree → p ∈ tree) :
    (((s.windowsIn k).filter (· ∈ tree)).Pairwise fun a b => s.parentOf a ≠ some b) ↔
      s.InOrder {v | v ∈ tree} k := by
  rw [List.pairwise_filter, List.pairwise_iff_forall_sublist]
  simp only [decide_eq_true_eq]
  constructor
  · exact fun ordered v member p link before =>
      ordered before member (closed v p link member) link
  · exact fun ordered a b before member _ link => ordered a member b link before

theorem inOrder_univ : ((s.windowsIn k).Pairwise fun a b => s.parentOf a ≠ some b) ↔
    s.InOrder Set.univ k := by
  rw [List.pairwise_iff_forall_sublist]
  exact ⟨fun ordered v _ p link before => ordered before link,
    fun ordered a b before link => ordered a trivial b link before⟩

theorem Model.RemovesTree.oneTrees_iff {window : Option Window}
    (removes : s.RemovesTree window k changes) (distinct : s.workspacesToWindows.Nodup)
    (acyclic : s.Acyclic) : (∀ change ∈ changes, OneTree s.parentOf change.listed) ↔
      (Op.removeTreeFromWorkspace window k).Orderly s := by
  obtain ⟨gone, rfl⟩ | ⟨w, tree, locked, lists, rfl⟩ := removes
  · simp [Op.Orderly, gone]
  · have listed : s.tree w = {v | v ∈ tree} := Set.ext fun v => lists.mem.symm
    have closed (v p : Window) (link : s.parentOf v = some p) (member : v ∈ tree) : p ∈ tree := by
      rw [lists.mem] at member ⊢
      exact (tree_closed link).mp member
    have single := (windowsIn_nodup distinct k).filter (· ∈ tree)
    rw [forall_told oneTree_nil rfl, oneTree_iff_ordered single fun v _ => acyclic.rooted v,
      inOrder_iff closed]
    simp only [Op.Orderly, locked, Option.some.injEq, forall_eq', listed, List.mem_filter,
      decide_eq_true_eq, Set.mem_ofPred_eq, and_comm]

theorem Model.AddsTree.oneTrees_iff {window : Option Window}
    (adds : s.AddsTree window k changes) (acyclic : s.Acyclic) :
    (∀ change ∈ changes, OneTree s.parentOf change.listed) ↔
      (Op.addTreeToWorkspace window k).Orderly s := by
  obtain ⟨gone, rfl⟩ | ⟨w, tree, locked, lists, rfl⟩ := adds
  · simp [Op.Orderly, gone]
  · have listed : s.tree w = {v | v ∈ tree} := Set.ext fun v => lists.mem.symm
    obtain ⟨root, -, -, walk⟩ := id lists
    rw [forall_told oneTree_nil rfl, oneTree_iff (walk.nodup.filter _)
      ((walk.ordered.imp And.right).filter _) fun v _ => acyclic.rooted v]
    simp only [Op.Orderly, locked, Option.some.injEq, forall_eq', listed, List.mem_filter,
      decide_eq_true_eq, Set.mem_ofPred_eq]

/-- The content of a workspace is listed as one tree, on its way out and on its way in, under
the condition for it. -/
theorem Model.movesContent_oneTrees_iff (distinct : s.workspacesToWindows.Nodup)
    (acyclic : s.Acyclic) (toWorkspace fromWorkspace : Workspace) :
    (∀ change ∈ s.movesContent toWorkspace fromWorkspace, OneTree s.parentOf change.listed) ↔
      (Op.moveWorkspaceContentToWorkspace toWorkspace fromWorkspace).Orderly s := by
  have single := windowsIn_nodup distinct fromWorkspace
  simp only [movesContent, List.mem_append, or_imp, forall_and]
  rw [forall_told oneTree_nil rfl, forall_told oneTree_nil rfl,
    oneTree_iff_ordered single fun v _ => acyclic.rooted v, inOrder_univ, Op.Orderly, and_assoc]
  refine and_congr_right fun ordered => and_congr_right fun _ => ?_
  rw [oneTree_iff (single.filter _) ((inOrder_univ.mpr ordered).filter _)
    fun v _ => acyclic.rooted v]
  simp only [List.mem_filter, decide_eq_true_eq]

section Enter

variable {new p : Window}

theorem forall_flatten {A B : Type} {related : A → List B → Prop} {xs : List A}
    {parts : List (List B)} (h : List.Forall₂ related xs parts) {property : B → Prop}
    {condition : A → Prop}
    (each : ∀ x ∈ xs, ∀ part, related x part → ((∀ b ∈ part, property b) ↔ condition x)) :
    (∀ b ∈ parts.flatten, property b) ↔ ∀ x ∈ xs, condition x := by
  induction h with
  | nil => simp
  | cons here _ ih =>
    rw [List.flatten_cons, List.forall_mem_append, List.forall_mem_cons,
      each _ List.mem_cons_self _ here, ih fun x member => each x (List.mem_cons_of_mem _ member)]

/-- What is missing of the tree of a new window is one tree only if nothing but the window
itself is missing. -/
theorem oneTree_entered {tree : List Window} (entered : t.parentOf new = some p) (ne : p ≠ new)
    (others : ∀ v, v ≠ new → t.parentOf v = s.parentOf v)
    (childless : ∀ v, s.parentOf v ≠ some new) (acyclic : s.Acyclic)
    (fresh : new ∉ s.windowsIn k) (present : p ∈ s.windowsIn k) (lists : t.Lists new tree) :
    OneTree t.parentOf (tree.filter (· ∉ s.windowsIn k)) ↔
      ∀ v ∈ s.tree p, v ≠ new → v ∈ s.windowsIn k := by
  obtain ⟨root, top, above, walk⟩ := id lists
  rw [oneTree_iff (walk.nodup.filter _) ((walk.ordered.imp And.right).filter _)
    fun v _ => Rooted.enter others childless entered ne acyclic.rooted v]
  have listed (v : Window) : v ∈ tree.filter (· ∉ s.windowsIn k) ↔
      v ∈ t.tree new ∧ v ∉ s.windowsIn k := by
    rw [List.mem_filter, lists.mem, decide_eq_true_eq]
  have self : new ∈ tree.filter (· ∉ s.windowsIn k) :=
    (listed new).mpr ⟨⟨root, top, above, above⟩, fresh⟩
  constructor
  · intro one v member other
    by_contra missing
    have first : IsTop t.parentOf {v | v ∈ tree.filter (· ∉ s.windowsIn k)} new := by
      refine ⟨self, fun q member link => ?_⟩
      obtain rfl := Option.some.inj (entered.symm.trans link)
      exact ((listed p).mp member).2 present
    have here : v ∈ {v | v ∈ tree.filter (· ∉ s.windowsIn k)} :=
      (listed v).mpr ⟨(tree_enter others childless entered ne other).mpr member, missing⟩
    obtain ⟨a, higher, top'⟩ :=
      exists_isTop (Rooted.enter others childless entered ne acyclic.rooted v) here
    obtain rfl := one a new top' first
    exact not_above_childless childless other ((above_enter others childless other).mp higher)
  · rintro whole v v' ⟨member, -⟩ ⟨member', -⟩
    have only (v : Window) (member : v ∈ tree.filter (· ∉ s.windowsIn k)) : v = new := by
      obtain ⟨inside, missing⟩ := (listed v).mp member
      by_contra other
      exact missing (whole v ((tree_enter others childless entered ne other).mp inside) other)
    exact (only v member).trans (only v' member').symm

/-- A window that is created is listed as one tree under the condition for it. -/
theorem Model.Enters.oneTrees_iff {session : Application} {params : SurfaceCreationParameters}
    {surface : Nat} (enters : s.Enters t session params surface changes)
    (integrity : s.Integrity) (acyclic : s.Acyclic) (fresh : ¬s.Managed ⟨session, surface⟩) :
    (∀ change ∈ changes, OneTree t.parentOf change.listed) ↔
      (Op.addSurface session params surface).Orderly s := by
  obtain ⟨⟨parts, joins, rfl⟩, others, accepted, refused⟩ := enters
  have unlisted (k : Workspace) : (⟨session, surface⟩ : Window) ∉ s.windowsIn k :=
    fun member => fresh (integrity.workspaces _ (mem_windowsIn.mp member))
  cases link : t.parentOf ⟨session, surface⟩ with
  | none =>
    rw [link] at joins
    obtain rfl := List.forall₂_nil_left_iff.mp joins
    refine ⟨fun _ accepts p target => ?_, fun _ => by simp⟩
    rw [accepted accepts, target] at link
    contradiction
  | some p =>
    have accepts : s.Accepts session params := by
      by_contra rejects
      rw [refused rejects] at link
      contradiction
    have target : s.lock params.parent = some p := (accepted accepts).symm.trans link
    have ne : p ≠ ⟨session, surface⟩ := by
      rintro rfl
      exact fresh ((integrity.live _).mp (lock_eq_some.mp target).2)
    have childless (v : Window) : s.parentOf v ≠ some ⟨session, surface⟩ :=
      fun link => fresh (integrity.managed_parent link)
    have untreed (v : Window) (member : v ∈ s.tree p) : v ≠ ⟨session, surface⟩ := by
      rintro rfl
      obtain ⟨root, top, above, below⟩ := member
      obtain rfl := below.eq_of_root (Option.eq_none_iff_forall_ne_some.mpr fun q up =>
        fresh (managed_of_parentOf up))
      exact not_above_childless childless ne above
    have one (k : Workspace) (member : k ∈ s.workspacesContaining p) (tree : List Window)
        (lists : t.Lists ⟨session, surface⟩ tree) :
        (∀ change ∈ told (.join k) (tree.filter (· ∉ s.windowsIn k)),
          OneTree t.parentOf change.listed) ↔ ∀ v ∈ s.tree p, v ∈ s.windowsIn k := by
      have present := mem_windowsIn.mpr (mem_workspacesContaining.mp member).1
      rw [forall_told oneTree_nil rfl, oneTree_entered link ne others childless acyclic (unlisted k)
        present lists]
      exact forall₂_congr fun v inside => forall_prop_of_true (untreed v inside)
    rw [link, Option.elim_some] at joins
    rw [forall_flatten joins fun k member part ⟨tree, lists, told⟩ => told ▸ one k member tree lists]
    simp [Op.Orderly, accepts, target]

end Enter

/-- The lists an operation reports are single trees under the condition for it. -/
theorem Op.Changes.oneTrees_iff {op : Op} (changed : op.Changes s.swept t changes)
    (grouped : s.Grouped) (acyclic : s.Acyclic) (contract : op.Contract s) :
    (∀ change ∈ changes, OneTree t.parentOf change.listed) ↔ op.Orderly s.swept := by
  have distinct := grouped.distinct_swept
  have acyclic' : s.swept.Acyclic := acyclic
  have departs (w : Window) : ∀ change ∈ s.swept.departs w, OneTree t.parentOf change.listed := by
    intro change member
    obtain ⟨k, -, rfl⟩ := List.mem_map.mp member
    exact oneTree_singleton w
  cases op with
  | addSurface session params surface =>
    exact Model.Enters.oneTrees_iff changed grouped.integrity.swept acyclic' contract.1
  | removeSurface session w =>
    obtain rfl := changed
    exact iff_of_true (departs w) trivial
  | forceClose window =>
    obtain rfl := changed
    refine iff_of_true ?_ trivial
    cases s.swept.lock window with
    | none => simp
    | some w => exact departs w
  | addTreeToWorkspace window k =>
    obtain ⟨adds, same⟩ := changed
    rw [same]
    exact Model.AddsTree.oneTrees_iff adds acyclic'
  | removeTreeFromWorkspace window k =>
    obtain ⟨removes, same⟩ := changed
    rw [same]
    exact Model.RemovesTree.oneTrees_iff removes distinct acyclic'
  | moveWorkspaceContentToWorkspace toWorkspace fromWorkspace =>
    obtain ⟨rfl, same⟩ := changed
    rw [same]
    exact movesContent_oneTrees_iff distinct acyclic' _ _
  | _ =>
    obtain rfl : changes = [] := changed
    exact iff_of_true (by simp) trivial

theorem Op.Completes.oneTrees_iff {op : Op} (completes : op.Completes s t) (grouped : s.Grouped)
    (acyclic : s.Acyclic) (contract : op.Contract s) :
    (RunStep.mk s op t).OneTrees ↔ op.Orderly s.swept := by
  cases locks : op.locks with
  | true =>
    obtain ⟨changes, changed, regroups⟩ := completes.regroups locks grouped acyclic contract
    have reported : (RunStep.mk s op t).reported = changes := by
      change t.reports.drop s.reports.length = changes
      rw [regroups.reports]
      exact List.drop_left
    rw [RunStep.OneTrees, reported]
    exact changed.oneTrees_iff grouped acyclic contract
  | false =>
    have reported : (RunStep.mk s op t).reported = [] := by
      change t.reports.drop s.reports.length = []
      rw [(completes.ungrouped locks).2.1, List.drop_length]
    rw [RunStep.OneTrees, reported]
    apply iff_of_true (by simp)
    cases op with
    | postBuffer | createWorkspace | destroyWorkspace => trivial
    | _ => simp [Op.locks] at locks

/-- No window of a list of pairs stands in a workspace before its parent. -/
def Model.ParentsFirst (s : Model) (pairs : List (Workspace × Window)) : Prop :=
  Sorted (fun a b => s.parentOf a ≠ some b) pairs

/-- What holds in every reachable state as long as windows are hung only on windows of the same
workspaces that were put in them first. -/
structure Model.Arranged (s : Model) : Prop where
  uniform : s.grove.Uniform
  sorted : s.ParentsFirst s.swept.workspacesToWindows

/-- The operation hangs windows only on windows of the same workspaces, which have been put in
each of these first. -/
def Op.Tidy (s : Model) (op : Op) : Prop :=
  ∀ w p, op.links s w p → (∀ k, k ∈ s.workspacesContaining w ↔ k ∈ s.workspacesContaining p) ∧
    ∀ k, ¬[w, p].Sublist (s.swept.windowsIn k)

/-- A move takes at most one tree along. -/
def Op.MovesOneTree (s : Model) : Op → Prop
  | moveWorkspaceContentToWorkspace _ fromWorkspace => ∀ v ∈ s.windowsIn fromWorkspace,
    ∀ w ∈ s.windowsIn fromWorkspace, s.parentOf v = none → s.parentOf w = none → v = w
  | _ => True

section Arranged

variable {p : Window}

theorem windowsIn_parent (uniform : s.grove.Uniform) (housed : s.Housed)
    (link : s.parentOf w = some p) (k : Workspace) : w ∈ s.windowsIn k ↔ p ∈ s.windowsIn k := by
  have lives (v : Window) : s.grove.member k v ↔ v ∈ s.windowsIn k := by
    rw [mem_grove, mem_windowsIn, and_iff_left_of_imp]
    exact fun member => housed _ member
  rw [← lives, ← lives]
  exact uniform w p link k

theorem windowsIn_tree (uniform : s.grove.Uniform) (housed : s.Housed) {v v' : Window}
    (member : v ∈ s.tree w) (member' : v' ∈ s.tree w) :
    v ∈ s.windowsIn k ↔ v' ∈ s.windowsIn k := by
  obtain ⟨root, top, above, below⟩ := member
  have below' := (mem_tree top above).mp member'
  have whole {u : Window} (below : Above s.parentOf root u) :
      u ∈ s.windowsIn k ↔ root ∈ s.windowsIn k := by
    have same := uniform.above below k
    rw [mem_grove, mem_grove] at same
    rw [mem_windowsIn, mem_windowsIn]
    exact ⟨fun here => (same.mp ⟨here, housed _ here⟩).1,
      fun here => (same.mpr ⟨here, housed _ here⟩).1⟩
  rw [whole below, whole below']

/-- What is added to one workspace after the other stands behind its parents. -/
theorem Model.JoinsAll.parentsFirst {ks : List Workspace} (joins : s.JoinsAll t w ks changes)
    (single : ks.Nodup) (first : t.ParentsFirst s.workspacesToWindows)
    (closed : ∀ k ∈ ks, ∀ a b, t.parentOf a = some b → a ∈ s.windowsIn k → b ∈ s.windowsIn k) :
    t.ParentsFirst (applyAll s.workspacesToWindows changes) := by
  obtain ⟨parts, joins, rfl⟩ := joins
  suffices general : ∀ pairs : List (Workspace × Window),
      (∀ k ∈ ks, members pairs k = s.windowsIn k) → t.ParentsFirst pairs →
        t.ParentsFirst (applyAll pairs parts.flatten) from general _ (fun k _ => rfl) first
  induction joins with
  | nil => exact fun _ _ sorted => sorted
  | @cons k part rest parts here _ ih =>
    obtain ⟨tree, lists, rfl⟩ := here
    obtain ⟨fresh, single⟩ := List.nodup_cons.mp single
    obtain ⟨root, -, -, walk⟩ := lists
    intro pairs same sorted
    rw [List.flatten_cons, applyAll_append]
    refine ih single (fun k' member => closed k' (by simp [member])) _ (fun k' member => ?_) ?_
    · have ne : k ≠ k' := fun eq => fresh (eq ▸ member)
      rw [← same k' (by simp [member]), applyAll_join]
      simp [members, List.filter_map, Function.comp_def, ne]
    · apply sorted.told_join ((walk.ordered.imp And.right).filter _)
      intro a inside b added link
      rw [same k (by simp)] at inside
      exact of_decide_eq_true (List.mem_filter.mp added).2 (closed k (by simp) a b link inside)

/-- The changes of an operation leave no window before its parent. -/
theorem Op.Changes.parentsFirst {op : Op} (changed : op.Changes s t changes)
    (distinct : s.workspacesToWindows.Nodup) (housed : s.Housed) (uniform : s.grove.Uniform)
    (first : t.ParentsFirst s.workspacesToWindows)
    (fresh : ∀ session params surface, op = .addSurface session params surface →
      ∀ k, ⟨session, surface⟩ ∉ s.windowsIn k) :
    t.ParentsFirst (applyAll s.workspacesToWindows changes) := by
  have closed (same : t.parentOf = s.parentOf) (k : Workspace) (a b : Window)
      (link : t.parentOf a = some b) : a ∈ s.windowsIn k ↔ b ∈ s.windowsIn k :=
    windowsIn_parent uniform housed (same ▸ link) k
  cases op with
  | addSurface session params surface =>
    refine JoinsAll.parentsFirst changed.joins ?_ first fun k _ a b link inside => ?_
    · cases t.parentOf ⟨session, surface⟩ with
      | none => exact List.nodup_nil
      | some p => exact workspacesContaining_nodup distinct
    · have old : a ≠ ⟨session, surface⟩ := by
        rintro rfl
        exact fresh session params surface rfl k inside
      rw [changed.others a old] at link
      exact (windowsIn_parent uniform housed link k).mp inside
  | removeSurface session w =>
    obtain rfl := changed
    rw [departs, applyAll_leaves]
    exact first.filter _
  | forceClose window =>
    obtain rfl := changed
    cases s.lock window with
    | none => exact first
    | some w =>
      rw [Option.elim_some, departs, applyAll_leaves]
      exact first.filter _
  | addTreeToWorkspace window k =>
    obtain ⟨⟨-, rfl⟩ | ⟨w, tree, -, ⟨root, -, -, walk⟩, rfl⟩, same⟩ := changed
    · exact first
    · refine first.told_join ?_ fun a inside b added link => ?_
      · rw [same]
        exact (walk.ordered.imp And.right).filter _
      · exact of_decide_eq_true (List.mem_filter.mp added).2 ((closed same k a b link).mp inside)
  | removeTreeFromWorkspace window k =>
    obtain ⟨⟨-, rfl⟩ | ⟨w, tree, -, -, rfl⟩, -⟩ := changed
    · exact first
    · exact first.told_leave
  | moveWorkspaceContentToWorkspace toWorkspace fromWorkspace =>
    obtain ⟨rfl, same⟩ := changed
    rw [movesContent, applyAll_append]
    refine (Sorted.told_leave first).told_join ((first fromWorkspace).filter _)
      fun a inside b added link => ?_
    obtain ⟨moved, missing⟩ := List.mem_filter.mp added
    rw [mem_members, applyAll_leave, List.mem_filter, ← mem_windowsIn] at inside
    obtain ⟨inside, stays⟩ := inside
    rcases of_decide_eq_true missing with rfl | missing
    · exact of_decide_eq_true stays ⟨rfl, inside⟩
    · exact missing ((closed same toWorkspace a b link).mp inside)
  | _ =>
    obtain rfl : changes = [] := changed
    exact first

/-- An operation that hangs windows only on windows which stand before them leaves none before
its parent. -/
theorem Op.Completes.parentsFirst {op : Op} (completes : op.Completes s t) (grouped : s.Grouped)
    (contract : op.Contract s) (arranged : s.Arranged) (tidy : op.Tidy s) :
    t.ParentsFirst s.swept.workspacesToWindows := by
  have step : Grove.Step (op.links s) s.grove t.grove :=
    (completes.ensured fun fuel => follows_run fuel op grouped.integrity contract).2
  intro k
  rw [List.pairwise_iff_forall_sublist]
  intro a b before link
  rcases step.link link with old | allowed | fresh
  · exact List.pairwise_iff_forall_sublist.mp (arranged.sorted k) before old
  · exact (tidy a b allowed).2 k before
  · have member := mem_windowsIn.mp (before.subset List.mem_cons_self)
    exact fresh k (mem_grove.mpr ⟨(List.mem_filter.mp member).1, grouped.housed_swept _ member⟩)

theorem Reachable.arranged
    (reachable : Reachable (fun s op => (op.Contract s ∧ s.Acyclic) ∧ op.Tidy s) s) :
    s.Arranged := by
  have uniform (s : Model)
      (reachable : Reachable (fun s op => (op.Contract s ∧ s.Acyclic) ∧ op.Tidy s) s) :
      s.grove.Uniform := by
    refine (reachable.mono fun s op h => ⟨h.1.1, ?_⟩).uniform.2
    rintro ⟨w, p, link, k, apart⟩
    exact apart ((h.2 w p link).1 k)
  refine ⟨uniform s reachable, ?_⟩
  induction reachable with
  | initial => exact fun k => .nil
  | @step s t op before allow completes ih =>
    obtain ⟨⟨contract, acyclic⟩, tidy⟩ := allow
    have grouped := (before.mono fun _ _ h => h.1).grouped
    have whole := uniform s before
    have first := completes.parentsFirst grouped contract ⟨whole, ih⟩ tidy
    cases locks : op.locks with
    | true =>
      obtain ⟨changes, changed, regroups⟩ := completes.regroups locks grouped acyclic contract
      refine Sorted.filter ?_ _
      rw [regroups.pairs]
      refine changed.parentsFirst grouped.distinct_swept grouped.housed_swept
        (grouped.integrity.grove_swept ▸ whole) first ?_
      rintro session params surface rfl k member
      exact contract.1 (grouped.integrity.swept.workspaces _ (mem_windowsIn.mp member))
    | false =>
      obtain ⟨pairs, -, -, dead⟩ := completes.ungrouped locks
      have swept : t.swept.workspacesToWindows =
          s.swept.workspacesToWindows.filter fun pair => pair.1 ∉ t.deadWorkspaces := by
        simp only [Model.swept, pairs, List.filter_filter, ← Bool.decide_and]
        refine List.filter_congr fun pair _ => decide_eq_decide.mpr ?_
        exact ⟨fun alive => ⟨alive, fun gone => alive ((dead _).mpr (.inl gone))⟩, And.left⟩
      rw [swept]
      exact first.filter _

/-- In arranged states every operation but a move reports single trees, and a move does if it
takes at most one tree along. -/
theorem Model.Arranged.orderly_iff (arranged : s.Arranged) (grouped : s.Grouped)
    (op : Op) : op.Orderly s.swept ↔ op.MovesOneTree s.swept := by
  have housed := grouped.housed_swept
  have uniform : s.swept.grove.Uniform := grouped.integrity.grove_swept ▸ arranged.uniform
  have inOrder (windows : Set Window) (k : Workspace) : s.swept.InOrder windows k := by
    intro v _ p link before
    exact List.pairwise_iff_forall_sublist.mp (arranged.sorted k) before link
  -- The part of a tree that is in a workspace, or missing, is all of it or nothing.
  have oneTop (w : Window) (part : Set Window) (whole : ∀ v ∈ s.swept.tree w,
      ∀ v' ∈ s.swept.tree w, v ∈ part ↔ v' ∈ part) :
      OneTop s.swept.parentOf {v | v ∈ s.swept.tree w ∧ v ∈ part} := by
    have root (v : Window) (top : IsTop s.swept.parentOf {v | v ∈ s.swept.tree w ∧ v ∈ part} v) :
        s.swept.parentOf v = none := by
      apply Option.eq_none_iff_forall_ne_some.mpr
      intro p link
      have inside : p ∈ s.swept.tree w := (tree_closed link).mp top.1.1
      exact top.2 p ⟨inside, (whole v top.1.1 p inside).mp top.1.2⟩ link
    intro v v' top top'
    obtain ⟨r, rootless, above, below⟩ := top.1.1
    have below' := (mem_tree rootless above).mp top'.1.1
    exact (below.eq_of_root (root v top)).symm.trans (below'.eq_of_root (root v' top'))
  cases op with
  | addSurface session params surface =>
    refine iff_of_true (fun accepts p target k member v inside => ?_) trivial
    have own : p ∈ s.swept.tree p := by
      obtain ⟨root, top, above, -⟩ := inside
      exact ⟨root, top, above, above⟩
    have present := mem_windowsIn.mpr (mem_workspacesContaining.mp member).1
    exact (windowsIn_tree uniform housed own inside).mp present
  | addTreeToWorkspace window k =>
    refine iff_of_true (fun w locked => oneTop w {v | v ∉ s.swept.windowsIn k} ?_) trivial
    exact fun v inside v' inside' => not_congr (windowsIn_tree uniform housed inside inside')
  | removeTreeFromWorkspace window k =>
    refine iff_of_true (fun w locked => ⟨inOrder _ k, oneTop w {v | v ∈ s.swept.windowsIn k} ?_⟩)
      trivial
    exact fun v inside v' inside' => windowsIn_tree uniform housed inside inside'
  | moveWorkspaceContentToWorkspace toWorkspace fromWorkspace =>
    -- A window whose parent is not moved with it has none.
    have top (v : Window) (part : Set Window) (closed : ∀ v p, s.swept.parentOf v = some p →
        v ∈ part → p ∈ part) : IsTop s.swept.parentOf part v ↔
          v ∈ part ∧ s.swept.parentOf v = none := by
      refine and_congr_right fun member => ⟨fun top => ?_, fun root p _ link => ?_⟩
      · exact Option.eq_none_iff_forall_ne_some.mpr fun p link => top p (closed v p link member) link
      · exact nomatch root.symm.trans link
    have leaving (v p : Window) (link : s.swept.parentOf v = some p) :=
      windowsIn_parent uniform housed link fromWorkspace
    have missing (v p : Window) (link : s.swept.parentOf v = some p) :=
      windowsIn_parent uniform housed link toWorkspace
    constructor
    · rintro ⟨-, one, -⟩ v member w member' root root'
      refine one v w ((top v _ ?_).mpr ⟨member, root⟩) ((top w _ ?_).mpr ⟨member', root'⟩) <;>
        exact fun v p link => (leaving v p link).mp
    · refine fun one => ⟨inOrder _ _, fun v w first second => ?_, fun v w first second => ?_⟩
      · obtain ⟨member, root⟩ := (top v _ fun v p link => (leaving v p link).mp).mp first
        obtain ⟨member', root'⟩ := (top w _ fun v p link => (leaving v p link).mp).mp second
        exact one v member w member' root root'
      · have closed (v p : Window) (link : s.swept.parentOf v = some p)
            (member : v ∈ s.swept.windowsIn fromWorkspace ∧ (toWorkspace = fromWorkspace ∨
              v ∉ s.swept.windowsIn toWorkspace)) : p ∈ s.swept.windowsIn fromWorkspace ∧
                (toWorkspace = fromWorkspace ∨ p ∉ s.swept.windowsIn toWorkspace) :=
          ⟨(leaving v p link).mp member.1, member.2.imp_right (mt (missing v p link).mpr)⟩
        obtain ⟨⟨member, -⟩, root⟩ := (top v _ closed).mp first
        obtain ⟨⟨member', -⟩, root'⟩ := (top w _ closed).mp second
        exact one v member w member' root root'
  | _ => exact Iff.rfl

end Arranged

variable {allowed : Model → Op → Prop} {steps : List RunStep}

theorem Trace.mem (trace : Trace allowed steps s) {step : RunStep} (member : step ∈ steps) :
    Reachable allowed step.before ∧ allowed step.before step.op ∧
      step.op.Completes step.before step.after := by
  induction trace with
  | initial => simp at member
  | @step steps s t op before allow completes ih =>
    rcases List.mem_append.mp member with earlier | last
    · exact ih earlier
    · obtain rfl := List.mem_singleton.mp last
      exact ⟨before.reachable, allow, completes⟩

theorem Trace.restrict {extra : Model → Op → Prop} (trace : Trace allowed steps s)
    (meets : ∀ step ∈ steps, extra step.before step.op) :
    Trace (fun s op => allowed s op ∧ extra s op) steps s := by
  induction trace with
  | initial focusController displayLayout => exact .initial focusController displayLayout
  | step before allow completes ih =>
    refine (ih fun step member => meets step (List.mem_append_left _ member)).step ⟨allow, ?_⟩
      completes
    exact meets ⟨_, _, _⟩ (List.mem_append_right _ (List.mem_singleton_self _))

theorem Reachable.tidy_trace
    (reachable : Reachable (fun s op => op.Contract s ∧ op.asksParent = false) s) :
    ∃ steps, Trace (fun s op => op.Contract s ∧ s.Acyclic) steps s ∧
      ∀ step ∈ steps, step.op.Tidy step.before := by
  obtain ⟨steps, trace⟩ := (reachable.through Model.Acyclic
    fun _ reachable => reachable.acyclic_of_linkless.acyclic.2).trace
  refine ⟨steps, trace.mono fun s op h => ⟨h.1.1, h.2⟩, fun step member w p link => ?_⟩
  have quiet := (trace.mem member).2.1.1.2
  rw [Op.asksParent_of_links link] at quiet
  contradiction

/-- The lists of a run on acyclic trees are single trees if and only if every operation finds
the workspaces in the order it needs. As long as windows are hung only on windows of the same
workspaces, put in them first, the one thing that is needed is that a workspace whose content is
moved holds at most one tree. -/
theorem workspace_lists_are_trees
    (trace : Trace (fun s op => op.Contract s ∧ s.Acyclic) steps s) :
    ((∀ step ∈ steps, step.OneTrees) ↔ ∀ step ∈ steps, step.op.Orderly step.before.swept) ∧
    ((∀ step ∈ steps, step.op.Tidy step.before) → ((∀ step ∈ steps, step.OneTrees) ↔
      ∀ step ∈ steps, step.op.MovesOneTree step.before.swept)) := by
  have shaped : (∀ step ∈ steps, step.OneTrees) ↔
      ∀ step ∈ steps, step.op.Orderly step.before.swept := by
    apply forall₂_congr
    intro step member
    obtain ⟨reachable, ⟨contract, acyclic⟩, completes⟩ := trace.mem member
    exact completes.oneTrees_iff reachable.grouped acyclic contract
  refine ⟨shaped, fun tidy => shaped.trans (forall₂_congr fun step member => ?_)⟩
  obtain ⟨reachable, -, -⟩ := (trace.restrict tidy).mem member
  exact reachable.arranged.orderly_iff (trace.mem member).1.grouped step.op

theorem workspace_lists_are_trees_dialog : ∃ steps,
    Trace (fun s op => op.Contract s ∧ s.Acyclic) steps dialogState ∧
      ((∀ step ∈ steps, step.OneTrees) ↔
        ∀ step ∈ steps, step.op.MovesOneTree step.before.swept) := by
  obtain ⟨steps, trace, tidy⟩ := reachable_dialogState.tidy_trace
  exact ⟨steps, trace, (workspace_lists_are_trees trace).2 tidy⟩

theorem Reachable.move_unshaped (toWorkspace fromWorkspace : Workspace) (v w : Window)
    (reachable : Reachable (fun s op => op.Contract s ∧ s.Acyclic) s) (acyclic : s.Acyclic)
    (contract : (Op.moveWorkspaceContentToWorkspace toWorkspace fromWorkspace).Contract s)
    (ne : v ≠ w) (member : v ∈ s.swept.windowsIn fromWorkspace)
    (member' : w ∈ s.swept.windowsIn fromWorkspace) (root : s.parentOf v = none)
    (root' : s.parentOf w = none) : ∃ steps t,
      Trace (fun s op => op.Contract s ∧ s.Acyclic) steps t ∧ ∃ step ∈ steps, ¬step.OneTrees := by
  have grouped := reachable.grouped
  obtain ⟨n, ends⟩ := grouped.ends acyclic contract rfl
  obtain ⟨t, ended⟩ := ends n le_rfl
  obtain ⟨steps, trace⟩ := reachable.trace
  refine ⟨_, t, trace.step ⟨contract, acyclic⟩ ⟨n, ended⟩, ⟨_, _, _⟩,
    List.mem_append_right _ (List.mem_singleton_self _), fun one => ne ?_⟩
  obtain ⟨-, single, -⟩ := (Op.Completes.oneTrees_iff ⟨n, ended⟩ grouped acyclic contract).mp one
  exact single v w ⟨member, fun p _ link => nomatch root.symm.trans link⟩
    ⟨member', fun p _ link => nomatch root'.symm.trans link⟩

/-- The content of a workspace with two windows is listed at once when it is moved. -/
theorem workspace_lists_are_trees_fails :
    ¬∀ steps s, Trace (fun s op => op.Contract s ∧ s.Acyclic) steps s →
      ∀ step ∈ steps, step.OneTrees := by
  intro claim
  have acyclic := reachable_pairState.acyclic_of_linkless
  have widened := acyclic.through_acyclic.step ⟨by decide +kernel, acyclic.acyclic.2⟩
    (completes_createWorkspace pairState 8)
  obtain ⟨steps, t, trace, step, member, unshaped⟩ := Reachable.move_unshaped 8 7 ⟨1, 1⟩ ⟨1, 2⟩
    widened acyclic.acyclic.2.widen (by decide +kernel) (by decide) (by decide +kernel)
    (by decide +kernel) (by decide +kernel) (by decide +kernel)
  exact unshaped (claim steps t trace step member)

end Miral
