import Miral.WorkspaceChanges

/-! Somebody who follows the notifications about a workspace from its creation on knows who
is in it. -/
namespace Miral

open Program Prog Roster Model

/-- The states of runs that go on from `s`, each of whose steps is `allowed`. -/
inductive Run (allowed : Model → Op → Prop) (s : Model) : Model → Prop where
  | start : Run allowed s s
  | step {t u : Model} {op : Op} : Run allowed s t → allowed t op → op.Completes t u →
      Run allowed s u

theorem Run.reachable {allowed : Model → Op → Prop} {s t : Model} (run : Run allowed s t)
    (reachable : Reachable allowed s) : Reachable allowed t := by
  induction run with
  | start => exact reachable
  | step _ allow completes ih => exact ih.step allow completes

theorem Run.mono {allowed allowed' : Model → Op → Prop} {s t : Model}
    (weaker : ∀ s op, allowed s op → allowed' s op) (run : Run allowed s t) :
    Run allowed' s t := by
  induction run with
  | start => exact .start
  | step _ allow completes ih => exact ih.step (weaker _ _ allow) completes

variable {s t : Model} {op : Op} {k : Workspace}

theorem Model.Grouped.windowsIn_swept (grouped : s.Grouped) (live : k ∈ s.liveWorkspaces) :
    s.swept.windowsIn k = s.windowsIn k := by
  rw [windowsIn, windowsIn, swept, List.filter_filter]
  congr 1
  apply List.filter_congr
  intro pair _
  by_cases here : pair.1 = k
  · have alive : k ∉ s.deadWorkspaces := fun dead => grouped.integrity.retired k dead live
    simp [here, alive]
  · simp [here]

theorem Op.Completes.keeps (completes : op.Completes s t) (grouped : s.Grouped)
    (acyclic : s.Acyclic) (contract : op.Contract s) (live : k ∈ s.liveWorkspaces)
    (stays : op ≠ .destroyWorkspace k) :
    k ∈ t.liveWorkspaces ∧ ∃ changes, t.reports = s.reports ++ changes ∧
      changes.foldlM (Change.keep k) (s.windowsIn k) = some (t.windowsIn k) := by
  cases locks : op.locks with
  | true =>
    obtain ⟨changes, changed, regroups⟩ := completes.regroups locks grouped acyclic contract
    refine ⟨by rwa [regroups.living], changes, regroups.reports, ?_⟩
    rw [← grouped.windowsIn_swept live, windowsIn_eq, windowsIn_eq, regroups.pairs]
    exact (changed.exact grouped.distinct_swept).keep k
  | false =>
    obtain ⟨pairs, reports, living, -⟩ := completes.ungrouped locks
    refine ⟨(living k live).resolve_right stays, [], by simpa using reports, ?_⟩
    rw [windowsIn_eq, windowsIn_eq, pairs]
    rfl

/-- From the creation of a workspace to its end, whoever starts from nothing, puts in what
`advise_adding_to_workspace` lists and takes out what `advise_removing_from_workspace` lists
has the windows of the workspace after every operation. None of these lists is empty or names
a window twice, and they add only what was out, and remove only what was in. -/
theorem workspace_notifications_exact {created : Model}
    (reachable : Reachable (fun s op => op.Contract s ∧ s.Acyclic) s) (acyclic : s.Acyclic)
    (contract : (Op.createWorkspace k).Contract s)
    (creates : (Op.createWorkspace k).Completes s created)
    (run : Run (fun s op => op.Contract s ∧ s.Acyclic ∧ op ≠ .destroyWorkspace k) created t) :
    ∃ changes, t.reports = s.reports ++ changes ∧
      changes.foldlM (Change.keep k) [] = some (t.windowsIn k) := by
  suffices followed : k ∈ t.liveWorkspaces ∧ ∃ changes, t.reports = s.reports ++ changes ∧
      changes.foldlM (Change.keep k) [] = some (t.windowsIn k) from followed.2
  have begun := reachable.step ⟨contract, acyclic⟩ creates
  induction run with
  | start =>
    obtain ⟨fuel, ended⟩ := creates
    obtain rfl : { s with liveWorkspaces := s.liveWorkspaces ++ [k] } = created := by
      obtain returned | ⟨failure, thrown⟩ := ended
      · exact (Outcome.returned.inj returned).2
      · exact nomatch thrown
    refine ⟨by simp, [], by simp [Model.reports], ?_⟩
    have empty : s.windowsIn k = [] := by
      apply List.eq_nil_iff_forall_not_mem.mpr
      intro w member
      exact contract.2.2 _ (mem_windowsIn.mp member) rfl
    exact congrArg some empty.symm
  | step before allow completes ih =>
    obtain ⟨live, changes, reports, known⟩ := ih
    have grouped := ((before.mono fun _ _ h => ⟨h.1, h.2.1⟩).reachable begun).grouped
    obtain ⟨live', changes', reports', known'⟩ :=
      completes.keeps grouped allow.2.1 allow.1 live allow.2.2
    refine ⟨live', changes ++ changes', by rw [reports', reports, List.append_assoc], ?_⟩
    rw [List.foldlM_append, known]
    exact known'

def Model.widen (s : Model) (k : Workspace) : Model :=
  { s with liveWorkspaces := s.liveWorkspaces ++ [k] }

theorem completes_createWorkspace (s : Model) (k : Workspace) :
    (Op.createWorkspace k).Completes s (s.widen k) := ⟨0, .inl rfl⟩

theorem Model.Acyclic.widen (acyclic : s.Acyclic) : (s.widen k).Acyclic := acyclic

theorem Model.mem_widen : k ∈ (s.widen k).liveWorkspaces :=
  List.mem_append_right _ (List.mem_singleton_self k)

def Model.joinedState : Model :=
  ((Op.addTreeToWorkspace (some ⟨1, 1⟩) 8).run 12 (dialogState.widen 8)).returned?.get
    (by decide +kernel)

theorem workspace_notifications_exact_joined : ∃ changes,
    joinedState.reports = dialogState.reports ++ changes ∧
      changes.foldlM (Change.keep 8) [] = some (joinedState.windowsIn 8) := by
  have acyclic := reachable_dialogState.acyclic_of_linkless
  have returned : ((Op.addTreeToWorkspace (some ⟨1, 1⟩) 8).run 12
      (dialogState.widen 8)).returned? = some joinedState := (Option.some_get _).symm
  obtain ⟨_, ended⟩ := Outcome.returned?_eq_some.mp returned
  exact workspace_notifications_exact acyclic.through_acyclic acyclic.acyclic.2
    (by decide +kernel) (completes_createWorkspace _ 8)
    (.step .start ⟨mem_widen, acyclic.acyclic.2.widen, by simp⟩ ⟨12, .inl ended⟩)

end Miral
