import Miral.WorkspaceFrame
import Miral.Reachability

/-! What each operation does to the relation of workspaces and windows, change by change.
The changes it makes are the changes it reports. -/
namespace Miral

open Program Prog Forest Roster Model

namespace Model

variable {s t u : Model} {changes changes' : List (Change Workspace Window)}

/-- `tree` lists the whole tree of `w`, from its root down. -/
def Lists (s : Model) (w : Window) (tree : List Window) : Prop :=
  ∃ root, s.parentOf root = none ∧ Above s.parentOf root w ∧ Walk s.parentOf root tree

/-- `t` comes from `s` by some changes of the relation, all of which are reported. -/
structure Regroups (changes : List (Change Workspace Window)) (s t : Model) : Prop where
  pairs : t.workspacesToWindows = applyAll s.workspacesToWindows changes
  reports : t.reports = s.reports ++ changes
  living : t.liveWorkspaces = s.liveWorkspaces
  dead : t.deadWorkspaces = s.deadWorkspaces

theorem Regroups.of_same (same : SameGrouping s t) : Regroups [] s t :=
  ⟨same.pairs, by rw [same.reports, List.append_nil], same.living, same.dead⟩

theorem Regroups.trans (h : Regroups changes s t) (h' : Regroups changes' t u) :
    Regroups (changes ++ changes') s u where
  pairs := by rw [h'.pairs, h.pairs, applyAll_append]
  reports := by rw [h'.reports, h.reports, List.append_assoc]
  living := h'.living.trans h.living
  dead := h'.dead.trans h.dead

theorem Regroups.before (same : SameGrouping s t) (h : Regroups changes t u) :
    Regroups changes s u := (of_same same).trans h

theorem Regroups.after (h : Regroups changes s t) (same : SameGrouping t u) :
    Regroups changes s u := by
  simpa using h.trans (of_same same)

theorem regroups_told {change : List Window → Change Workspace Window} {ws : List Window}
    {pairs : List (Workspace × Window)} {event : Event} (reports : event.grouping = some (change ws))
    (applied : pairs = applyAll s.workspacesToWindows (told change ws)) :
    Regroups (told change ws) s (if ws ≠ [] then { s with workspacesToWindows := pairs }.emit event
      else { s with workspacesToWindows := pairs }) := by
  by_cases none : ws = []
  · rw [if_neg (not_not.mpr none)]
    exact ⟨applied, by simp [told, none, Model.reports], rfl, rfl⟩
  · rw [if_pos none]
    exact ⟨applied, by simp [told, none, Model.reports, Model.emit, reports], rfl, rfl⟩

theorem windowsIn_eq (s : Model) (k : Workspace) :
    s.windowsIn k = members s.workspacesToWindows k := rfl

/-- The test for a pair finds what was there before, if no window is listed twice. -/
theorem insertMissing_eq (s : Model) (workspace : Workspace) (nonempty : Bool)
    {windows : List Window} (single : windows.Nodup)
    (tested : nonempty ∨ ∀ w ∈ windows, w ∉ s.windowsIn workspace) :
    s.insertMissing workspace nonempty windows =
      ({ s with workspacesToWindows := s.workspacesToWindows ++
          (windows.filter (· ∉ s.windowsIn workspace)).map (workspace, ·) },
        windows.filter (· ∉ s.windowsIn workspace)) := by
  induction windows generalizing s with
  | nil => simp [insertMissing]
  | cons w rest ih =>
    obtain ⟨fresh, single⟩ := List.nodup_cons.mp single
    rw [insertMissing]
    by_cases known : w ∈ s.windowsIn workspace
    · have flag : nonempty := tested.resolve_right fun absent => absent w (by simp) known
      rw [if_pos ⟨flag, known⟩, ih s single (.inl flag)]
      simp [known]
    · rw [if_neg fun h => known h.2]
      have joined (v : Window) (member : v ∈ rest) : v ∈ ({ s with workspacesToWindows :=
          s.workspacesToWindows ++ [(workspace, w)] } : Model).windowsIn workspace ↔
          v ∈ s.windowsIn workspace := by
        have ne : v ≠ w := fun eq => fresh (eq ▸ member)
        simp [mem_windowsIn, ne]
      have missing : rest.filter (· ∉ ({ s with workspacesToWindows :=
          s.workspacesToWindows ++ [(workspace, w)] } : Model).windowsIn workspace) =
          rest.filter (· ∉ s.windowsIn workspace) :=
        List.filter_congr fun v member => decide_eq_decide.mpr (not_congr (joined v member))
      dsimp only
      rw [ih _ single (tested.imp_right fun absent v member => ?_), missing]
      · simp [known]
      · rw [joined v member]
        exact absent v (by simp [member])

end Model

variable {s t : Model} {w : Window} {fuel : Nat} {workspace : Workspace}

theorem ensures_adviseAdding_eq {windows : List Window} {post : Unit → Model → Prop}
    {error : Failure → Model → Prop} {short : Prop} :
    (adviseAdding workspace windows).Ensures s post error short ↔ post ()
      (if windows ≠ [] then s.emit (.adviseAddingToWorkspace workspace windows) else s) := by
  rw [adviseAdding]
  by_cases none : windows = [] <;> simp [none]

theorem ensures_adviseRemoving_eq {windows : List Window} {post : Unit → Model → Prop}
    {error : Failure → Model → Prop} {short : Prop} :
    (adviseRemoving workspace windows).Ensures s post error short ↔ post ()
      (if windows ≠ [] then s.emit (.adviseRemovingFromWorkspace workspace windows) else s) := by
  rw [adviseRemoving]
  by_cases none : windows = [] <;> simp [none]

theorem ensures_insertIntoWorkspace_told {windows : List Window} (single : windows.Nodup)
    {short : Prop} : (insertIntoWorkspace workspace windows).Ensures s
      (fun _ t => Regroups (told (.join workspace) (windows.filter (· ∉ s.windowsIn workspace))) s t)
      (fun _ _ => False) short := by
  rw [insertIntoWorkspace, ensures_bind, ensures_state, insertMissing_eq s workspace _ single]
  · rw [ensures_bind, ensures_update, ensures_adviseAdding_eq]
    exact regroups_told rfl applyAll_join.symm
  · by_cases none : s.windowsIn workspace = []
    · exact .inr fun w _ => by simp [none]
    · exact .inl (by simpa using none)

theorem ensures_descendants_walk (linked : s.Linked) (managed : s.Managed w)
    (rooted : Rooted s.parentOf w) :
    (descendants fuel w).Ensures s (fun below t => t = s ∧ Walk s.parentOf w (w :: below))
      (fun _ _ => False) True := by
  induction fuel generalizing w with
  | zero => trivial
  | succ fuel ih =>
    obtain ⟨info, here⟩ := managed_iff.mp managed
    rw [descendants, ensures_bind, ensures_infoFor_here here]
    have each (child : Window) (member : child ∈ info.children) :
        Ensures (do
          let below ← descendants fuel child
          pure (child :: below)) s (fun part t => t = s ∧ Walk s.parentOf child part)
          (fun _ _ => False) True := by
      have link := (linked.mem_children here).mp member
      rw [ensures_bind]
      exact ih (linked.managed_child here member) ((rooted_link link).mpr rooted)
    refine (ensures_collect _ info.children (Walk s.parentOf) each).imp ?_
    intro below t after
    rcases after with ⟨rfl, parts, walks, rfl⟩
    exact ⟨rfl, .node rooted (linked.children_nodup here) (fun c => linked.mem_children here) walks⟩

theorem ensures_wholeTree_lists (linked : s.Linked) (managed : s.Managed w)
    (acyclic : s.Acyclic) :
    (wholeTree fuel w).Ensures s (fun tree t => t = s ∧ s.Lists w tree) (fun _ _ => False)
      (s.Short fuel) := by
  have walked : (wholeTree fuel w).Ensures s (fun tree t => t = s ∧ s.Lists w tree)
      (fun _ _ => False) True := by
    rw [wholeTree]
    refine (ensures_bind ..).mpr ((ensures_rootOf linked managed).mono ?_ (fun _ _ h => h)
      fun _ => trivial)
    intro root t after
    rcases after with ⟨rfl, known, top, above⟩
    refine (ensures_bind ..).mpr ((ensures_descendants_walk linked known
      (acyclic.rooted root)).imp ?_)
    intro below u after
    rcases after with ⟨rfl, walk⟩
    exact ⟨rfl, root, top, above, walk⟩
  exact ((ensures_wholeTree linked managed).and walked).mono (fun _ _ h => h.2) (fun _ _ h => h.1)
    And.left

/-- What `add_tree_to_workspace` changes. -/
def Model.AddsTree (s : Model) (window : Option Window) (k : Workspace)
    (changes : List (Change Workspace Window)) : Prop :=
  (s.lock window = none ∧ changes = []) ∨ ∃ w tree, s.lock window = some w ∧ s.Lists w tree ∧
    changes = told (.join k) (tree.filter (· ∉ s.windowsIn k))

theorem ensures_addTree_regroups (linked : s.Linked) (acyclic : s.Acyclic)
    {window : Option Window} :
    (addTreeToWorkspace fuel window workspace).Ensures s
      (fun _ t => ∃ changes, s.AddsTree window workspace changes ∧ Regroups changes s t)
      (fun _ _ => False) (s.Short fuel) := by
  rw [addTreeToWorkspace, ensures_bind, ensures_state]
  apply ensures_onTree linked fun w managed => ensures_wholeTree_lists linked managed acyclic
  · intro w tree locked lists
    obtain ⟨root, -, -, walk⟩ := id lists
    exact (ensures_insertIntoWorkspace_told walk.nodup).mono
      (fun _ u regroups => ⟨_, .inr ⟨w, tree, locked, lists, rfl⟩, regroups⟩) (fun _ _ h => h) id
  · exact fun gone => ⟨[], .inl ⟨gone, rfl⟩, .of_same (refl_of SameGrouping s)⟩

/-- What `remove_tree_from_workspace` changes. -/
def Model.RemovesTree (s : Model) (window : Option Window) (k : Workspace)
    (changes : List (Change Workspace Window)) : Prop :=
  (s.lock window = none ∧ changes = []) ∨ ∃ w tree, s.lock window = some w ∧ s.Lists w tree ∧
    changes = told (.leave k) ((s.windowsIn k).filter (· ∈ tree))

theorem ensures_removeTree_regroups (linked : s.Linked) (acyclic : s.Acyclic)
    {window : Option Window} :
    (removeTreeFromWorkspace fuel window workspace).Ensures s
      (fun _ t => ∃ changes, s.RemovesTree window workspace changes ∧ Regroups changes s t)
      (fun _ _ => False) (s.Short fuel) := by
  rw [removeTreeFromWorkspace, ensures_bind, ensures_state]
  apply ensures_onTree linked fun w managed => ensures_wholeTree_lists linked managed acyclic
  · intro w tree locked lists
    rw [ensures_bind, ensures_state, ensures_bind, ensures_update, ensures_adviseRemoving_eq]
    refine ⟨_, .inr ⟨w, tree, locked, lists, rfl⟩, regroups_told rfl ?_⟩
    rw [applyAll_leave]
    apply List.filter_congr
    intro pair member
    have listed : pair.2 ∈ s.windowsIn pair.1 := mem_windowsIn.mpr member
    by_cases here : pair.1 = workspace
    · subst here
      simp [listed]
    · simp [here]
  · exact fun gone => ⟨[], .inl ⟨gone, rfl⟩, .of_same (refl_of SameGrouping s)⟩

/-- What `move_workspace_content_to_workspace` changes. -/
def Model.movesContent (s : Model) (toWorkspace fromWorkspace : Workspace) :
    List (Change Workspace Window) :=
  told (.leave fromWorkspace) (s.windowsIn fromWorkspace) ++
    told (.join toWorkspace) ((s.windowsIn fromWorkspace).filter fun w =>
      toWorkspace = fromWorkspace ∨ w ∉ s.windowsIn toWorkspace)

theorem ensures_moveContent_regroups (distinct : s.workspacesToWindows.Nodup)
    (toWorkspace fromWorkspace : Workspace) {short : Prop} :
    (moveWorkspaceContentToWorkspace toWorkspace fromWorkspace).Ensures s
      (fun _ t => Regroups (s.movesContent toWorkspace fromWorkspace) s t)
      (fun _ _ => False) short := by
  rw [moveWorkspaceContentToWorkspace, ensures_bind, ensures_state, ensures_bind, ensures_update,
    ensures_bind, ensures_adviseRemoving_eq]
  have emptied : s.workspacesToWindows.filter (·.1 ≠ fromWorkspace) =
      applyAll s.workspacesToWindows (told (.leave fromWorkspace) (s.windowsIn fromWorkspace)) := by
    rw [applyAll_leave]
    apply List.filter_congr
    intro pair member
    have listed : pair.2 ∈ s.windowsIn pair.1 := mem_windowsIn.mpr member
    by_cases here : pair.1 = fromWorkspace
    · subst here
      simp [listed]
    · simp [here]
  have reports : (Event.adviseRemovingFromWorkspace fromWorkspace
      (s.windowsIn fromWorkspace)).grouping = some (.leave fromWorkspace _) := rfl
  have left : Regroups _ s _ := regroups_told reports emptied
  revert left
  generalize (if s.windowsIn fromWorkspace ≠ [] then _ else _ : Model) = u
  intro left
  refine (ensures_insertIntoWorkspace_told (members_nodup distinct _)).imp ?_
  intro _ t joined
  have tested : (s.windowsIn fromWorkspace).filter (· ∉ u.windowsIn toWorkspace) =
      (s.windowsIn fromWorkspace).filter fun w =>
        toWorkspace = fromWorkspace ∨ w ∉ s.windowsIn toWorkspace := by
    refine List.filter_congr fun w member => decide_eq_decide.mpr ?_
    rw [mem_windowsIn, left.pairs, ← emptied, List.mem_filter, mem_windowsIn]
    by_cases same : toWorkspace = fromWorkspace <;> simp [same]
  rw [movesContent, ← tested]
  exact left.trans joined

/-- What adding the tree of `w` to some workspaces changes. -/
def Model.JoinsAll (s t : Model) (w : Window) (ks : List Workspace)
    (changes : List (Change Workspace Window)) : Prop :=
  ∃ parts, List.Forall₂ (fun k part => ∃ tree, t.Lists w tree ∧
    part = told (.join k) (tree.filter (· ∉ s.windowsIn k))) ks parts ∧ changes = parts.flatten

theorem windowsIn_told {k k' : Workspace} {ws : List Window} (ne : k' ≠ k)
    (regroups : Regroups (told (.join k) ws) s t) : t.windowsIn k' = s.windowsIn k' := by
  rw [windowsIn_eq, windowsIn_eq, regroups.pairs, applyAll_join]
  simp [members, List.filter_map, Function.comp_def, Ne.symm ne]

/-- Adding a tree to one workspace after the other. `base` is the state before the first. -/
theorem ensures_joinAll_regroups {base : Model} (linked : s.Linked) (acyclic : s.Acyclic)
    (live : s.Live w) {ks : List Workspace} (single : ks.Nodup)
    (known : ∀ k ∈ ks, s.windowsIn k = base.windowsIn k) (same : s.parentOf = base.parentOf) :
    (forEach (addTreeToWorkspace fuel (some w)) ks).Ensures s
      (fun _ t => t.parentOf = base.parentOf ∧
        ∃ changes, base.JoinsAll base w ks changes ∧ Regroups changes s t)
      (fun _ _ => False) (s.Short fuel) := by
  induction ks generalizing s with
  | nil => exact ⟨same, [], ⟨[], .nil, rfl⟩, .of_same (refl_of SameGrouping s)⟩
  | cons k rest ih =>
    obtain ⟨fresh, single⟩ := List.nodup_cons.mp single
    refine (((ensures_addTree_regroups linked acyclic).and
      (ensures_addTreeToWorkspace linked)).mono (fun _ _ h => h) (fun _ _ h => h.1) And.left).bind ?_
    intro _ t after
    rcases after with ⟨⟨first, adds, regroups⟩, regrouped, -⟩
    have parents := regrouped.parentOf
    obtain ⟨gone, -⟩ | ⟨v, tree, locked, lists, rfl⟩ := adds
    · rw [lock_some live] at gone
      contradiction
    obtain rfl := Option.some.inj ((lock_some live).symm.trans locked)
    have linked' : t.Linked :=
      ⟨fun v => by rw [regrouped.live, regrouped.managed, linked.live],
        fun p c => by rw [regrouped.childrenOf, regrouped.parentOf, linked.children]⟩
    have acyclic' : t.Acyclic := fun v _ => by
      rw [parents]
      exact acyclic.rooted v
    have known' (k' : Workspace) (member : k' ∈ rest) : t.windowsIn k' = base.windowsIn k' := by
      have ne : k' ≠ k := fun eq => fresh (eq ▸ member)
      exact (windowsIn_told ne regroups).trans (known k' (by simp [member]))
    refine (ih linked' acyclic' (regrouped.live.mpr live) single known'
      (parents.trans same)).mono ?_ (fun _ _ h => h) (Short.congr fun v => congrFun parents v)
    intro _ u after
    rcases after with ⟨same', changes, ⟨parts, joins, rfl⟩, regroups'⟩
    refine ⟨same', _, ⟨_, .cons ⟨tree, ?_, by rw [known k (by simp)]⟩ joins, rfl⟩,
      regroups.trans regroups'⟩
    rwa [Model.Lists, ← same]

/-- What the creation of a window changes: it enters below its parent, if it is accepted. -/
structure Model.Enters (s t : Model) (session : Application) (params : SurfaceCreationParameters)
    (surface : Nat) (changes : List (Change Workspace Window)) : Prop where
  joins : s.JoinsAll t ⟨session, surface⟩
    ((t.parentOf ⟨session, surface⟩).elim [] s.workspacesContaining) changes
  others : ∀ v, v ≠ ⟨session, surface⟩ → t.parentOf v = s.parentOf v
  accepted : s.Accepts session params → t.parentOf ⟨session, surface⟩ = s.lock params.parent
  refused : ¬s.Accepts session params → t.parentOf ⟨session, surface⟩ = none

theorem workspacesContaining_nodup (distinct : s.workspacesToWindows.Nodup) :
    (s.workspacesContaining w).Nodup := by
  refine List.Nodup.map_on ?_ (distinct.filter _)
  rintro ⟨k, v⟩ first ⟨k', v'⟩ second (same : k = k')
  have here := (List.mem_filter.mp first).2
  have there := (List.mem_filter.mp second).2
  simp_all

theorem ensures_addSurface_regroups (integrity : s.Integrity) (acyclic : s.Acyclic)
    (distinct : s.workspacesToWindows.Nodup) {session : Application}
    {params : SurfaceCreationParameters} {surface : Nat} (fresh : ¬s.Managed ⟨session, surface⟩)
    (apart : params.parent ≠ some ⟨session, surface⟩) :
    (addSurface fuel session params surface).Ensures s
      (fun _ t => ∃ changes, s.Enters t session params surface changes ∧ Regroups changes s t)
      (fun _ t => ∃ changes, s.Enters t session params surface changes ∧ Regroups changes s t)
      (∀ d, s.DepthBelow d → fuel < 4 * (d + 1)) := by
  refine ensures_addSurface_attached integrity fresh apart (fun _ refused => ?_)
    fun accepts info u attached => ?_
  · have absent : s.parentOf ⟨session, surface⟩ = none := by
      cases link : s.parentOf ⟨session, surface⟩ with
      | none => rfl
      | some p => exact absurd (managed_of_parentOf link) fresh
    refine ⟨[], ⟨⟨[], ?_, rfl⟩, fun _ _ => rfl, fun accepts => absurd accepts refused,
      fun _ => absent⟩, .of_same (refl_of SameGrouping s)⟩
    rw [absent]
    exact .nil
  have same : SameGrouping s u := by
    rw [attached.frame]
    exact ⟨rfl, rfl, rfl, rfl⟩
  have announced (t : Model) (events : List Event)
      (announces : ∀ event ∈ events, event.announces ⟨session, surface⟩) :
      SameGrouping t ((if info.state = .fullscreen then t.insertFullscreen ⟨session, surface⟩
        else t).emits events) := by
    have silent : events.filterMap Event.grouping = [] := by
      apply List.filterMap_eq_nil_iff.mpr
      intro event member
      rcases announces event member with rfl | ⟨placement, rfl⟩ <;> rfl
    split <;> exact ⟨rfl, rfl, rfl, by simp [Model.reports, emits, insertFullscreen, silent]⟩
  have own : u.parentOf ⟨session, surface⟩ = s.lock params.parent := by
    rw [attached.parentOf, if_pos rfl]
  have parents (t : Model) (events : List Event) :
      ((if info.state = .fullscreen then t.insertFullscreen ⟨session, surface⟩
        else t).emits events).parentOf = t.parentOf := by
    split <;> rfl
  have others (v : Window) (ne : v ≠ ⟨session, surface⟩) : u.parentOf v = s.parentOf v := by
    rw [attached.parentOf, if_neg ne]
  rw [ensures_whenSome]
  constructor
  · intro p target
    obtain ⟨d, bound⟩ := acyclic.exists_depth
    have acyclic' := (attached.depthBelow integrity.toLinked bound).acyclic
    have live : u.Live ⟨session, surface⟩ := attached.live.mpr (.inl rfl)
    have single : (u.workspacesContaining p).Nodup := by
      rw [attached.containing]
      exact workspacesContaining_nodup distinct
    refine (ensures_joinAll_regroups (attached.linked integrity.toLinked) acyclic' live single
      (fun _ _ => rfl) rfl).mono ?_ (fun _ _ h => h.elim) ?_
    · rintro _ t ⟨same', changes, ⟨parts, joins, rfl⟩, regroups⟩ events announces
      refine ⟨_, ⟨⟨parts, ?_, rfl⟩, fun v ne => by rw [parents, same', others v ne],
        fun _ => by rw [parents, same', own], fun refused => absurd accepts refused⟩,
        (regroups.before same).after (announced t events announces)⟩
      rw [parents, same', own, target, Option.elim_some, ← attached.containing]
      apply joins.imp
      intro k part after
      rcases after with ⟨tree, lists, told⟩
      refine ⟨tree, by rwa [Model.Lists, parents, same'], ?_⟩
      rw [told, windowsIn_eq, windowsIn_eq, same.pairs]
    · exact fun short d bound => short _ (attached.depthBelow integrity.toLinked bound)
  · intro none events announces
    refine ⟨[], ⟨⟨[], ?_, rfl⟩, fun v ne => by rw [parents, others v ne],
      fun _ => by rw [parents, own], fun refused => absurd accepts refused⟩,
      (Regroups.of_same same).after (announced u events announces)⟩
    rw [parents, own, none]
    exact .nil

/-- What the end of the window `w` changes. -/
def Model.departs (s : Model) (w : Window) : List (Change Workspace Window) :=
  (s.workspacesContaining w).map (.leave · [w])

/-- Only live workspaces have windows, once the dead ones have been swept out. -/
def Model.Housed (s : Model) : Prop := ∀ pair ∈ s.workspacesToWindows, pair.1 ∈ s.liveWorkspaces

theorem regroups_leaves (housed : s.Housed) (w : Window) :
    Regroups (s.departs w) s ((s.emits ((s.workspacesContaining w).map
      (.adviseRemovingFromWorkspace · [w]))).eraseFromWorkspaces w) where
  pairs := by
    rw [departs, applyAll_leaves]
    refine List.filter_congr fun pair member => decide_eq_decide.mpr ?_
    have known : pair.2 = w → pair.1 ∈ s.workspacesContaining w := by
      rintro rfl
      exact mem_workspacesContaining.mpr ⟨member, housed pair member⟩
    exact not_congr ⟨fun own => ⟨known own, own⟩, And.right⟩
  reports := by
    simp only [Model.reports, eraseFromWorkspaces, emits, List.filterMap_append, departs]
    congr 1
    rw [List.filterMap_map, ← List.filterMap_eq_map]
    rfl
  living := rfl
  dead := rfl

theorem keeps_eraseRecord : (eraseRecord w).Keeps SameGrouping :=
  .bind keeps_infoFor fun _ => .bind .state fun _ => .bind (.whenSome fun _ => keeps_modifyInfo)
    fun _ => .bind keeps_infoFor fun _ => .bind (.forEach (fun _ => keeps_modifyInfo) _)
      fun _ => .update fun _ => ⟨rfl, rfl, rfl, rfl⟩

theorem ensures_emitAll {α : Type} (event : α → Event) (xs : List α) {post : Unit → Model → Prop}
    {error : Failure → Model → Prop} {short : Prop} :
    (forEach (fun a => emit (event a)) xs).Ensures s post error short ↔
      post () (s.emits (xs.map event)) := by
  induction xs generalizing s with
  | nil => simp [forEach, emits]
  | cons a rest ih =>
    rw [forEach, ensures_bind, ensures_emit, ih]
    simp [emits, Model.emit]

theorem ensures_removeWindow_regroups (integrity : s.Integrity) (housed : s.Housed) (w : Window) :
    (removeWindow fuel w.application w).Ensures s (fun _ t => Regroups (s.departs w) s t)
      (fun _ t => Regroups (s.departs w) s t) True := by
  rw [removeWindow, ensures_bind, ensures_infoFor]
  constructor
  · intro info here
    rw [ensures_bind, ensures_state, dropWindow]
    simp only [ensures_bind, ensures_state, ensures_emitAll, ensures_update, ensures_emit]
    have kept : Prog.Keeps SameGrouping (do
        modifySession w.application fun app => { app with windows := app.windows.erase w }
        Prog.update (·.eraseMru w)
        Prog.update (·.eraseFullscreen w)
        Prog.update (·.destroySurface w)
        eraseRecord w
        Prog.onlyIf (s.activeWindow = some w)
          (refocus fuel w.application info.parent (s.workspacesContaining w))) :=
      .bind keeps_modifySession fun _ => .bind (.update fun _ => ⟨rfl, rfl, rfl, rfl⟩) fun _ =>
        .bind (.update fun _ => ⟨rfl, rfl, rfl, rfl⟩) fun _ =>
          .bind (.update fun _ => ⟨rfl, rfl, rfl, rfl⟩) fun _ => .bind keeps_eraseRecord fun _ =>
            .onlyIf (keeps_refocus _ _ _)
    have silent : (Event.adviseDeleteWindow w).grouping = none := rfl
    have after (t : Model) (same : SameGrouping _ t) : Regroups (s.departs w) s t :=
      ((regroups_leaves housed w).after (sameGrouping_emit silent)).after same
    have rest := (kept _).mono (fun _ => after) (fun _ => after) id
    simpa only [ensures_bind, ensures_update] using rest
  · intro gone
    have none : s.departs w = [] := by
      rw [departs, List.map_eq_nil_iff, List.eq_nil_iff_forall_not_mem]
      intro k member
      have managed := integrity.workspaces _ (mem_workspacesContaining.mp member).1
      simp [Managed, gone] at managed
    rw [none]
    exact .of_same (refl_of SameGrouping s)

def Op.locks : Op → Bool
  | postBuffer _ | createWorkspace _ | destroyWorkspace _ => false
  | _ => true

/-- The changes an operation makes that starts its work in `s` and ends in `t`. -/
def Op.Changes (s t : Model) : Op → List (Change Workspace Window) → Prop
  | addSurface session params surface => s.Enters t session params surface
  | removeSurface _ w => fun changes => changes = s.departs w
  | forceClose window => fun changes => changes = (s.lock window).elim [] s.departs
  | addTreeToWorkspace window k => fun changes =>
    s.AddsTree window k changes ∧ t.parentOf = s.parentOf
  | removeTreeFromWorkspace window k => fun changes =>
    s.RemovesTree window k changes ∧ t.parentOf = s.parentOf
  | moveWorkspaceContentToWorkspace toWorkspace fromWorkspace => fun changes =>
    changes = s.movesContent toWorkspace fromWorkspace ∧ t.parentOf = s.parentOf
  | _ => fun changes => changes = []

/-- What holds of the relation in every reachable state. -/
structure Model.Grouped (s : Model) : Prop where
  integrity : s.Integrity
  distinct : s.workspacesToWindows.Nodup
  housed : ∀ pair ∈ s.workspacesToWindows, pair.1 ∈ s.liveWorkspaces ∨ pair.1 ∈ s.deadWorkspaces

namespace Model.Grouped

variable (grouped : s.Grouped)

include grouped

theorem distinct_swept : s.swept.workspacesToWindows.Nodup := grouped.distinct.filter _

theorem housed_swept : s.swept.Housed := by
  intro pair member
  obtain ⟨member, alive⟩ := List.mem_filter.mp member
  exact (grouped.housed pair member).resolve_right (of_decide_eq_true alive)

end Model.Grouped

/-- Every operation under the lock makes its changes of the relation, and reports them. -/
theorem regroups_run (fuel : Nat) (op : Op) (locks : op.locks) (grouped : s.Grouped)
    (acyclic : s.Acyclic) (contract : op.Contract s) :
    (op.run fuel).Ensures s
      (fun _ t => ∃ changes, op.Changes s.swept t changes ∧ Regroups changes s.swept t)
      (fun _ t => ∃ changes, op.Changes s.swept t changes ∧ Regroups changes s.swept t) True := by
  have integrity := grouped.integrity.swept
  have silent {body : Manager Unit} (kept : body.Keeps SameGrouping) :
      (Op.locked body).Ensures s (fun _ t => ∃ changes, changes = [] ∧ Regroups changes s.swept t)
        (fun _ t => ∃ changes, changes = [] ∧ Regroups changes s.swept t) True := by
    rw [ensures_locked]
    exact (kept s.swept).mono (fun _ t same => ⟨[], rfl, .of_same same⟩)
      (fun _ t same => ⟨[], rfl, .of_same same⟩) id
  have departing (w : Window) : (removeWindow fuel w.application w).Ensures s.swept
      (fun _ t => Regroups (s.swept.departs w) s.swept t)
      (fun _ t => Regroups (s.swept.departs w) s.swept t) True :=
    ensures_removeWindow_regroups integrity grouped.housed_swept w
  cases op with
  | addSession session =>
    exact silent (.bind (.update fun _ => ⟨rfl, rfl, rfl, rfl⟩) fun _ => keeps_emit rfl)
  | addSurface session params surface =>
    exact ensures_locked.mpr (ensures_addSurface_regroups integrity acyclic
      grouped.distinct_swept contract.1 contract.2.2).unbounded
  | modifySurface w modifications => exact silent (keeps_handleRequest w _)
  | setSurfaceAttribute w attrib => exact silent (keeps_handleRequest w _)
  | removeSurface session w =>
    obtain rfl : session = w.application := contract
    exact ensures_locked.mpr ((departing w).mono (fun _ t h => ⟨_, rfl, h⟩)
      (fun _ t h => ⟨_, rfl, h⟩) id)
  | forceClose window =>
    rw [Op.run, ensures_locked, forceClose, ensures_bind, ensures_state, ensures_whenSome]
    constructor
    · intro w locked
      simp only [Op.Changes, locked, Option.elim_some, exists_eq_left]
      exact departing w
    · intro gone
      exact ⟨[], by simp [Op.Changes, gone], .of_same (refl_of SameGrouping _)⟩
  | modifyWindow w modifications => exact silent (keeps_modifyWindow w modifications)
  | selectActiveWindow hint =>
    exact silent (.bind (keeps_selectActiveWindow fuel hint) fun _ => .pure ())
  | handleWindowReady w =>
    exact silent (.bind keeps_infoFor fun _ =>
      .onlyIf (.bind (keeps_selectActiveWindow fuel _) fun _ => .pure ()))
  | handleRaiseSurface w timestamp =>
    exact silent (.bind .state fun _ => .onlyIf (.bind keeps_infoFor fun _ =>
      .bind (keeps_selectActiveWindow fuel _) fun _ => .pure ()))
  | inputEvent timestamp cursor => exact silent (.update fun _ => ⟨rfl, rfl, rfl, rfl⟩)
  | focusNextApplication => exact silent keeps_focusNextApplication
  | focusNextWithinApplication => exact silent (keeps_focusSibling id)
  | focusPrevWithinApplication => exact silent (keeps_focusSibling List.reverse)
  | raiseTree w => exact silent (keeps_raiseTree fuel w)
  | dragWindow window movement => exact silent (keeps_dragWindow window movement)
  | addDisplay area layout order =>
    exact silent (.bind (.update fun _ => ⟨rfl, rfl, rfl, rfl⟩) fun _ =>
      .bind (.update fun _ => ⟨rfl, rfl, rfl, rfl⟩) fun _ => keeps_placeFullscreen order)
  | removeDisplay area layout order =>
    exact silent (.bind (.update fun _ => ⟨rfl, rfl, rfl, rfl⟩) fun _ =>
      .bind (.update fun _ => ⟨rfl, rfl, rfl, rfl⟩) fun _ => keeps_placeFullscreen order)
  | addTreeToWorkspace window k =>
    refine ensures_locked.mpr (((ensures_addTree_regroups integrity.toLinked acyclic).and
      (ensures_addTreeToWorkspace integrity.toLinked)).mono ?_ (fun _ _ h => h.1.elim)
        fun _ => trivial)
    intro _ t after
    rcases after with ⟨⟨changes, adds, regroups⟩, regrouped, -⟩
    exact ⟨changes, ⟨adds, regrouped.parentOf⟩, regroups⟩
  | removeTreeFromWorkspace window k =>
    refine ensures_locked.mpr (((ensures_removeTree_regroups integrity.toLinked acyclic).and
      (ensures_removeTreeFromWorkspace integrity.toLinked)).mono ?_ (fun _ _ h => h.1.elim)
        fun _ => trivial)
    intro _ t after
    rcases after with ⟨⟨changes, removes, regroups⟩, regrouped, -⟩
    exact ⟨changes, ⟨removes, regrouped.parentOf⟩, regroups⟩
  | moveWorkspaceContentToWorkspace toWorkspace fromWorkspace =>
    have kept : (moveWorkspaceContentToWorkspace toWorkspace fromWorkspace).Ensures s.swept _ _
        True := ensures_moveWorkspaceContent toWorkspace fromWorkspace
    exact ensures_locked.mpr (((ensures_moveContent_regroups grouped.distinct_swept toWorkspace
      fromWorkspace).and kept).mono (fun _ t h => ⟨_, ⟨rfl, h.2.1.parentOf⟩, h.1⟩)
        (fun _ _ h => h.1.elim) And.left)
  | postBuffer | createWorkspace | destroyWorkspace => simp [Op.locks] at locks

section Exact

variable {changes : List (Change Workspace Window)}

theorem Model.Lists.nodup {tree : List Window} (lists : s.Lists w tree) : tree.Nodup := by
  obtain ⟨root, -, -, walk⟩ := lists
  exact walk.nodup

theorem exactAll_missing {pairs : List (Workspace × Window)} {k : Workspace} {tree : List Window}
    (single : tree.Nodup) (same : ∀ v, (k, v) ∈ pairs ↔ v ∈ s.windowsIn k) :
    ExactAll pairs (told (.join k) (tree.filter (· ∉ s.windowsIn k))) := by
  apply exactAll_join (single.filter _)
  intro v member
  rw [same]
  simpa using (List.mem_filter.mp member).2

theorem Model.JoinsAll.exact {ks : List Workspace} (joins : s.JoinsAll t w ks changes)
    (single : ks.Nodup) : ExactAll s.workspacesToWindows changes := by
  obtain ⟨parts, joins, rfl⟩ := joins
  suffices general : ∀ pairs : List (Workspace × Window),
      (∀ k ∈ ks, ∀ v, (k, v) ∈ pairs ↔ v ∈ s.windowsIn k) → ExactAll pairs parts.flatten from
    general _ fun k _ v => mem_windowsIn.symm
  induction joins with
  | nil => exact fun _ _ => trivial
  | @cons k part rest parts here _ ih =>
    obtain ⟨tree, lists, rfl⟩ := here
    obtain ⟨fresh, single⟩ := List.nodup_cons.mp single
    intro pairs same
    rw [List.flatten_cons, exactAll_append, applyAll_join]
    refine ⟨exactAll_missing lists.nodup (same k (by simp)), ih single _ fun k' member v => ?_⟩
    have ne : k' ≠ k := fun eq => fresh (eq ▸ member)
    rw [List.mem_append, same k' (by simp [member]), or_iff_left]
    simp [Ne.symm ne]

theorem Model.exactAll_departs (distinct : s.workspacesToWindows.Nodup) (w : Window) :
    ExactAll s.workspacesToWindows (s.departs w) :=
  exactAll_leaves (workspacesContaining_nodup distinct)
    fun _ member => (mem_workspacesContaining.mp member).1

theorem Model.exactAll_movesContent (distinct : s.workspacesToWindows.Nodup)
    (toWorkspace fromWorkspace : Workspace) :
    ExactAll s.workspacesToWindows (s.movesContent toWorkspace fromWorkspace) := by
  have single : (s.windowsIn fromWorkspace).Nodup := members_nodup distinct fromWorkspace
  refine exactAll_append.mpr ⟨exactAll_leave single fun v member => mem_windowsIn.mp member,
    exactAll_join (single.filter _) fun v member => ?_⟩
  obtain ⟨listed, missing⟩ := List.mem_filter.mp member
  rw [applyAll_leave, List.mem_filter, ← mem_windowsIn]
  rintro ⟨present, other⟩
  have same := (of_decide_eq_true missing).resolve_right (not_not.mpr present)
  exact of_decide_eq_true other ⟨same, listed⟩

/-- The changes of an operation are exact. -/
theorem Op.Changes.exact {op : Op} (changed : op.Changes s t changes)
    (distinct : s.workspacesToWindows.Nodup) : ExactAll s.workspacesToWindows changes := by
  cases op with
  | addSurface session params surface =>
    apply JoinsAll.exact changed.joins
    cases t.parentOf ⟨session, surface⟩ with
    | none => exact List.nodup_nil
    | some p => exact workspacesContaining_nodup distinct
  | removeSurface session w =>
    obtain rfl := changed
    exact exactAll_departs distinct w
  | forceClose window =>
    obtain rfl := changed
    cases s.lock window with
    | none => trivial
    | some w => exact exactAll_departs distinct w
  | addTreeToWorkspace window k =>
    obtain ⟨⟨-, rfl⟩ | ⟨w, tree, -, lists, rfl⟩, -⟩ := changed
    · trivial
    · exact exactAll_missing lists.nodup fun v => mem_windowsIn.symm
  | removeTreeFromWorkspace window k =>
    obtain ⟨⟨-, rfl⟩ | ⟨w, tree, -, lists, rfl⟩, -⟩ := changed
    · trivial
    · apply exactAll_leave ((members_nodup distinct k).filter _)
      intro v member
      exact mem_windowsIn.mp (List.mem_filter.mp member).1
  | moveWorkspaceContentToWorkspace toWorkspace fromWorkspace =>
    obtain ⟨rfl, -⟩ := changed
    exact exactAll_movesContent distinct toWorkspace fromWorkspace
  | _ =>
    obtain rfl : changes = [] := changed
    trivial

theorem Model.JoinsAll.joined {ks : List Workspace} (joins : s.JoinsAll t w ks changes)
    {k : Workspace} {ws : List Window} (member : .join k ws ∈ changes) : k ∈ ks := by
  obtain ⟨parts, joins, rfl⟩ := joins
  obtain ⟨part, listed, member⟩ := List.mem_flatten.mp member
  obtain ⟨k', known, tree, -, rfl⟩ := exists_mate joins listed
  obtain ⟨rfl, -⟩ := Change.join.inj (mem_told member)
  exact known

/-- The only workspaces an operation adds windows to are live ones. -/
theorem Op.Changes.joined {base : Model} {op : Op} (changed : op.Changes s t changes)
    (contract : op.Contract base) (living : s.liveWorkspaces = base.liveWorkspaces)
    {k : Workspace} {ws : List Window} (member : .join k ws ∈ changes) : k ∈ s.liveWorkspaces := by
  have none (w : Window) : .join k ws ∉ s.departs w := by simp [departs]
  cases op with
  | addSurface session params surface =>
    have listed := JoinsAll.joined changed.joins member
    cases link : t.parentOf ⟨session, surface⟩ with
    | none => simp [link] at listed
    | some p =>
      rw [link] at listed
      exact (mem_workspacesContaining.mp listed).2
  | removeSurface session w =>
    obtain rfl := changed
    exact absurd member (none w)
  | forceClose window =>
    obtain rfl := changed
    cases locked : s.lock window with
    | none => simp [locked] at member
    | some w =>
      rw [locked] at member
      exact absurd member (none w)
  | addTreeToWorkspace window k' =>
    obtain ⟨⟨-, rfl⟩ | ⟨w, tree, -, lists, rfl⟩, -⟩ := changed
    · simp at member
    · obtain ⟨rfl, -⟩ := Change.join.inj (mem_told member)
      exact living ▸ contract
  | removeTreeFromWorkspace window k' =>
    obtain ⟨⟨-, rfl⟩ | ⟨w, tree, -, lists, rfl⟩, -⟩ := changed
    · simp at member
    · exact nomatch mem_told member
  | moveWorkspaceContentToWorkspace toWorkspace fromWorkspace =>
    obtain ⟨rfl, -⟩ := changed
    rcases List.mem_append.mp member with left | joined
    · exact nomatch mem_told left
    · obtain ⟨rfl, -⟩ := Change.join.inj (mem_told joined)
      exact living ▸ contract.1
  | _ =>
    obtain rfl : changes = [] := changed
    simp at member

end Exact

theorem ungrouped_run (fuel : Nat) (op : Op) (unlocked : op.locks = false) :
    (op.run fuel).Ensures s (fun _ t => t.workspacesToWindows = s.workspacesToWindows ∧
        t.reports = s.reports ∧
        (∀ k ∈ s.liveWorkspaces, k ∈ t.liveWorkspaces ∨ op = .destroyWorkspace k) ∧
        ∀ k, k ∈ t.deadWorkspaces ↔ k ∈ s.deadWorkspaces ∨ op = .destroyWorkspace k)
      (fun _ _ => False) True := by
  cases op with
  | postBuffer w =>
    have same : SameGrouping s (s.configure w ({ · with posted := true })) :=
      sameGrouping_configure _
    refine ensures_configure.mpr ⟨same.pairs, same.reports, fun k live => .inl ?_, fun k => ?_⟩
    · rwa [same.living]
    · simp [same.dead]
  | createWorkspace k =>
    refine (ensures_update _).mpr ⟨rfl, rfl, fun k' live => .inl ?_, fun k' => by simp⟩
    exact List.mem_append_left _ live
  | destroyWorkspace k =>
    refine (ensures_update _).mpr ⟨rfl, rfl, fun k' live => ?_, fun k' => ?_⟩
    · by_cases eq : k' = k
      · exact .inr (by rw [eq])
      · exact .inl (List.mem_filter.mpr ⟨live, by simpa using eq⟩)
    · simp [eq_comm]
  | _ => simp [Op.locks] at unlocked

theorem Op.Completes.regroups {op : Op} (completes : op.Completes s t) (locks : op.locks)
    (grouped : s.Grouped) (acyclic : s.Acyclic) (contract : op.Contract s) :
    ∃ changes, op.Changes s.swept t changes ∧ Regroups changes s.swept t :=
  completes.ensured fun fuel => regroups_run fuel op locks grouped acyclic contract

theorem Op.Completes.ungrouped {op : Op} (completes : op.Completes s t)
    (unlocked : op.locks = false) : t.workspacesToWindows = s.workspacesToWindows ∧
      t.reports = s.reports ∧
      (∀ k ∈ s.liveWorkspaces, k ∈ t.liveWorkspaces ∨ op = .destroyWorkspace k) ∧
      ∀ k, k ∈ t.deadWorkspaces ↔ k ∈ s.deadWorkspaces ∨ op = .destroyWorkspace k :=
  completes.ensured fun fuel =>
    (ungrouped_run fuel op unlocked).mono (fun _ _ h => h) (fun _ _ h => h.elim) id

/-- What holds of the relation is kept. -/
theorem Model.Grouped.run (fuel : Nat) (op : Op) (grouped : s.Grouped) (acyclic : s.Acyclic)
    (contract : op.Contract s) :
    (op.run fuel).Ensures s (fun _ t => t.Grouped) (fun _ t => t.Grouped) True := by
  have kept := (follows_run fuel op grouped.integrity contract).mono
    (fun _ _ h => h.1) (fun _ _ h => h.1) id
  cases locks : op.locks with
  | true =>
    have locked (t : Model) (h : t.Integrity ∧ ∃ changes,
        op.Changes s.swept t changes ∧ Regroups changes s.swept t) : t.Grouped := by
      obtain ⟨integrity, changes, changed, regroups⟩ := h
      refine ⟨integrity, ?_, fun pair member => .inl ?_⟩
      · rw [regroups.pairs]
        exact (changed.exact grouped.distinct_swept).nodup grouped.distinct_swept
      · rw [regroups.pairs] at member
        rw [regroups.living]
        rcases mem_applyAll member with old | ⟨ws, joined⟩
        · exact grouped.housed_swept pair old
        · exact changed.joined contract rfl joined
    exact (kept.and (regroups_run fuel op locks grouped acyclic contract)).mono
      (fun _ t => locked t) (fun _ t => locked t) fun _ => trivial
  | false =>
    refine (kept.and (ungrouped_run fuel op locks)).mono ?_ (fun _ _ h => h.2.elim) fun _ => trivial
    intro _ t after
    rcases after with ⟨integrity, pairs, -, living, dead⟩
    refine ⟨integrity, pairs ▸ grouped.distinct, fun pair member => ?_⟩
    rw [pairs] at member
    rw [dead]
    rcases grouped.housed pair member with live | gone
    · exact (living _ live).imp_right .inr
    · exact .inr (.inl gone)

theorem Reachable.through_acyclic
    (reachable : Reachable (fun s op => op.Contract s ∧ ¬op.ClosesLoop s) s) :
    Reachable (fun s op => op.Contract s ∧ s.Acyclic) s :=
  (reachable.through Model.Acyclic fun _ before => before.acyclic.2).mono
    fun _ _ allow => ⟨allow.1.1, allow.2⟩

theorem Reachable.grouped (reachable : Reachable (fun s op => op.Contract s ∧ s.Acyclic) s) :
    s.Grouped := by
  apply reachable.invariant Model.Grouped
  · exact fun _ _ => ⟨.initial _ _, List.nodup_nil, fun pair member => nomatch member⟩
  · exact fun s op fuel grouped allow => grouped.run fuel op allow.2 allow.1

end Miral
