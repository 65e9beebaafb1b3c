import Miral.Selection

/-! The workspace operations change the relation of workspaces and windows and nothing
else. Those that work on a tree find its root and list everything below it. -/
namespace Miral

open Program Prog Forest

namespace Model

variable {s t u : Model} {w v : Window} {workspace : Workspace}

/-- `t` differs from `s` in the relation of workspaces and windows, and in quiet reports. -/
structure Regrouped (s t : Model) : Prop where
  frame : t = { s with workspacesToWindows := t.workspacesToWindows, log := t.log }
  quiet : ∃ events, (∀ event ∈ events, event.quiet) ∧ t.log = s.log ++ events

namespace Regrouped

theorem refl : Regrouped s s := ⟨rfl, [], by simp, by simp⟩

theorem relation (pairs : List (Workspace × Window)) :
    Regrouped s { s with workspacesToWindows := pairs } := ⟨rfl, [], by simp, by simp⟩

theorem emit {event : Event} (quiet : event.quiet) : Regrouped s (s.emit event) :=
  ⟨rfl, [event], by simpa using quiet, rfl⟩

theorem trans (h : Regrouped s t) (h' : Regrouped t u) : Regrouped s u where
  frame := by rw [h'.frame, h.frame]
  quiet := quiet_trans h.quiet h'.quiet

variable (h : Regrouped s t)

include h

theorem info? : t.info? w = s.info? w := by rw [h.frame]; rfl

theorem surface? : t.surface? w = s.surface? w := by rw [h.frame]; rfl

theorem parentOf : t.parentOf = s.parentOf := by rw [h.frame]; rfl

theorem childrenOf : t.childrenOf = s.childrenOf := by rw [h.frame]; rfl

theorem typeOf : t.typeOf = s.typeOf := by rw [h.frame]; rfl

theorem managed : t.Managed w ↔ s.Managed w := by rw [h.frame]; rfl

theorem live : t.Live w ↔ s.Live w := by rw [h.frame]; rfl

theorem living : t.liveWorkspaces = s.liveWorkspaces := by rw [h.frame]

theorem mru : t.mruActiveWindows = s.mruActiveWindows := by rw [h.frame]

theorem integrity (integrity : s.Integrity)
    (managed : ∀ pair ∈ t.workspacesToWindows, s.Managed pair.2) : t.Integrity where
  live w := by rw [h.live, h.managed, integrity.live]
  children p c := by rw [h.childrenOf, h.parentOf, integrity.children]
  windows a w := by
    rw [show t.windowsOf a = s.windowsOf a by rw [h.frame]; rfl]
    simp only [h.managed, integrity.windows]
  mru w member := h.managed.mpr (integrity.mru w (h.mru ▸ member))
  fullscreen w := by
    rw [show t.stateOf w = s.stateOf w by rw [h.frame]; rfl, ← integrity.fullscreen, h.frame]
  workspaces pair member := h.managed.mpr (managed pair member)
  retired := by
    rw [h.frame]
    exact integrity.retired

end Regrouped

/-- The pairs of `t` are those of `s` and all of `windows` in `workspace`. -/
def Joined (s t : Model) (workspace : Workspace) (windows : List Window) : Prop :=
  ∀ k v, (k, v) ∈ t.workspacesToWindows ↔
    (k, v) ∈ s.workspacesToWindows ∨ k = workspace ∧ v ∈ windows

theorem insertMissing_spec (s : Model) (workspace : Workspace) (nonempty : Bool)
    (windows : List Window) :
    Regrouped s (s.insertMissing workspace nonempty windows).1 ∧
      Joined s (s.insertMissing workspace nonempty windows).1 workspace windows := by
  induction windows generalizing s with
  | nil => exact ⟨.refl, fun k v => by simp [insertMissing]⟩
  | cons w rest ih =>
    rw [insertMissing]
    by_cases known : nonempty ∧ w ∈ s.windowsIn workspace
    · rw [if_pos known]
      obtain ⟨regrouped, joined⟩ := ih s
      refine ⟨regrouped, fun k v => ?_⟩
      rw [joined, List.mem_cons]
      have present := mem_windowsIn.mp known.2
      constructor
      · intro either
        rcases either with old | ⟨eq, member⟩
        · exact .inl old
        · exact .inr ⟨eq, .inr member⟩
      · intro either
        rcases either with old | ⟨rfl, rfl | member⟩
        · exact .inl old
        · exact .inl present
        · exact .inr ⟨rfl, member⟩
    · rw [if_neg known]
      obtain ⟨regrouped, joined⟩ :=
        ih { s with workspacesToWindows := s.workspacesToWindows ++ [(workspace, w)] }
      refine ⟨(Regrouped.relation _).trans regrouped, fun k v => ?_⟩
      rw [joined, List.mem_cons, List.mem_append, List.mem_singleton, Prod.mk.injEq, or_assoc,
        and_or_left]

end Model

open Model

variable {s : Model} {w : Window} {fuel : Nat} {workspace : Workspace}

theorem ensures_adviseAdding {windows : List Window} {post : Unit → Model → Prop}
    {error : Failure → Model → Prop} {short : Prop}
    (done : ∀ t, Regrouped s t → t.workspacesToWindows = s.workspacesToWindows → post () t) :
    (adviseAdding workspace windows).Ensures s post error short := by
  rw [adviseAdding, ensures_onlyIf]
  exact ⟨fun _ => done _ (.emit rfl) rfl, fun _ => done s .refl rfl⟩

theorem ensures_adviseRemoving {windows : List Window} {post : Unit → Model → Prop}
    {error : Failure → Model → Prop} {short : Prop}
    (done : ∀ t, Regrouped s t → t.workspacesToWindows = s.workspacesToWindows → post () t) :
    (adviseRemoving workspace windows).Ensures s post error short := by
  rw [adviseRemoving, ensures_onlyIf]
  exact ⟨fun _ => done _ (.emit rfl) rfl, fun _ => done s .refl rfl⟩

theorem ensures_insertIntoWorkspace {windows : List Window} {short : Prop} :
    (insertIntoWorkspace workspace windows).Ensures s
      (fun _ t => Regrouped s t ∧ Joined s t workspace windows) (fun _ _ => False) short := by
  rw [insertIntoWorkspace, ensures_bind, ensures_state]
  obtain ⟨regrouped, joined⟩ :=
    insertMissing_spec s workspace (s.windowsIn workspace ≠ []) windows
  rw [ensures_bind, ensures_update]
  refine ensures_adviseAdding fun t advised same => ⟨regrouped.trans advised, fun k v => ?_⟩
  rw [same, joined]

/-- The search for the root ends at a parentless window above the first one. -/
theorem ensures_rootOf (linked : s.Linked) (managed : s.Managed w) :
    (rootOf fuel w).Ensures s
      (fun root t => t = s ∧ s.Managed root ∧ s.parentOf root = none ∧ Above s.parentOf root w)
      (fun _ _ => False)
      (∀ d k, s.DepthBelow d → climb s.parentOf k w = none → fuel < k + d) := by
  induction fuel generalizing w with
  | zero =>
    intro d k bound _
    have := bound.pos
    omega
  | succ fuel ih =>
    rw [rootOf, ensures_bind, ensures_infoFor]
    refine ⟨fun info here => ?_, fun gone => by simp [Managed, gone] at managed⟩
    rw [ensures_bind, ensures_state, linked.lock_parent here]
    cases link : info.parent with
    | none => exact ⟨rfl, managed, (parentOf_eq here).trans link, .refl⟩
    | some p =>
      have up := (parentOf_eq here).trans link
      refine (ih (linked.managed_parent up)).mono ?_ (fun _ _ h => h) ?_
      · intro root t after
        rcases after with ⟨same, known, top, above⟩
        exact ⟨same, known, top, .link up above⟩
      · intro short d k bound ended
        cases k with
        | zero => simp at ended
        | succ k =>
          have := short d k bound (climb_parent_none ended up)
          omega

/-- The tree of a window, if there is one, as the workspace operations see it: a root and
everything below it. -/
structure Model.IsTree (s : Model) (window : Option Window) (windows : List Window) : Prop where
  listed : ∀ w, s.lock window = some w → w ∈ windows
  managed : ∀ v ∈ windows, s.Managed v
  closed : ∀ v p, s.parentOf v = some p → (v ∈ windows ↔ p ∈ windows)
  single : ∀ v ∈ windows, ∃ w, s.lock window = some w ∧ SameTree s.parentOf w v

theorem Model.isTree_nil {window : Option Window} (dead : s.lock window = none) :
    s.IsTree window [] := ⟨by simp [dead], by simp, by simp, by simp⟩

theorem Model.IsTree.of_lock {window : Option Window} {windows : List Window}
    (tree : s.IsTree (some w) windows) (locked : s.lock window = some w) :
    s.IsTree window windows := by
  have same : s.lock (some w) = s.lock window := (lock_some (lock_eq_some.mp locked).2).trans
    locked.symm
  obtain ⟨listed, managed, closed, single⟩ := tree
  rw [same] at listed single
  exact ⟨listed, managed, closed, single⟩

theorem ensures_wholeTree (linked : s.Linked) (managed : s.Managed w) :
    (wholeTree fuel w).Ensures s (fun windows t => t = s ∧ s.IsTree (some w) windows)
      (fun _ _ => False) (s.Short fuel) := by
  have here : s.lock (some w) = some w := lock_some ((linked.live w).mpr managed)
  rw [wholeTree]
  refine (ensures_bind ..).mpr ((ensures_rootOf linked managed).mono ?_ (fun _ _ h => h) ?_)
  rotate_left
  · intro short d bound
    have := short d d bound (bound w)
    omega
  intro root t after
  rcases after with ⟨rfl, known, top, above⟩
  refine (ensures_bind ..).mpr ((ensures_descendants linked known).mono ?_ (fun _ _ h => h) ?_)
  rotate_left
  · intro short d bound
    have := short d 0 root bound rfl
    omega
  intro below u after
  rcases after with ⟨rfl, spec⟩
  have member (v : Window) : v ∈ root :: below ↔ Above u.parentOf root v := by
    rw [List.mem_cons, spec, above_iff_strict]
  refine ⟨rfl, fun v locked => ?_, fun v listed => ?_, fun v p link => ?_, fun v listed => ?_⟩
  · obtain rfl := Option.some.inj (here.symm.trans locked)
    exact (member w).mpr above
  · obtain ⟨n, reached⟩ := (member v).mp listed
    cases n with
    | zero => exact Option.some.inj reached ▸ known
    | succ n =>
      cases link : u.parentOf v with
      | none => rw [climb_root link] at reached; contradiction
      | some p => exact managed_of_parentOf link
  · rw [member, member, above_link link]
    apply or_iff_right
    rintro rfl
    simp [top] at link
  · exact ⟨w, here, above.sameTree.symm.trans _ _ _ ((member v).mp listed).sameTree⟩

/-- A program on the tree of a window does nothing where the window is gone. -/
theorem ensures_onTree (linked : s.Linked) {window : Option Window}
    {tree : Window → List Window → Prop} {body : List Window → Manager Unit}
    {post : Unit → Model → Prop}
    (whole : ∀ w, s.Managed w → (wholeTree fuel w).Ensures s
      (fun windows t => t = s ∧ tree w windows) (fun _ _ => False) (s.Short fuel))
    (onTree : ∀ w windows, s.lock window = some w → tree w windows →
      (body windows).Ensures s post (fun _ _ => False) (s.Short fuel))
    (gone : s.lock window = none → post () s) :
    (whenSome (s.lock window) fun w => wholeTree fuel w >>= body).Ensures s post
      (fun _ _ => False) (s.Short fuel) := by
  rw [ensures_whenSome]
  refine ⟨fun w locked => ?_, gone⟩
  have managed := (linked.live w).mp (lock_eq_some.mp locked).2
  apply (whole w managed).bind
  intro windows t after
  rcases after with ⟨rfl, listed⟩
  exact onTree w windows locked listed

theorem ensures_onTree_gone {window : Option Window} {body : Window → Manager Unit} :
    Prog.Ensures (do
      let s ← Prog.state
      whenSome (s.lock window) body) s
      (fun _ t => s.lock window = none → t = s) (fun _ _ => True) True := by
  rw [ensures_bind, ensures_state, ensures_whenSome]
  refine ⟨fun w locked => ensures_always (fun _ _ gone => ?_) (fun _ _ => trivial) trivial,
    fun _ _ => rfl⟩
  exact absurd (gone.symm.trans locked) (by simp)

theorem ensures_addTreeToWorkspace (linked : s.Linked) {window : Option Window} :
    (addTreeToWorkspace fuel window workspace).Ensures s
      (fun _ t => Regrouped s t ∧ ∃ windows, s.IsTree window windows ∧ Joined s t workspace windows)
      (fun _ _ => False) (s.Short fuel) := by
  rw [addTreeToWorkspace, ensures_bind, ensures_state]
  apply ensures_onTree linked fun w managed => ensures_wholeTree linked managed
  · intro w windows locked tree
    refine ensures_insertIntoWorkspace.imp ?_
    intro _ u after
    rcases after with ⟨regrouped, joined⟩
    exact ⟨regrouped, windows, tree.of_lock locked, joined⟩
  · exact fun dead => ⟨.refl, [], isTree_nil dead, fun k v => by simp⟩

theorem ensures_removeTreeFromWorkspace (linked : s.Linked) {window : Option Window} :
    (removeTreeFromWorkspace fuel window workspace).Ensures s
      (fun _ t => Regrouped s t ∧ ∃ windows, s.IsTree window windows ∧ ∀ k v,
        (k, v) ∈ t.workspacesToWindows ↔
          (k, v) ∈ s.workspacesToWindows ∧ ¬(k = workspace ∧ v ∈ windows))
      (fun _ _ => False) (s.Short fuel) := by
  rw [removeTreeFromWorkspace, ensures_bind, ensures_state]
  apply ensures_onTree linked fun w managed => ensures_wholeTree linked managed
  · intro w windows locked tree
    rw [ensures_bind, ensures_state, ensures_bind, ensures_update]
    apply ensures_adviseRemoving
    intro u advised same
    refine ⟨(Regrouped.relation _).trans advised, windows, tree.of_lock locked, fun k v => ?_⟩
    rw [same, List.mem_filter, decide_eq_true_eq]
  · exact fun dead => ⟨.refl, [], isTree_nil dead, fun k v => by simp⟩

theorem ensures_moveWorkspaceContent (toWorkspace fromWorkspace : Workspace) {short : Prop} :
    (moveWorkspaceContentToWorkspace toWorkspace fromWorkspace).Ensures s
      (fun _ t => Regrouped s t ∧ ∀ k v, (k, v) ∈ t.workspacesToWindows ↔
        (k, v) ∈ s.workspacesToWindows ∧ k ≠ fromWorkspace ∨
          k = toWorkspace ∧ (fromWorkspace, v) ∈ s.workspacesToWindows)
      (fun _ _ => False) short := by
  rw [moveWorkspaceContentToWorkspace, ensures_bind, ensures_state, ensures_bind, ensures_update,
    ensures_bind]
  apply ensures_adviseRemoving
  intro t advised same
  refine ensures_insertIntoWorkspace.imp ?_
  intro _ u after
  rcases after with ⟨regrouped, joined⟩
  refine ⟨((Regrouped.relation _).trans advised).trans regrouped, fun k v => ?_⟩
  rw [joined, same, List.mem_filter, mem_windowsIn]
  simp

end Miral
