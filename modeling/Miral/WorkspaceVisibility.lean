import Miral.WorkspaceSwitch

/-! The windows that are shown are those of the active workspace, whichever is switched to. -/
namespace Miral

open Program Prog Forest Model

namespace Shell

/-- The workspaces that the policy switches between. -/
def HasKey (s : Shell) (workspace : Workspace) : Prop := ∃ key, s.keyToWorkspace key = workspace

/-- Each window is in one of the workspaces, and it is hidden unless that is the active one.
Decorations are taken care of automatically. -/
structure Assigned (s : Shell) : Prop where
  active : s.HasKey s.activeWorkspace
  home : ∀ w, s.manager.Managed w → ¬s.IsDecoration w →
    ∃! k, s.HasKey k ∧ (k, w) ∈ s.manager.workspacesToWindows
  flagged : ∀ w, s.manager.Managed w → ¬s.IsDecoration w →
    ((s.policyData w).inHiddenWorkspace ↔ (s.activeWorkspace, w) ∉ s.manager.workspacesToWindows)
  concealed : s.Concealed

/-- On top of that, the windows of a tree are in the same workspace. -/
structure Partitioned (s : Shell) : Prop extends Assigned s where
  acyclic : s.manager.Acyclic
  together : ∀ v w, SameTree s.manager.parentOf v w → ∀ k, s.HasKey k →
    ((k, v) ∈ s.manager.workspacesToWindows ↔ (k, w) ∈ s.manager.workspacesToWindows)

variable {s u : Shell} {v w : Window} {k k' workspace : Workspace} {window : Option Window}

theorem Assigned.unique (assigned : s.Assigned) (managed : s.manager.Managed w)
    (plain : ¬s.IsDecoration w) (key : s.HasKey k) (key' : s.HasKey k')
    (member : (k, w) ∈ s.manager.workspacesToWindows)
    (member' : (k', w) ∈ s.manager.workspacesToWindows) : k = k' :=
  (assigned.home w managed plain).unique ⟨key, member⟩ ⟨key', member'⟩

/-- The active window is in the active workspace: it would not be seen in another one. -/
theorem Assigned.activeWindow (assigned : s.Assigned) (sound : s.Sound)
    (active : s.manager.activeWindow = some w) :
    (s.activeWorkspace, w) ∈ s.manager.workspacesToWindows := by
  have coherent := sound.furnished.coherent
  have listed := activeWindow_mem active
  have managed := coherent.integrity.mru w listed
  have plain := sound.furnished.idle w listed
  obtain ⟨info, here⟩ := managed_iff.mp managed
  have seen := ((coherent.visible_iff here).mp (activeWindow_visible active)).1
  by_contra elsewhere
  have hidden := assigned.concealed w info here plain
    ((assigned.flagged w managed plain).mpr elsewhere)
  exact seen (by rw [hidden]; rfl)

theorem Partitioned.taken (parted : s.Partitioned) (sound : s.Sound)
    (taken : window = none ∨ window = s.manager.activeWindow)
    (inTree : s.manager.InTree window v) :
    (s.activeWorkspace, v) ∈ s.manager.workspacesToWindows := by
  obtain ⟨w, locked, same⟩ := inTree
  obtain ⟨rfl, -⟩ := lock_eq_some.mp locked
  have active : s.manager.activeWindow = some w := (taken.resolve_left (by simp)).symm
  exact (parted.together w v same _ parted.active).mp (parted.activeWindow sound active)

end Shell

open Shell

variable {s u : Shell} {v w : Window} {workspace : Workspace} {window : Option Window}

theorem Model.Linked.sameLock {s t : Model} (linked : s.Linked) (linked' : t.Linked)
    (types : ∀ v, t.typeOf v = s.typeOf v) (window : Option Window) :
    t.lock window = s.lock window := by
  cases window with
  | none => rfl
  | some w =>
    have same : t.Live w ↔ s.Live w := by
      rw [linked'.live, managed_of_types (types w), linked.live]
    simp only [lock, same]

theorem Shell.Concealed.regrouped {m : Model} (concealed : s.Concealed)
    (regrouped : Regrouped s.manager m) : (s.setManager m).Concealed := by
  intro v info here
  change m.info? v = some info at here
  rw [regrouped.info?] at here
  exact concealed v info here

/-- What a switch to another workspace comes to, for the relation and for the flags. -/
structure Shell.Relocated (s : Shell) (workspace : Workspace) (window : Option Window)
    (u : Shell) : Prop where
  sound : u.Sound
  concealed : u.Concealed
  decorations : u.decorations = s.decorations
  keyToWorkspace : u.keyToWorkspace = s.keyToWorkspace
  activeWorkspace : u.activeWorkspace = workspace
  parents : ∀ v, u.manager.parentOf v = s.manager.parentOf v
  types : ∀ v, u.manager.typeOf v = s.manager.typeOf v
  pairs : ∀ k v, (k, v) ∈ u.manager.workspacesToWindows ↔
    ((k, v) ∈ s.manager.workspacesToWindows ∧
      ¬(k = s.activeWorkspace ∧ s.manager.InTree window v)) ∨
      k = workspace ∧ s.manager.InTree window v
  shown : ∀ v, ¬s.IsDecoration v → (workspace, v) ∈ u.manager.workspacesToWindows →
    (s.activeWorkspace, v) ∉ u.manager.workspacesToWindows →
    (u.policyData v).inHiddenWorkspace = false
  hidden : ∀ v, ¬s.IsDecoration v → (s.activeWorkspace, v) ∈ u.manager.workspacesToWindows →
    (u.policyData v).inHiddenWorkspace = true
  others : ∀ v, (workspace, v) ∉ u.manager.workspacesToWindows →
    (s.activeWorkspace, v) ∉ u.manager.workspacesToWindows →
    (u.policyData v).inHiddenWorkspace = (s.policyData v).inHiddenWorkspace

theorem Shell.mem_toSwitch : v ∈ s.toSwitch workspace ↔
    (workspace, v) ∈ s.manager.workspacesToWindows ∧ ¬s.IsDecoration v := by
  simp [toSwitch, mem_windowsIn]

theorem Shell.Switched.relocated (switched : s.Switched workspace window u) (sound : s.Sound)
    (concealed : s.Concealed) (leaves : workspace ≠ s.activeWorkspace) :
    s.Relocated workspace window u := by
  cases switched with
  | stays same => exact absurd same leaves
  | @goes pre hidden s₁ s₂ s₃ m _ recalls recalled carries shown eq left =>
    have start : ({ s with activeWorkspace := workspace } : Shell).Sound :=
      ⟨sound.titled, sound.furnished⟩
    have sound₁ := sound_steps recalled start
    have steady₁ := steady_steps recalled
    have steady₂ := steady_steps shown
    have steady₃ := steady_steps left
    have linked := sound.furnished.coherent.integrity.toLinked
    have inTree (v : Window) : s₁.manager.InTree window v ↔ s.manager.InTree window v := by
      rw [InTree, InTree, linked.sameLock sound₁.furnished.coherent.integrity.toLinked steady₁.types,
        steady₁.parentOf]
    have pairs (k : Workspace) (v : Window) : (k, v) ∈ s₃.manager.workspacesToWindows ↔
        ((k, v) ∈ s.manager.workspacesToWindows ∧
          ¬(k = s.activeWorkspace ∧ s.manager.InTree window v)) ∨
          k = workspace ∧ s.manager.InTree window v := by
      rw [steady₃.pairs, steady₂.pairs]
      change (k, v) ∈ m.workspacesToWindows ↔ _
      rw [carries.pairs, steady₁.pairs, inTree]
    have inside (v : Window) (member : v ∈ (s₁.setManager m).toSwitch workspace) :
        (workspace, v) ∈ s₃.manager.workspacesToWindows := by
      rw [steady₃.pairs, steady₂.pairs]
      exact (mem_toSwitch.mp member).1
    have before (v : Window) (member : v ∈ pre) :
        (workspace, v) ∈ s₃.manager.workspacesToWindows :=
      (pairs _ _).mpr (.inl ⟨(mem_workspacesContaining.mp (recalls.remembered v member).2).1,
        fun h => leaves h.1⟩)
    have plain (v : Window) : s₂.IsDecoration v ↔ s.IsDecoration v :=
      steady₂.isDecoration.trans (steady₁.isDecoration (v := v))
    have last (v : Window) : v ∈ hidden.filter (some · ≠ s.manager.activeWindow) ++
        (s.manager.activeWindow.filter (· ∈ hidden)).toList ↔
        (s.activeWorkspace, v) ∈ s₃.manager.workspacesToWindows ∧ ¬s.IsDecoration v := by
      rw [steady₃.pairs, ← plain, ← mem_toSwitch, ← eq, mem_deferred]
    have within (v : Window) (decorated : ¬s.IsDecoration v)
        (there : (workspace, v) ∈ s₃.manager.workspacesToWindows) :
        v ∈ (s₁.setManager m).toSwitch workspace := by
      rw [steady₃.pairs, steady₂.pairs] at there
      exact mem_toSwitch.mpr ⟨there, fun h => decorated (steady₁.isDecoration.mp h)⟩
    have sound₃ : s₃.Sound := sound_steps left (sound_steps shown (sound₁.carried carries))
    have concealed₃ : s₃.Concealed := concealed_steps left (concealed_steps shown
      ((concealed_steps recalled concealed).regrouped carries.regrouped))
    have flag (v : Window) : (s₃.policyData v).inHiddenWorkspace =
        if (s.activeWorkspace, v) ∈ s₃.manager.workspacesToWindows ∧ ¬s.IsDecoration v then true
        else if v ∈ (s₁.setManager m).toSwitch workspace then false
        else if v ∈ pre then false else (s.policyData v).inHiddenWorkspace := by
      have first : ((s₁.setManager m).policyData v).inHiddenWorkspace =
          if v ∈ pre then false else (s.policyData v).inHiddenWorkspace := by
        have kept := flag_steps (v := v) recalled
        exact kept
      rw [flag_steps left, flag_steps shown, first]
      simp only [last]
    have parents (v : Window) : s₃.manager.parentOf v = s.manager.parentOf v :=
      (steady₃.parents v).trans ((steady₂.parents v).trans
        ((congrFun carries.regrouped.parentOf v).trans (steady₁.parents v)))
    rw [rememberIf_eq]
    exact
      { sound := ⟨sound₃.titled, sound₃.furnished⟩
        concealed := concealed₃
        decorations := steady₃.decorations.trans (steady₂.decorations.trans steady₁.decorations)
        keyToWorkspace :=
          steady₃.keyToWorkspace.trans (steady₂.keyToWorkspace.trans steady₁.keyToWorkspace)
        activeWorkspace :=
          steady₃.activeWorkspace.trans (steady₂.activeWorkspace.trans steady₁.activeWorkspace)
        parents, pairs
        types := fun v => (steady₃.types v).trans ((steady₂.types v).trans
          ((congrFun carries.regrouped.typeOf v).trans (steady₁.types v)))
        shown := fun v plain there elsewhere => by
          rw [flag, if_neg fun h => elsewhere h.1, if_pos (within v plain there)]
        hidden := fun v plain here => by rw [flag, if_pos ⟨here, plain⟩]
        others := fun v away elsewhere => by
          rw [flag, if_neg fun h => elsewhere h.1, if_neg fun h => away (inside v h),
            if_neg fun h => away (before v h)] }

theorem Model.inTree_congr {s : Model} (same : SameTree s.parentOf v w) :
    s.InTree window v ↔ s.InTree window w := by
  refine exists_congr fun root => and_congr_right fun _ => ⟨fun h => ?_, fun h => ?_⟩
  · exact h.trans _ _ _ same
  · exact h.trans _ _ _ (same.symm _ _)

namespace Shell.Relocated

variable (relocated : s.Relocated workspace window u)

include relocated

theorem hasKey (k : Workspace) : u.HasKey k ↔ s.HasKey k := by
  rw [HasKey, HasKey, relocated.keyToWorkspace]

theorem isDecoration : u.IsDecoration v ↔ s.IsDecoration v := by
  rw [IsDecoration, IsDecoration, relocated.decorations]

theorem managed : u.manager.Managed v ↔ s.manager.Managed v := managed_of_types (relocated.types v)

/-- The tree that is taken along moves, and so do the flags. -/
theorem assigned (assigned : s.Assigned) (key : s.HasKey workspace)
    (leaves : workspace ≠ s.activeWorkspace)
    (taken : ∀ v, s.manager.InTree window v →
      (s.activeWorkspace, v) ∈ s.manager.workspacesToWindows) : u.Assigned := by
  have moved (v : Window) (known : s.manager.Managed v) (plain : ¬s.IsDecoration v)
      (inTree : s.manager.InTree window v) (k : Workspace) (desk : s.HasKey k) :
      (k, v) ∈ u.manager.workspacesToWindows ↔ k = workspace := by
    rw [relocated.pairs]
    constructor
    · intro either
      rcases either with ⟨member, stayed⟩ | ⟨rfl, -⟩
      · exact absurd ⟨assigned.unique known plain desk assigned.active member (taken v inTree),
          inTree⟩ stayed
      · rfl
    · exact fun eq => .inr ⟨eq, inTree⟩
  have stayed (v : Window) (outside : ¬s.manager.InTree window v) (k : Workspace) :
      (k, v) ∈ u.manager.workspacesToWindows ↔ (k, v) ∈ s.manager.workspacesToWindows := by
    rw [relocated.pairs]
    simp [outside]
  have home (v : Window) (known : s.manager.Managed v) (plain : ¬s.IsDecoration v) :
      ∃! k, s.HasKey k ∧ (k, v) ∈ u.manager.workspacesToWindows := by
    by_cases inTree : s.manager.InTree window v
    · refine ⟨workspace, ⟨key, (moved v known plain inTree _ key).mpr rfl⟩, ?_⟩
      rintro k ⟨desk, member⟩
      exact (moved v known plain inTree k desk).mp member
    · simp only [stayed v inTree]
      exact assigned.home v known plain
  have elsewhere (v : Window) (known : s.manager.Managed v) (plain : ¬s.IsDecoration v)
      (here : (workspace, v) ∈ u.manager.workspacesToWindows) :
      (s.activeWorkspace, v) ∉ u.manager.workspacesToWindows := fun there =>
    leaves ((home v known plain).unique ⟨key, here⟩ ⟨assigned.active, there⟩)
  refine ⟨?_, fun v known plain => ?_, fun v known plain => ?_, relocated.concealed⟩
  · rw [relocated.activeWorkspace, relocated.hasKey]
    exact key
  · simp only [relocated.hasKey]
    exact home v (relocated.managed.mp known) (fun h => plain (relocated.isDecoration.mpr h))
  · rw [relocated.managed] at known
    rw [relocated.isDecoration] at plain
    rw [relocated.activeWorkspace]
    by_cases here : (workspace, v) ∈ u.manager.workspacesToWindows
    · simp [relocated.shown v plain here (elsewhere v known plain here), here]
    · by_cases there : (s.activeWorkspace, v) ∈ u.manager.workspacesToWindows
      · simp [relocated.hidden v plain there, here]
      · rw [relocated.others v here there, assigned.flagged v known plain]
        refine iff_of_true (fun member => ?_) here
        by_cases inTree : s.manager.InTree window v
        · exact here ((moved v known plain inTree _ key).mpr rfl)
        · exact there ((stayed v inTree _).mpr member)

theorem partitioned (sound : s.Sound) (parted : s.Partitioned) (key : s.HasKey workspace)
    (leaves : workspace ≠ s.activeWorkspace)
    (taken : window = none ∨ window = s.manager.activeWindow) : u.Partitioned := by
  have parentOf : u.manager.parentOf = s.manager.parentOf := funext relocated.parents
  refine ⟨relocated.assigned parted.toAssigned key leaves fun v => parted.taken sound taken,
    fun v known => ?_, fun v w same k desk => ?_⟩
  · rw [parentOf]
    exact parted.acyclic v (relocated.managed.mp known)
  · rw [parentOf] at same
    rw [relocated.hasKey] at desk
    have alike : s.manager.InTree window v ↔ s.manager.InTree window w := inTree_congr same
    rw [relocated.pairs, relocated.pairs, parted.together v w same k desk, alike]

end Shell.Relocated

theorem Shell.Switched.partitioned (switched : s.Switched workspace window u) (sound : s.Sound)
    (parted : s.Partitioned) (key : s.HasKey workspace)
    (taken : window = none ∨ window = s.manager.activeWindow) :
    u.Sound ∧ u.Partitioned ∧ u.activeWorkspace = workspace ∧
      u.keyToWorkspace = s.keyToWorkspace ∧ u.manager.parentOf = s.manager.parentOf ∧
      ∀ v, s.manager.InTree window v → (workspace, v) ∈ u.manager.workspacesToWindows := by
  by_cases stays : workspace = s.activeWorkspace
  · cases switched with
    | goes leaves => exact absurd stays leaves
    | stays =>
      subst stays
      exact ⟨sound, parted, rfl, rfl, rfl, fun v => parted.taken sound taken⟩
  · have relocated := switched.relocated sound parted.concealed stays
    exact ⟨relocated.sound, relocated.partitioned sound parted key stays taken,
      relocated.activeWorkspace, relocated.keyToWorkspace, funext relocated.parents,
      fun v inTree => (relocated.pairs _ _).mpr (.inr ⟨rfl, inTree⟩)⟩

/-- Whichever workspace is switched to, and whether or not the active window is taken along, the
windows that are shown are those of the active workspace. -/
theorem switch_keeps_partition {s : Shell} (sound : s.Sound) (parted : s.Partitioned)
    (key : WorkspaceKey) (window : Option Window)
    (taken : window = none ∨ window = s.manager.activeWindow) :
    (∀ fuel u, TitlebarPolicy.switchWorkspaceTo fuel (s.keyToWorkspace key) window s =
        .returned () u → u.Sound ∧ u.Partitioned ∧ u.keyToWorkspace = s.keyToWorkspace ∧
        u.activeWorkspace = s.keyToWorkspace key ∧
        ∀ w v, window = some w → SameTree u.manager.parentOf w v →
          (s.keyToWorkspace key, v) ∈ u.manager.workspacesToWindows) ∧
    (∀ fuel failure u, TitlebarPolicy.switchWorkspaceTo fuel (s.keyToWorkspace key) window s ≠
        .thrown failure u) ∧
    ∃ n, ∀ fuel ≥ n, ∃ u,
      TitlebarPolicy.switchWorkspaceTo fuel (s.keyToWorkspace key) window s = .returned () u := by
  have switched (fuel : Nat) :
      (TitlebarPolicy.switchWorkspaceTo fuel (s.keyToWorkspace key) window).Ensures s _ _
        (s.manager.Short fuel) := TitlebarPolicy.ensures_switchWorkspaceTo sound _ window
  refine ⟨fun fuel u run => ?_, fun fuel failure u run => (switched fuel).thrown run, ?_⟩
  · have script := (switched fuel).returned run
    obtain ⟨sound', parted', active, keys, parents, inside⟩ :=
      script.partitioned sound parted ⟨key, rfl⟩ taken
    refine ⟨sound', parted', keys, active, fun w v some same => ?_⟩
    subst some
    have integrity := sound.furnished.coherent.integrity
    have focused := (taken.resolve_left (by simp)).symm
    have live := (integrity.live w).mpr (integrity.mru w (activeWindow_mem focused))
    rw [parents] at same
    exact inside v ⟨w, lock_some live, same⟩
  · obtain ⟨n, enough⟩ := parted.acyclic.enough
    refine ⟨n, fun fuel le => ?_⟩
    obtain ⟨_, u, run, -⟩ := (switched fuel).returns (enough fuel le)
    exact ⟨u, run⟩

def Op.deskRun : List Op :=
  [.addSession 1,
    .addDisplay ⟨⟨0, 0⟩, ⟨640, 480⟩⟩ (.single 1 ⟨⟨0, 0⟩, ⟨640, 480⟩⟩) [],
    .createWorkspace 0, .createWorkspace 1, .createWorkspace 2, .createWorkspace 3,
    .addSurface 1 { size := ⟨100, 80⟩ } 1,
    .addTreeToWorkspace (some ⟨1, 1⟩) 0,
    .postBuffer ⟨1, 1⟩,
    .handleWindowReady ⟨1, 1⟩]

def Model.deskState : Model :=
  (Op.follow 12 (fun s op => op.Contract s ∧ op.asksParent = false) Op.deskRun .start).get
    (by decide +kernel)

/-- A policy that has no titlebars yet, in the first workspace. -/
def Shell.undecorated (m : Model) : Shell where
  manager := m
  policyData _ := {}
  decorations := none
  titlebar _ := none
  keyToWorkspace
    | .f1 => 0
    | .f2 => 1
    | .f3 => 2
    | .f4 => 3
  activeWorkspace := 0
  workspaceToActive _ := none

theorem sound_undecorated {m : Model} (coherent : m.Coherent) : (Shell.undecorated m).Sound where
  titled _ _ titlebar := absurd titlebar (by simp [Shell.undecorated])
  furnished := ⟨coherent, fun _ kind => absurd kind (by simp [IsDecoration, Shell.undecorated]),
    fun _ _ kind => absurd kind (by simp [IsDecoration, Shell.undecorated])⟩

theorem Model.mem_keys {m : Model} {v : Window} : v ∈ m.windowInfo.keys ↔ m.Managed v := by
  rw [← AList.mem_keys, ← AList.lookup_isSome]
  rfl

theorem partitioned_undecorated {m : Model} (acyclic : m.Acyclic)
    (orphans : ∀ v ∈ m.windowInfo.keys, m.parentOf v = none)
    (inside : ∀ v ∈ m.windowInfo.keys, (0, v) ∈ m.workspacesToWindows)
    (only : ∀ pair ∈ m.workspacesToWindows, pair.1 = 0) : (Shell.undecorated m).Partitioned where
  active := ⟨.f1, rfl⟩
  home v managed _ := by
    refine ⟨0, ⟨⟨.f1, rfl⟩, inside v (mem_keys.mpr managed)⟩, fun k member => ?_⟩
    exact only (k, v) member.2
  flagged v managed _ := by
    refine iff_of_false (by simp [Shell.undecorated]) fun outside => ?_
    exact outside (inside v (mem_keys.mpr managed))
  concealed _ _ _ _ flagged := absurd flagged (by simp [Shell.undecorated])
  acyclic := acyclic
  together v v' same k _ := by
    apply same.congr (fun v => (k, v) ∈ m.workspacesToWindows)
    intro v p link
    have orphan := orphans v (mem_keys.mpr (managed_of_parentOf link))
    exact absurd (orphan.symm.trans link) (by simp)

theorem reachable_deskState :
    Reachable (fun s op => op.Contract s ∧ op.asksParent = false) deskState :=
  (Reachable.initial _ _).follow (Option.some_get _).symm

theorem sound_deskState : (Shell.undecorated deskState).Sound :=
  sound_undecorated (reachable_deskState.mono fun _ _ h => h.1).coherent

theorem partitioned_deskState : (Shell.undecorated deskState).Partitioned :=
  partitioned_undecorated reachable_deskState.acyclic_of_linkless.acyclic.2 (by decide +kernel)
    (by decide +kernel) (by decide +kernel)

/-- Two more windows in the same workspace, the last of which has the focus. -/
def Op.crowdedRun : List Op := Op.deskRun ++
  [.addSurface 1 { size := ⟨100, 80⟩ } 2, .addTreeToWorkspace (some ⟨1, 2⟩) 0,
    .postBuffer ⟨1, 2⟩, .handleWindowReady ⟨1, 2⟩,
    .addSurface 1 { size := ⟨100, 60⟩ } 3, .addTreeToWorkspace (some ⟨1, 3⟩) 0,
    .postBuffer ⟨1, 3⟩, .handleWindowReady ⟨1, 3⟩]

def Model.crowdedState : Model :=
  (Op.follow 12 (fun s op => op.Contract s ∧ op.asksParent = false) Op.crowdedRun .start).get
    (by decide +kernel)

theorem reachable_crowdedState :
    Reachable (fun s op => op.Contract s ∧ op.asksParent = false) crowdedState :=
  (Reachable.initial _ _).follow (Option.some_get _).symm

theorem sound_crowdedState : (Shell.undecorated crowdedState).Sound :=
  sound_undecorated (reachable_crowdedState.mono fun _ _ h => h.1).coherent

theorem partitioned_crowdedState : (Shell.undecorated crowdedState).Partitioned :=
  partitioned_undecorated reachable_crowdedState.acyclic_of_linkless.acyclic.2 (by decide +kernel)
    (by decide +kernel) (by decide +kernel)

theorem partitioned_returned {s : Shell} {fuel : Nat} {workspace : Workspace}
    {window : Option Window} (sound : s.Sound) (parted : s.Partitioned) (key : s.HasKey workspace)
    (taken : window = none ∨ window = s.manager.activeWindow)
    (returns : (TitlebarPolicy.switchWorkspaceTo fuel workspace window s).returned?.isSome) :
    ((TitlebarPolicy.switchWorkspaceTo fuel workspace window s).returned?.get returns).Sound ∧
    ((TitlebarPolicy.switchWorkspaceTo fuel workspace window
      s).returned?.get returns).Partitioned := by
  obtain ⟨_, run⟩ := Outcome.returned?_eq_some.mp (Option.some_get returns).symm
  have script := (TitlebarPolicy.ensures_switchWorkspaceTo sound _ window).returned run
  obtain ⟨sound', parted', -⟩ := script.partitioned sound parted key taken
  exact ⟨sound', parted'⟩

/-- The active window has been taken along to the second workspace. -/
def Shell.takenState : Shell :=
  (TitlebarPolicy.switchWorkspaceTo 12 1 (some ⟨1, 3⟩) (.undecorated crowdedState)).returned?.get
    (by decide +kernel)

theorem partitioned_takenState : Shell.takenState.Sound ∧ Shell.takenState.Partitioned :=
  partitioned_returned sound_crowdedState partitioned_crowdedState ⟨.f2, rfl⟩
    (.inr (by decide +kernel)) (by decide +kernel)

/-- It has been left there: the other two windows are shown again. -/
def Shell.dividedState : Shell :=
  (TitlebarPolicy.switchWorkspaceTo 12 0 none Shell.takenState).returned?.get (by decide +kernel)

theorem partitioned_dividedState : Shell.dividedState.Sound ∧ Shell.dividedState.Partitioned :=
  partitioned_returned partitioned_takenState.1 partitioned_takenState.2
    ⟨.f1, by decide +kernel⟩ (.inl rfl) (by decide +kernel)

/-- One window is taken along to where another one waits, and a third one stays behind. -/
theorem switch_keeps_partition_taken : ∃ u : Shell, u.Partitioned ∧
    (1, ⟨1, 2⟩) ∈ u.manager.workspacesToWindows ∧
    u.manager.stateOf ⟨1, 3⟩ = some .restored ∧ u.manager.stateOf ⟨1, 1⟩ = some .hidden := by
  obtain ⟨sound, parted⟩ := partitioned_dividedState
  have active : Shell.dividedState.manager.activeWindow = some ⟨1, 2⟩ := by decide +kernel
  have second : Shell.dividedState.keyToWorkspace .f2 = 1 := by decide +kernel
  have ends : (TitlebarPolicy.switchWorkspaceTo 12 1 (some ⟨1, 2⟩)
      Shell.dividedState).returned?.map
        (fun u => (u.manager.stateOf ⟨1, 3⟩, u.manager.stateOf ⟨1, 1⟩)) =
      some (some .restored, some .hidden) := by decide +kernel
  revert sound parted active second ends
  generalize Shell.dividedState = s
  intro sound parted active second ends
  obtain ⟨u, after, states⟩ := Option.map_eq_some_iff.mp ends
  obtain ⟨_, run⟩ := Outcome.returned?_eq_some.mp after
  obtain ⟨shown, hidden⟩ := Prod.mk.inj states
  obtain ⟨keeps, -, -⟩ := switch_keeps_partition sound parted .f2 (some ⟨1, 2⟩) (.inr active.symm)
  rw [second] at keeps
  obtain ⟨-, parted, -, -, inside⟩ := keeps 12 u run
  exact ⟨u, parted, inside ⟨1, 2⟩ ⟨1, 2⟩ rfl (.refl _), shown, hidden⟩

end Miral
