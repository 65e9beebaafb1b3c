import Miral.Grouping
import Miral.TitlebarRequests

/-! `switch_workspace_to` as a script: the windows it shows and hides, one after the other, and
the tree it takes along in between. -/
namespace Miral

open Program Prog Forest Model

namespace Shell

/-- Windows have been shown or hidden, and titlebars painted. -/
structure Steady (s u : Shell) : Prop where
  decorations : u.decorations = s.decorations
  titlebar : u.titlebar = s.titlebar
  keyToWorkspace : u.keyToWorkspace = s.keyToWorkspace
  activeWorkspace : u.activeWorkspace = s.activeWorkspace
  workspaceToActive : u.workspaceToActive = s.workspaceToActive
  pairs : u.manager.workspacesToWindows = s.manager.workspacesToWindows
  living : u.manager.liveWorkspaces = s.manager.liveWorkspaces
  parents : ∀ v, u.manager.parentOf v = s.manager.parentOf v
  children : ∀ v, u.manager.childrenOf v = s.manager.childrenOf v
  types : ∀ v, u.manager.typeOf v = s.manager.typeOf v
  displays : u.manager.displays = s.manager.displays
  displayLayout : u.manager.displayLayout = s.manager.displayLayout

def toSwitch (s : Shell) (workspace : Workspace) : List Window :=
  (s.manager.windowsIn workspace).filter fun w => ¬s.IsDecoration w

/-- The state that a window is put in when it is hidden with its workspace, or shown. -/
def stateUnder (s : Shell) (w : Window) : Bool → WindowState
  | true => .hidden
  | false => (s.policyData w).oldState

def dataUnder (s : Shell) (w : Window) (info : WindowInfo) : Bool → PolicyData
  | true => ⟨true, info.state⟩
  | false => { s.policyData w with inHiddenWorkspace := false }

/-- A window has been hidden with its workspace, or shown, unless it was already. -/
inductive Visited (hidden : Bool) (w : Window) (s : Shell) : Shell → Prop where
  | already : (s.policyData w).inHiddenWorkspace = hidden → Visited hidden w s s
  | changed {info : WindowInfo} {t : Model} : s.manager.info? w = some info →
      (s.policyData w).inHiddenWorkspace = !hidden →
      Granted s.IsDecoration w (s.titlebar w) info (s.stateUnder w hidden) s.manager t →
      Visited hidden w s ((s.setPolicyData w (s.dataUnder w info hidden)).setManager t)

variable {s t u : Shell} {w v : Window} {hidden : Bool} {ws : List Window}

namespace Steady

theorem refl : Steady s s :=
  ⟨rfl, rfl, rfl, rfl, rfl, rfl, rfl, fun _ => rfl, fun _ => rfl, fun _ => rfl, rfl, rfl⟩

theorem trans (h : Steady s t) (h' : Steady t u) : Steady s u where
  decorations := h'.decorations.trans h.decorations
  titlebar := h'.titlebar.trans h.titlebar
  keyToWorkspace := h'.keyToWorkspace.trans h.keyToWorkspace
  activeWorkspace := h'.activeWorkspace.trans h.activeWorkspace
  workspaceToActive := h'.workspaceToActive.trans h.workspaceToActive
  pairs := h'.pairs.trans h.pairs
  living := h'.living.trans h.living
  parents v := (h'.parents v).trans (h.parents v)
  children v := (h'.children v).trans (h.children v)
  types v := (h'.types v).trans (h.types v)
  displays := h'.displays.trans h.displays
  displayLayout := h'.displayLayout.trans h.displayLayout

variable (steady : Steady s u)

include steady

theorem isDecoration : u.IsDecoration v ↔ s.IsDecoration v := by
  rw [IsDecoration, IsDecoration, steady.decorations]

theorem managed : u.manager.Managed v ↔ s.manager.Managed v := managed_of_types (steady.types v)

theorem parentOf : u.manager.parentOf = s.manager.parentOf := funext steady.parents

theorem windowsIn (workspace : Workspace) :
    u.manager.windowsIn workspace = s.manager.windowsIn workspace := by
  rw [Model.windowsIn, Model.windowsIn, steady.pairs]

end Steady

theorem Visited.steady (visited : Visited hidden w s u) : Steady s u := by
  cases visited with
  | already => exact .refl
  | changed _ _ placed =>
    exact ⟨rfl, rfl, rfl, rfl, rfl, placed.workspaces, placed.living, placed.parents,
      placed.children, placed.types, placed.displays, placed.displayLayout⟩

theorem Visited.sound (visited : Visited hidden w s u) (sound : s.Sound) : u.Sound := by
  cases visited with
  | already => exact sound
  | changed _ _ placed => exact ⟨sound.titled, placed.furnished⟩

theorem Visited.flag (visited : Visited hidden w s u) :
    (u.policyData w).inHiddenWorkspace = hidden := by
  cases visited with
  | already flag => exact flag
  | changed => cases hidden <;> simp [setPolicyData, setManager, dataUnder]

theorem Visited.policyData (visited : Visited hidden w s u) (ne : v ≠ w) :
    u.policyData v = s.policyData v := by
  cases visited with
  | already => rfl
  | changed => simp [setPolicyData, setManager, ne]

theorem Visited.infos (visited : Visited hidden w s u) (ne : v ≠ w) (plain : ¬s.IsDecoration v) :
    u.manager.info? v = s.manager.info? v := by
  cases visited with
  | already => rfl
  | changed _ _ placed => exact placed.infos v ne plain

section Steps

variable (steps : Steps (Visited hidden) ws s u)

include steps

theorem steady_steps : Steady s u := by
  induction steps with
  | nil => exact .refl
  | cons visited _ ih => exact visited.steady.trans ih

theorem sound_steps (sound : s.Sound) : u.Sound := by
  induction steps with
  | nil => exact sound
  | cons visited _ ih => exact ih (visited.sound sound)

theorem flag_steps : (u.policyData v).inHiddenWorkspace =
    if v ∈ ws then hidden else (s.policyData v).inHiddenWorkspace := by
  induction steps with
  | nil => simp
  | @cons w rest s t u visited _ ih =>
    rw [ih]
    by_cases eq : v = w
    · subst eq
      simp [visited.flag]
    · simp [eq, visited.policyData eq]

end Steps

/-- A window in a hidden workspace is itself hidden. -/
def Concealed (s : Shell) : Prop := ∀ w info, s.manager.info? w = some info → ¬s.IsDecoration w →
  (s.policyData w).inHiddenWorkspace → info.state = .hidden

theorem Visited.concealed (visited : Visited hidden w s u) (concealed : s.Concealed) :
    u.Concealed := by
  intro v info here plain flagged
  rw [visited.steady.isDecoration] at plain
  by_cases eq : v = w
  · subst eq
    rw [visited.flag] at flagged
    subst flagged
    cases visited with
    | already flag => exact concealed v info here plain flag
    | changed _ _ placed =>
      obtain rfl := Option.some.inj (here.symm.trans placed.record)
      rfl
  · rw [visited.infos eq plain] at here
    rw [visited.policyData eq] at flagged
    exact concealed v info here plain flagged

theorem concealed_steps (steps : Steps (Visited hidden) ws s u) (concealed : s.Concealed) :
    u.Concealed := by
  induction steps with
  | nil => exact concealed
  | cons visited _ ih => exact ih (visited.concealed concealed)

theorem Steady.toSwitch (steady : Steady s u) (workspace : Workspace) :
    u.toSwitch workspace = s.toSwitch workspace := by
  rw [Shell.toSwitch, Shell.toSwitch, steady.windowsIn]
  exact List.filter_congr fun v _ => decide_eq_decide.mpr (not_congr steady.isDecoration)

end Shell

def Model.InTree (s : Model) (window : Option Window) (v : Window) : Prop :=
  ∃ w, s.lock window = some w ∧ SameTree s.parentOf w v

theorem Model.IsTree.mem {s : Model} {window : Option Window} {windows : List Window} {v : Window}
    (tree : s.IsTree window windows) : v ∈ windows ↔ s.InTree window v := by
  constructor
  · exact tree.single v
  · rintro ⟨w, locked, same⟩
    exact (same.congr (· ∈ windows) tree.closed).mp (tree.listed w locked)

theorem Model.Linked.inTree {s : Model} {window : Option Window} {v : Window} (linked : s.Linked)
    (inTree : s.InTree window v) : s.Managed v := by
  obtain ⟨w, locked, same⟩ := inTree
  refine (same.congr s.Managed fun v p link => ?_).mp
    ((linked.live w).mp (lock_eq_some.mp locked).2)
  exact iff_of_true (managed_of_parentOf link) (linked.managed_parent link)

theorem Model.Furnished.regrouped {d : Window → Prop} {s t : Model} (furnished : s.Furnished d)
    (regrouped : Regrouped s t) (managed : ∀ pair ∈ t.workspacesToWindows, s.Managed pair.2) :
    t.Furnished d := by
  have integrity := regrouped.integrity furnished.coherent.integrity managed
  revert integrity
  rw [regrouped.frame]
  exact fun integrity => furnished.of_types ⟨integrity, furnished.coherent.synced,
    furnished.coherent.hides, furnished.coherent.posted⟩ (fun _ => rfl) furnished.idle

theorem Model.Regrouped.inTree {s t : Model} {window : Option Window} {v : Window}
    (regrouped : Regrouped s t) : t.InTree window v ↔ s.InTree window v := by
  have locked : t.lock window = s.lock window := by
    rw [regrouped.frame]
    rfl
  rw [Model.InTree, Model.InTree, locked, regrouped.parentOf]

/-- What has joined `workspace` of the tree of a window, and left `left`. -/
structure Model.Carries (s : Model) (window : Option Window) (left workspace : Workspace)
    (m : Model) : Prop where
  regrouped : Regrouped s m
  pairs : ∀ k v, (k, v) ∈ m.workspacesToWindows ↔
    ((k, v) ∈ s.workspacesToWindows ∧ ¬(k = left ∧ s.InTree window v)) ∨
      k = workspace ∧ s.InTree window v
  still : s.lock window = none → m = s

theorem Shell.Sound.carried {s : Shell} {m : Model} {window : Option Window}
    {left workspace : Workspace} (sound : s.Sound)
    (carries : s.manager.Carries window left workspace m) : (s.setManager m).Sound := by
  refine ⟨sound.titled, sound.furnished.regrouped carries.regrouped fun pair member => ?_⟩
  have integrity := sound.furnished.coherent.integrity
  rcases (carries.pairs pair.1 pair.2).mp member with ⟨old, -⟩ | ⟨-, new⟩
  · exact integrity.workspaces _ old
  · exact integrity.toLinked.inTree new

namespace Shell

theorem mem_deferred {ws : List Window} {v : Window} {active : Option Window} :
    v ∈ ws.filter (some · ≠ active) ++ (active.filter (· ∈ ws)).toList ↔ v ∈ ws := by
  cases active with
  | none => simp
  | some w =>
    by_cases eq : v = w
    · subst eq
      simp [Option.mem_toList, Option.filter_eq_some_iff]
    · simp [Option.mem_toList, Option.filter_eq_some_iff, eq, Ne.symm eq]

/-- What is shown first: the window that was active, when none is active now. -/
structure Recalls (s : Shell) (workspace : Workspace) (pre : List Window) : Prop where
  remembered : ∀ w ∈ pre, s.manager.lock (s.workspaceToActive workspace) = some w ∧
    workspace ∈ s.manager.workspacesContaining w
  inactive : pre ≠ [] → s.manager.activeWindow = none
  recalled : s.manager.activeWindow = none → ∀ w,
    s.manager.lock (s.workspaceToActive workspace) = some w →
    workspace ∈ s.manager.workspacesContaining w → w ∈ pre

/-- The active window is remembered if it has been hidden. -/
def rememberIf (s : Shell) (workspace : Workspace) : Option Window → Shell
  | some w => s.rememberActive workspace w
  | none => s

theorem rememberIf_eq (s : Shell) (workspace : Workspace) (w : Option Window) :
    s.rememberIf workspace w =
      { s with workspaceToActive := (s.rememberIf workspace w).workspaceToActive } := by
  cases w <;> rfl

/-- What `switch_workspace_to` does, in order. -/
inductive Switched (workspace : Workspace) (window : Option Window) (s : Shell) : Shell → Prop where
  | stays : workspace = s.activeWorkspace → Switched workspace window s s
  | goes {pre hidden : List Window} {s₁ s₂ s₃ : Shell} {m : Model} :
      workspace ≠ s.activeWorkspace → s.Recalls workspace pre →
      Steps (Visited false) pre { s with activeWorkspace := workspace } s₁ →
      s₁.manager.Carries window s.activeWorkspace workspace m →
      Steps (Visited false) ((s₁.setManager m).toSwitch workspace) (s₁.setManager m) s₂ →
      hidden = s₂.toSwitch s.activeWorkspace →
      Steps (Visited true) (hidden.filter (some · ≠ s.manager.activeWindow) ++
        (s.manager.activeWindow.filter (· ∈ hidden)).toList) s₂ s₃ →
      Switched workspace window s
        (s₃.rememberIf s.activeWorkspace (s.manager.activeWindow.filter (· ∈ hidden)))

end Shell

namespace TitlebarPolicy

variable {s : Shell} {w : Window} {fuel : Nat} {workspace : Workspace} {window : Option Window}
  {ws : List Window}

theorem ensures_visible (sound : s.Sound) (managed : s.manager.Managed w) :
    (applyWorkspaceVisibleTo fuel w).Ensures s (fun _ u => s.Visited false w u)
      (fun _ _ => False) (s.manager.Short fuel) := by
  obtain ⟨info, here⟩ := managed_iff.mp managed
  cases flag : (s.policyData w).inHiddenWorkspace with
  | false =>
    rw [applyWorkspaceVisibleTo, ensures_bind, ensures_managing, ensures_infoFor_here here,
      ensures_bind, ensures_state, ensures_onlyIf]
    exact ⟨fun flagged => absurd (flag.symm.trans flagged) (by simp), fun _ => .already flag⟩
  | true =>
    refine (ensures_applyWorkspaceVisibleTo sound here flag).imp ?_
    intro _ _ after
    rcases after with ⟨t, rfl, placed⟩
    exact .changed here flag placed

theorem ensures_hidden (sound : s.Sound) (managed : s.manager.Managed w) :
    (applyWorkspaceHiddenTo fuel w).Ensures s (fun _ u => s.Visited true w u)
      (fun _ _ => False) (s.manager.Short fuel) := by
  obtain ⟨info, here⟩ := managed_iff.mp managed
  cases flag : (s.policyData w).inHiddenWorkspace with
  | true =>
    rw [applyWorkspaceHiddenTo, ensures_bind, ensures_managing, ensures_infoFor_here here,
      ensures_bind, ensures_state, ensures_onlyIf]
    exact ⟨fun unflagged => absurd (flag.symm.trans unflagged) (by simp), fun _ => .already flag⟩
  | false =>
    refine (ensures_applyWorkspaceHiddenTo sound here flag).imp ?_
    intro _ _ after
    rcases after with ⟨t, rfl, placed⟩
    exact .changed here flag placed

theorem ensures_visits {hidden : Bool} {visit : Window → TitlebarPolicy Unit}
    (each : ∀ (t : Shell) w, t.Sound → t.manager.Managed w →
      (visit w).Ensures t (fun _ u => t.Visited hidden w u) (fun _ _ => False) (t.manager.Short fuel))
    (sound : s.Sound) (managed : ∀ w ∈ ws, s.manager.Managed w) :
    (forEach visit ws).Ensures s (fun _ u => Steps (Shell.Visited hidden) ws s u)
      (fun _ _ => False) (s.manager.Short fuel) := by
  refine (ensures_forEach_steps (fun t : Shell => t.Sound ∧ s.Steady t) visit ws ?_
    ⟨sound, .refl⟩).imp (fun _ _ h => h.1)
  rintro w member t ⟨sound, steady⟩
  refine (each t w sound (steady.managed.mpr (managed w member))).mono ?_ (fun _ _ h => h)
    (Short.congr steady.parents)
  intro _ u visited
  exact ⟨visited, visited.sound sound, steady.trans visited.steady⟩

/-- The loop over the workspaces of the window that was active. -/
theorem ensures_recall (sound : s.Sound) (managed : s.manager.Managed w) (ks : List Workspace) :
    (forEach (fun k => Prog.onlyIf (k = workspace) (applyWorkspaceVisibleTo fuel w)) ks).Ensures s
      (fun _ u => ∃ n, (workspace ∈ ks → n ≠ 0) ∧ (n ≠ 0 → workspace ∈ ks) ∧
        Steps (Shell.Visited false) (List.replicate n w) s u)
      (fun _ _ => False) (s.manager.Short fuel) := by
  induction ks generalizing s with
  | nil => exact ⟨0, by simp, by simp, .nil s⟩
  | cons k rest ih =>
    rw [forEach, ensures_bind, ensures_onlyIf]
    constructor
    · rintro rfl
      refine (ensures_visible sound managed).imp ?_
      intro _ t visited
      refine (ih (visited.sound sound) (visited.steady.managed.mpr managed)).mono ?_
        (fun _ _ h => h) (Short.congr visited.steady.parents)
      intro _ u after
      rcases after with ⟨n, -, -, steps⟩
      exact ⟨n + 1, by simp, by simp, .cons visited steps⟩
    · intro ne
      refine (ih sound managed).imp ?_
      intro _ u after
      rcases after with ⟨n, some, listed, steps⟩
      refine ⟨n, fun member => some ?_, fun pos => List.mem_cons_of_mem _ (listed pos), steps⟩
      exact (List.mem_cons.mp member).resolve_left (Ne.symm ne)

/-- What is left of a state in which only the active workspace is another. -/
theorem ensures_recalls (sound : s.Sound) (target : Workspace) :
    (Prog.onlyIf (s.manager.activeWindow = none) <|
      Prog.whenSome (s.manager.lock (s.workspaceToActive workspace)) fun w =>
        forEach (fun k => Prog.onlyIf (k = workspace) (applyWorkspaceVisibleTo fuel w))
          (s.manager.workspacesContaining w)).Ensures { s with activeWorkspace := target }
      (fun _ u => ∃ pre, s.Recalls workspace pre ∧
        Steps (Shell.Visited false) pre { s with activeWorkspace := target } u)
      (fun _ _ => False) (s.manager.Short fuel) := by
  rw [ensures_onlyIf]
  constructor
  · intro inactive
    rw [ensures_whenSome]
    constructor
    · intro w locked
      have live := (lock_eq_some.mp locked).2
      have managed := (sound.furnished.coherent.integrity.live w).mp live
      have start : ({ s with activeWorkspace := target } : Shell).Sound :=
        ⟨sound.titled, sound.furnished⟩
      refine (ensures_recall start managed _).imp ?_
      intro _ u after
      rcases after with ⟨n, some, listed, steps⟩
      refine ⟨List.replicate n w, ⟨fun v member => ?_, fun _ => inactive, fun _ v eq member => ?_⟩,
        steps⟩
      · obtain ⟨pos, rfl⟩ := List.mem_replicate.mp member
        exact ⟨locked, listed pos⟩
      · obtain rfl := Option.some.inj (locked.symm.trans eq)
        exact List.mem_replicate.mpr ⟨some member, rfl⟩
    · exact fun gone => ⟨[], ⟨by simp, by simp, fun _ w eq => by simp [gone] at eq⟩, .nil _⟩
  · exact fun active => ⟨[], ⟨by simp, by simp, fun inactive => absurd inactive active⟩, .nil _⟩

/-- The windows of the workspace that is left, the active one last. -/
theorem ensures_leave (sound : s.Sound) (active : Option Window) :
    Prog.Ensures (do
      let hidden ← windowsToSwitch workspace
      forEach (applyWorkspaceHiddenTo fuel) (hidden.filter fun w => some w ≠ active)
      Prog.whenSome (active.filter fun w => w ∈ hidden) fun w => do
        applyWorkspaceHiddenTo fuel w
        Prog.update (·.rememberActive workspace w)) s
      (fun _ u => ∃ hidden t, hidden = s.toSwitch workspace ∧
        Steps (Shell.Visited true) (hidden.filter (some · ≠ active) ++
          (active.filter (· ∈ hidden)).toList) s t ∧
        u = t.rememberIf workspace (active.filter (· ∈ hidden)))
      (fun _ _ => False) (s.manager.Short fuel) := by
  have integrity := sound.furnished.coherent.integrity
  rw [windowsToSwitch, ensures_bind, ensures_bind, ensures_state, ensures_pure, ensures_bind]
  have known (w : Window) (member : w ∈ s.toSwitch workspace) : s.manager.Managed w :=
    integrity.workspaces _ (mem_windowsIn.mp (List.mem_of_mem_filter member))
  change Prog.Ensures (forEach (applyWorkspaceHiddenTo fuel)
    ((s.toSwitch workspace).filter fun w => some w ≠ active)) s _ _ _
  refine (ensures_visits (fun _ _ => ensures_hidden) sound fun w member =>
    known w (List.mem_of_mem_filter member)).imp ?_
  intro _ t steps
  rw [ensures_whenSome]
  constructor
  · intro w last
    change active.filter (· ∈ s.toSwitch workspace) = some w at last
    have member : w ∈ s.toSwitch workspace := by
      simpa using (Option.filter_eq_some_iff.mp last).2
    have steady := Shell.steady_steps steps
    rw [ensures_bind]
    refine (ensures_hidden (Shell.sound_steps steps sound)
      (steady.managed.mpr (known w member))).mono ?_ (fun _ _ h => h) (Short.congr steady.parents)
    intro _ u visited
    refine ⟨_, u, rfl, ?_, by rw [last]; rfl⟩
    rw [last]
    exact steps_append.mpr ⟨t, steps, steps_singleton.mpr visited⟩
  · intro none
    change active.filter (· ∈ s.toSwitch workspace) = .none at none
    refine ⟨_, t, rfl, ?_, by rw [none]; rfl⟩
    rw [none]
    simpa using steps

/-- The program follows the script. -/
theorem ensures_switchWorkspaceTo (sound : s.Sound) (workspace : Workspace)
    (window : Option Window) :
    (switchWorkspaceTo fuel workspace window).Ensures s (fun _ u => s.Switched workspace window u)
      (fun _ _ => False) (s.manager.Short fuel) := by
  rw [switchWorkspaceTo, ensures_bind, ensures_state, ensures_onlyIf]
  refine ⟨fun leaves => ?_, fun stays => .stays (not_not.mp stays)⟩
  rw [ensures_bind, ensures_update, ensures_bind]
  refine (ensures_recalls sound workspace).imp ?_
  intro _ s₁ after
  rcases after with ⟨pre, recalls, recalled⟩
  have start : ({ s with activeWorkspace := workspace } : Shell).Sound :=
    ⟨sound.titled, sound.furnished⟩
  have sound₁ := Shell.sound_steps recalled start
  have steady₁ := Shell.steady_steps recalled
  have linked₁ := sound₁.furnished.coherent.integrity.toLinked
  have shorter {m : Model} (parents : ∀ v, m.parentOf v = s₁.manager.parentOf v)
      (short : m.Short fuel) : s.manager.Short fuel :=
    short.congr fun v => (parents v).trans (steady₁.parents v)
  rw [ensures_bind, ensures_managing]
  refine ((ensures_removeTreeFromWorkspace linked₁).and ensures_onTree_gone).mono ?_
    (fun _ _ h => h.1) fun short => shorter (fun _ => rfl) short.1
  intro _ m₁ after
  rcases after with ⟨⟨taken, windows, tree, removed⟩, gone⟩
  have inTree (v : Window) : m₁.InTree window v ↔ s₁.manager.InTree window v := taken.inTree
  have sound₂ : (s₁.setManager m₁).Sound := ⟨sound₁.titled, sound₁.furnished.regrouped taken
    fun pair member => sound₁.furnished.coherent.integrity.workspaces _
      ((removed pair.1 pair.2).mp member).1⟩
  have linked₂ := sound₂.furnished.coherent.integrity.toLinked
  rw [ensures_bind, ensures_managing]
  refine ((ensures_addTreeToWorkspace linked₂).and ensures_onTree_gone).mono ?_
    (fun _ _ h => h.1) fun short => shorter (fun v => congrFun taken.parentOf v) short.1
  intro _ m after
  rcases after with ⟨⟨joined, windows', tree', pairs⟩, idle⟩
  have carries : s₁.manager.Carries window s.activeWorkspace workspace m := by
    refine ⟨taken.trans joined, fun k v => ?_, fun dead => ?_⟩
    · rw [pairs]
      change (k, v) ∈ m₁.workspacesToWindows ∨ k = workspace ∧ v ∈ windows' ↔ _
      rw [removed, tree.mem, tree'.mem]
      change _ ∨ k = workspace ∧ m₁.InTree window v ↔ _
      rw [inTree]
    · obtain rfl := gone dead
      exact idle dead
  have sound₄ := sound₁.carried carries
  have known (w : Window) (member : w ∈ (s₁.setManager m).toSwitch workspace) : m.Managed w :=
    sound₄.furnished.coherent.integrity.workspaces _
      (mem_windowsIn.mp (List.mem_of_mem_filter member))
  have parents (v : Window) : m.parentOf v = s₁.manager.parentOf v :=
    congrFun carries.regrouped.parentOf v
  rw [windowsToSwitch, ensures_bind, ensures_bind, ensures_state, ensures_pure, ensures_bind]
  refine (ensures_visits (fun _ _ => ensures_visible) sound₄ known).mono ?_ (fun _ _ h => h)
    (shorter parents)
  intro _ s₂ shown
  have steady₂ := Shell.steady_steps shown
  refine (ensures_leave (Shell.sound_steps shown sound₄) s.manager.activeWindow).mono ?_
    (fun _ _ h => h) (shorter fun v => (steady₂.parents v).trans (parents v))
  intro _ _ after
  rcases after with ⟨hidden, s₃, eq, left, rfl⟩
  exact .goes leaves recalls recalled carries shown eq left

end TitlebarPolicy

end Miral
