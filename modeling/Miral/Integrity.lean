import Miral.Manager

/-! Referential integrity: the records, the lists kept beside them and the surfaces speak
of the same windows. It is stated over projections of the state, so that an update is
described once, by what it does to each projection. -/
namespace Miral

namespace Model

variable {s t u : Model} {w v p c : Window} {a : Application}

def childrenOf (s : Model) (w : Window) : List Window :=
  match s.info? w with
  | some info => info.children
  | none => []

def windowsOf (s : Model) (a : Application) : List Window :=
  match s.app? a with
  | some info => info.windows
  | none => []

def stateOf (s : Model) (w : Window) : Option WindowState := (s.info? w).map WindowInfo.state

def typeOf (s : Model) (w : Window) : Option WindowType := (s.info? w).map WindowInfo.type

theorem childrenOf_eq {info : WindowInfo} (here : s.info? w = some info) :
    s.childrenOf w = info.children := by
  simp [childrenOf, here]

theorem windowsOf_eq {info : ApplicationInfo} (here : s.app? a = some info) :
    s.windowsOf a = info.windows := by
  simp [windowsOf, here]

theorem stateOf_eq {info : WindowInfo} (here : s.info? w = some info) :
    s.stateOf w = some info.state := by
  simp [stateOf, here]

theorem typeOf_eq {info : WindowInfo} (here : s.info? w = some info) :
    s.typeOf w = some info.type := by
  simp [typeOf, here]

section SetInfo

variable {info : WindowInfo}

@[simp] theorem managed_setInfo : (s.setInfo w info).Managed v ↔ v = w ∨ s.Managed v := by
  by_cases eq : v = w <;> simp [Managed, eq]

@[simp] theorem parentOf_setInfo :
    (s.setInfo w info).parentOf v = if v = w then info.parent else s.parentOf v := by
  by_cases eq : v = w <;> simp [parentOf, eq]

@[simp] theorem childrenOf_setInfo :
    (s.setInfo w info).childrenOf v = if v = w then info.children else s.childrenOf v := by
  by_cases eq : v = w <;> simp [childrenOf, eq]

@[simp] theorem stateOf_setInfo :
    (s.setInfo w info).stateOf v = if v = w then some info.state else s.stateOf v := by
  by_cases eq : v = w <;> simp [stateOf, eq]

@[simp] theorem typeOf_setInfo :
    (s.setInfo w info).typeOf v = if v = w then some info.type else s.typeOf v := by
  by_cases eq : v = w <;> simp [typeOf, eq]

@[simp] theorem windowsOf_setInfo : (s.setInfo w info).windowsOf a = s.windowsOf a := rfl

@[simp] theorem live_setInfo : (s.setInfo w info).Live v ↔ s.Live v := Iff.rfl

end SetInfo

@[simp] theorem windowsOf_setApp {info : ApplicationInfo} {b : Application} :
    (s.setApp a info).windowsOf b = if b = a then info.windows else s.windowsOf b := by
  by_cases eq : b = a <;> simp [windowsOf, eq]

@[simp] theorem info?_configure (f : Surface → Surface) :
    (s.configure w f).info? v = s.info? v := by
  rw [configure_eq]
  rfl

@[simp] theorem managed_configure (f : Surface → Surface) :
    (s.configure w f).Managed v ↔ s.Managed v := by
  simp [Managed]

@[simp] theorem mru_configure (f : Surface → Surface) :
    (s.configure w f).mruActiveWindows = s.mruActiveWindows := by
  rw [configure_eq]

@[simp] theorem log_configure (f : Surface → Surface) : (s.configure w f).log = s.log := by
  rw [configure_eq]

/-- `t` has the records, trees, lists, workspaces and surfaces of `s`. The MRU list, the
focus, the geometry and the other attributes of windows may differ. -/
structure SameStructure (s t : Model) : Prop where
  live : ∀ w, t.Live w ↔ s.Live w
  managed : ∀ w, t.Managed w ↔ s.Managed w
  parents : ∀ w, t.parentOf w = s.parentOf w
  children : ∀ w, t.childrenOf w = s.childrenOf w
  windows : ∀ a, t.windowsOf a = s.windowsOf a
  states : ∀ w, t.stateOf w = s.stateOf w
  fullscreen : t.fullscreenSurfaces = s.fullscreenSurfaces
  workspaces : t.workspacesToWindows = s.workspacesToWindows
  living : t.liveWorkspaces = s.liveWorkspaces
  dead : t.deadWorkspaces = s.deadWorkspaces

namespace SameStructure

theorem of_frame (frame : t = { s with
      displayLayout := t.displayLayout
      displays := t.displays
      cursor := t.cursor
      lastInputEventTimestamp := t.lastInputEventTimestamp
      focus := t.focus
      mruActiveWindows := t.mruActiveWindows
      log := t.log }) : SameStructure s t := by
  rw [frame]
  exact ⟨fun _ => Iff.rfl, fun _ => Iff.rfl, fun _ => rfl, fun _ => rfl, fun _ => rfl,
    fun _ => rfl, rfl, rfl, rfl, rfl⟩

theorem refl : SameStructure s s := of_frame rfl

theorem trans (h : SameStructure s t) (h' : SameStructure t u) : SameStructure s u where
  live w := (h'.live w).trans (h.live w)
  managed w := (h'.managed w).trans (h.managed w)
  parents w := (h'.parents w).trans (h.parents w)
  children w := (h'.children w).trans (h.children w)
  windows a := (h'.windows a).trans (h.windows a)
  states w := (h'.states w).trans (h.states w)
  fullscreen := h'.fullscreen.trans h.fullscreen
  workspaces := h'.workspaces.trans h.workspaces
  living := h'.living.trans h.living
  dead := h'.dead.trans h.dead

theorem configure (f : Surface → Surface) : SameStructure s (s.configure w f) where
  live _ := live_configure f
  managed v := by rw [configure_eq]; exact Iff.rfl
  parents v := by rw [configure_eq]; rfl
  children v := by rw [configure_eq]; rfl
  windows a := by rw [configure_eq]; rfl
  states v := by rw [configure_eq]; rfl
  fullscreen := by rw [configure_eq]
  workspaces := by rw [configure_eq]
  living := by rw [configure_eq]
  dead := by rw [configure_eq]

/-- A record may change in everything but its links and its state. -/
theorem setInfo {old new : WindowInfo} (here : s.info? w = some old)
    (parent : new.parent = old.parent) (children : new.children = old.children)
    (state : new.state = old.state) : SameStructure s (s.setInfo w new) where
  live _ := Iff.rfl
  managed v := by
    rw [managed_setInfo, or_iff_right_of_imp]
    rintro rfl
    exact managed_iff.mpr ⟨old, here⟩
  parents v := by
    by_cases eq : v = w
    · simp [eq, parent, parentOf_eq here]
    · simp [eq]
  children v := by
    by_cases eq : v = w
    · simp [eq, children, childrenOf_eq here]
    · simp [eq]
  windows _ := rfl
  states v := by
    by_cases eq : v = w
    · simp [eq, state, stateOf_eq here]
    · simp [eq]
  fullscreen := rfl
  workspaces := rfl
  living := rfl
  dead := rfl

theorem workspacesContaining (h : SameStructure s t) :
    t.workspacesContaining w = s.workspacesContaining w := by
  simp [Model.workspacesContaining, h.workspaces, h.living]

end SameStructure

/-- Parents and children know of each other, and a record stands for a live surface. -/
structure Linked (s : Model) : Prop where
  live : ∀ w, s.Live w ↔ s.Managed w
  children : ∀ p c, (s.childrenOf p).count c = if s.parentOf c = some p then 1 else 0

/-- What the records, the lists kept beside them and the surfaces say of one another. -/
structure Integrity (s : Model) : Prop extends Linked s where
  windows : ∀ a w, (s.windowsOf a).count w = if s.Managed w ∧ w.application = a then 1 else 0
  mru : ∀ w ∈ s.mruActiveWindows, s.Managed w
  fullscreen : ∀ w, w ∈ s.fullscreenSurfaces ↔ s.stateOf w = some .fullscreen
  workspaces : ∀ pair ∈ s.workspacesToWindows, s.Managed pair.2
  retired : ∀ k ∈ s.deadWorkspaces, k ∉ s.liveWorkspaces

namespace Linked

variable {info : WindowInfo}

theorem mem_childrenOf (linked : s.Linked) : c ∈ s.childrenOf p ↔ s.parentOf c = some p := by
  rw [← List.count_pos_iff, linked.children]
  split <;> simp_all

theorem mem_children (linked : s.Linked) (here : s.info? p = some info) :
    c ∈ info.children ↔ s.parentOf c = some p := by
  rw [← linked.mem_childrenOf, childrenOf_eq here]

theorem children_nodup (linked : s.Linked) (here : s.info? p = some info) :
    info.children.Nodup := by
  rw [List.nodup_iff_count_le_one, ← childrenOf_eq here]
  intro c
  rw [linked.children]
  split <;> simp

theorem managed_parent (linked : s.Linked) (link : s.parentOf c = some p) :
    s.Managed p := by
  have member := linked.mem_childrenOf.mpr link
  cases here : s.info? p with
  | none => simp [childrenOf, here] at member
  | some info => exact managed_iff.mpr ⟨info, here⟩

theorem live_parent (linked : s.Linked) (link : s.parentOf c = some p) : s.Live p :=
  (linked.live p).mpr (linked.managed_parent link)

theorem lock_parent (linked : s.Linked) (here : s.info? w = some info) :
    s.lock info.parent = info.parent := by
  cases link : info.parent with
  | none => rfl
  | some p => exact lock_some (linked.live_parent ((parentOf_eq here).trans link))

theorem managed_child (linked : s.Linked) (here : s.info? p = some info)
    (member : c ∈ info.children) : s.Managed c :=
  managed_of_parentOf ((linked.mem_children here).mp member)

end Linked

namespace Integrity

theorem initial (focusController : FocusController) (displayLayout : DisplayLayout) :
    (Model.initial focusController displayLayout).Integrity := by
  refine ⟨⟨?_, ?_⟩, ?_, ?_, ?_, ?_, ?_⟩ <;>
    simp [Model.initial, Live, surface?, Managed, info?, childrenOf, parentOf, windowsOf, app?,
      stateOf]

theorem sameStructure (integrity : s.Integrity) (same : SameStructure s t)
    (mru : ∀ w ∈ t.mruActiveWindows, s.Managed w) : t.Integrity where
  live w := by rw [same.live, same.managed, integrity.live]
  children p c := by rw [same.children, same.parents, integrity.children]
  windows a w := by simp only [same.windows, same.managed, integrity.windows]
  mru w member := (same.managed w).mpr (mru w member)
  fullscreen w := by rw [same.fullscreen, same.states, integrity.fullscreen]
  workspaces pair member :=
    (same.managed _).mpr (integrity.workspaces pair (by rwa [← same.workspaces]))
  retired := by
    rw [same.dead, same.living]
    exact integrity.retired

theorem mem_windowsOf (integrity : s.Integrity) :
    w ∈ s.windowsOf a ↔ s.Managed w ∧ w.application = a := by
  rw [← List.count_pos_iff, integrity.windows]
  split <;> simp_all

theorem live_mru (integrity : s.Integrity) (member : w ∈ s.mruActiveWindows) : s.Live w :=
  (integrity.live w).mpr (integrity.mru w member)

theorem app_exists (integrity : s.Integrity) (managed : s.Managed w) :
    ∃ info, s.app? w.application = some info := by
  have member := integrity.mem_windowsOf.mpr ⟨managed, rfl⟩
  cases here : s.app? w.application with
  | none => simp [windowsOf, here] at member
  | some info => exact ⟨info, rfl⟩

theorem managed_active (integrity : s.Integrity) (active : s.activeWindow = some w) :
    s.Managed w :=
  integrity.mru w (activeWindow_mem active)

theorem live_of_info (integrity : s.Integrity) {info : WindowInfo}
    (here : s.info? w = some info) : s.Live w :=
  (integrity.live w).mpr (managed_iff.mpr ⟨info, here⟩)

theorem info_of_live (integrity : s.Integrity) (live : s.Live w) :
    ∃ info, s.info? w = some info :=
  managed_iff.mp ((integrity.live w).mp live)

end Integrity

end Model

end Miral
