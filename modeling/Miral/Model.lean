import Miral.Library.Program
import Miral.Library.Forest
import Miral.Placement
import Mathlib.Data.List.AList

/-! The state of `BasicWindowManager`, the surfaces and the focus controller it drives,
and the accessors the rest of the model reads it with. -/
namespace Miral

open Program

abbrev Workspace := Nat

/-- A `scene::Surface`, as far as window management reads or sets it. `posted` is
whether the client has submitted a buffer; `hidden` is what `hide` and `show` set. -/
structure Surface where
  topLeft : Point
  size : Size
  state : WindowState
  type : WindowType
  name : String
  inputRegion : List Rectangle
  hidden : Bool
  posted : Bool
  confinePointer : PointerConfinementState
  deriving DecidableEq

/-- `scene::Surface::visible()`. -/
def Surface.visible (surface : Surface) : Bool := surface.posted && !surface.hidden

structure Focus where
  session : Option Application
  surface : Option Window
  deriving DecidableEq

/-- `shell::FocusController` is not part of the repository: `nextSession` is what its
`focus_next_session` makes of the live surfaces and the present focus. It focuses the
default surface of the next session that has one. -/
structure FocusController where
  nextSession : List Window → Focus → Focus
  finds : ∀ surfaces focus, surfaces ≠ [] →
    ∃ w ∈ surfaces, nextSession surfaces focus = ⟨some w.application, some w⟩

/-- `shell::DisplayLayout` is not part of the repository either. `placeInOutput` is the
rectangle it places, or nothing when it reports failure. -/
structure DisplayLayout where
  placeInOutput : Int → Rectangle → Option Rectangle
  sizeToOutput : Rectangle → Rectangle

/-- A focus controller that goes to the most recent surface. -/
def FocusController.latest : FocusController where
  nextSession surfaces focus :=
    match surfaces with
    | w :: _ => ⟨some w.application, some w⟩
    | [] => focus
  finds surfaces focus nonempty := by
    cases surfaces with
    | nil => contradiction
    | cons w rest => exact ⟨w, by simp, rfl⟩

def DisplayLayout.single (id : Int) (area : Rectangle) : DisplayLayout where
  placeInOutput output _ := if output = id then some area else none
  sizeToOutput _ := area

structure ApplicationInfo where
  windows : List Window
  deriving DecidableEq

/-- The notifications the policies receive, and the calls made on the focus controller
and on surfaces that nothing in the model reads back. -/
inductive Event where
  | adviseNewApp (application : Application)
  | adviseNewWindow (window : Window)
  | adviseFocusLost (window : Window)
  | adviseFocusGained (window : Window)
  | adviseStateChange (window : Window) (state : WindowState)
  | adviseMoveTo (window : Window) (topLeft : Point)
  | adviseResize (window : Window) (size : Size)
  | adviseDeleteWindow (window : Window)
  | adviseRaise (windows : List Window)
  | adviseAddingToWorkspace (workspace : Workspace) (windows : List Window)
  | adviseRemovingFromWorkspace (workspace : Workspace) (windows : List Window)
  | setFocusTo (session : Option Application) (surface : Option Window)
  | focusNextSession
  | raise (windows : List Window)
  | placedRelative (window : Window) (placement : Rectangle)
  deriving DecidableEq

/-- `mruActiveWindows` is ordered from least to most recently active, as the vector is.
`workspacesToWindows` holds the pairs of the bimap in the order they were inserted, which
is the order both of its multisets keep among equal keys. -/
structure Model where
  focusController : FocusController
  displayLayout : DisplayLayout
  appInfo : AList fun _ : Application => ApplicationInfo
  windowInfo : AList fun _ : Window => WindowInfo
  scene : AList fun _ : Window => Surface
  displays : List Rectangle
  cursor : Point
  lastInputEventTimestamp : Nat
  focus : Focus
  mruActiveWindows : List Window
  fullscreenSurfaces : List Window
  workspacesToWindows : List (Workspace × Window)
  liveWorkspaces : List Workspace
  deadWorkspaces : List Workspace
  log : List Event

abbrev Manager (α : Type) := Prog Failure Model α

namespace Model

variable (s : Model)

def initial (focusController : FocusController) (displayLayout : DisplayLayout) : Model where
  focusController := focusController
  displayLayout := displayLayout
  appInfo := ∅
  windowInfo := ∅
  scene := ∅
  displays := []
  cursor := ⟨0, 0⟩
  lastInputEventTimestamp := 0
  focus := ⟨none, none⟩
  mruActiveWindows := []
  fullscreenSurfaces := []
  workspacesToWindows := []
  liveWorkspaces := []
  deadWorkspaces := []
  log := []

def info? (w : Window) : Option WindowInfo := s.windowInfo.lookup w
def app? (a : Application) : Option ApplicationInfo := s.appInfo.lookup a
def surface? (w : Window) : Option Surface := s.scene.lookup w

def Managed (w : Window) : Prop := (s.info? w).isSome
def Live (w : Window) : Prop := (s.surface? w).isSome

instance : DecidablePred s.Managed := fun _ => inferInstanceAs (Decidable (_ = true))
instance : DecidablePred s.Live := fun _ => inferInstanceAs (Decidable (_ = true))

/-- `weak_ptr::lock`, and the truth value of a `Window`. -/
def lock : Option Window → Option Window
  | some w => if s.Live w then some w else none
  | none => none

/-- `Window::top_left()`, which is the origin for a dead surface. -/
def topLeft (w : Window) : Point :=
  match s.surface? w with
  | some surface => surface.topLeft
  | none => ⟨0, 0⟩

def size (w : Window) : Size :=
  match s.surface? w with
  | some surface => surface.size
  | none => ⟨0, 0⟩

def rect (w : Window) : Rectangle := ⟨s.topLeft w, s.size w⟩

def parentOf (w : Window) : Option Window := (s.info? w).bind WindowInfo.parent

/-- `visible` of the MRU list, which asks the surface for its state. The source
dereferences the surface of every entry; entries are live whenever it does. -/
def visible (w : Window) : Bool :=
  match s.surface? w with
  | some surface => !surface.state.concealed && surface.visible
  | none => false

/-- `WindowInfo::is_visible`, which asks the record for its state. -/
def isVisible (w : Window) (info : WindowInfo) : Bool :=
  match s.surface? w with
  | some surface => !info.state.concealed && surface.visible
  | none => false

/-- `active_window()`: `MRUWindowList::top()`. -/
def activeWindow : Option Window := s.mruActiveWindows.reverse.find? s.visible

def setInfo (w : Window) (info : WindowInfo) : Model :=
  { s with windowInfo := s.windowInfo.insert w info }

def setApp (a : Application) (info : ApplicationInfo) : Model :=
  { s with appInfo := s.appInfo.insert a info }

def configure (w : Window) (f : Surface → Surface) : Model :=
  match s.surface? w with
  | some surface => { s with scene := s.scene.insert w (f surface) }
  | none => s

def emit (event : Event) : Model := { s with log := s.log ++ [event] }

def pushMru (w : Window) : Model :=
  { s with mruActiveWindows := s.mruActiveWindows.filter (· ≠ w) ++ [w] }

def eraseMru (w : Window) : Model :=
  { s with mruActiveWindows := s.mruActiveWindows.filter (· ≠ w) }

def insertFullscreen (w : Window) : Model :=
  { s with fullscreenSurfaces :=
      if w ∈ s.fullscreenSurfaces then s.fullscreenSurfaces else s.fullscreenSurfaces ++ [w] }

def eraseFullscreen (w : Window) : Model :=
  { s with fullscreenSurfaces := s.fullscreenSurfaces.filter (· ≠ w) }

/-- The live workspaces paired with `w`, in the order of the bimap. -/
def workspacesContaining (w : Window) : List Workspace :=
  (s.workspacesToWindows.filter fun pair => pair.2 = w ∧ pair.1 ∈ s.liveWorkspaces).map Prod.fst

/-- The windows paired with `workspace`, in the order of the bimap. -/
def windowsIn (workspace : Workspace) : List Window :=
  (s.workspacesToWindows.filter fun pair => pair.1 = workspace).map Prod.snd

/-- The double loop over the workspaces of a window and a given list. -/
def sharesWorkspace (w : Window) (workspaces : List Workspace) : Bool :=
  (s.workspacesContaining w).any fun workspace => workspaces.any (· = workspace)

/-- The display with the largest overlap; the first one wins a tie. -/
def largestOverlap (surface : Rectangle) : List Rectangle → Int → Rectangle → Rectangle
  | [], _, result => result
  | display :: rest, maxOverlap, result =>
    let shared := (surface.intersectionWith display).size
    if shared.width * shared.height > maxOverlap then
      largestOverlap surface rest (shared.width * shared.height) display
    else largestOverlap surface rest maxOverlap result

/-- `active_display()`. -/
def activeDisplay : Rectangle :=
  match s.lock s.focus.surface with
  | some w => largestOverlap (s.rect w) s.displays (-1) default
  | none =>
    match s.displays.find? (·.containsPoint s.cursor) with
    | some display => display
    | none => s.displays.headD default

section Lookup

variable {s} {w v : Window} {a b : Application}

@[simp] theorem info?_setInfo (info : WindowInfo) :
    (s.setInfo w info).info? v = if v = w then some info else s.info? v := by
  by_cases eq : v = w
  · subst eq
    simp [info?, setInfo]
  · simp [info?, setInfo, eq]

@[simp] theorem app?_setApp (info : ApplicationInfo) :
    (s.setApp a info).app? b = if b = a then some info else s.app? b := by
  by_cases eq : b = a
  · subst eq
    simp [app?, setApp]
  · simp [app?, setApp, eq]

@[simp] theorem info?_emit {event : Event} : (s.emit event).info? w = s.info? w := rfl

@[simp] theorem surface?_emit {event : Event} : (s.emit event).surface? w = s.surface? w := rfl

@[simp] theorem surface?_setInfo (info : WindowInfo) :
    (s.setInfo w info).surface? v = s.surface? v := rfl

theorem configure_eq (f : Surface → Surface) :
    s.configure w f = { s with scene := (s.configure w f).scene } := by
  unfold configure
  split <;> rfl

@[simp] theorem surface?_configure (f : Surface → Surface) :
    (s.configure w f).surface? v = if v = w then (s.surface? v).map f else s.surface? v := by
  unfold configure
  by_cases eq : v = w
  · subst eq
    cases here : s.surface? v with
    | none => simp [here]
    | some surface => simp [surface?]
  · cases here : s.surface? w with
    | none => simp [eq]
    | some surface => simp [surface?, eq]

@[simp] theorem live_configure (f : Surface → Surface) :
    (s.configure w f).Live v ↔ s.Live v := by
  by_cases eq : v = w <;> simp [Live, eq]

theorem managed_iff : s.Managed w ↔ ∃ info, s.info? w = some info := Option.isSome_iff_exists

theorem live_iff : s.Live w ↔ ∃ surface, s.surface? w = some surface :=
  Option.isSome_iff_exists

theorem parentOf_eq {info : WindowInfo} (here : s.info? w = some info) :
    s.parentOf w = info.parent := by
  simp [parentOf, here]

theorem managed_of_parentOf (link : s.parentOf w = some v) : s.Managed w := by
  cases here : s.info? w with
  | none => simp [parentOf, here] at link
  | some info => simp [Managed, here]

theorem lock_eq_some {hint : Option Window} : s.lock hint = some w ↔ hint = some w ∧ s.Live w := by
  cases hint with
  | none => simp [lock]
  | some v =>
    by_cases live : s.Live v
    · simp only [lock, live, ↓reduceIte, Option.some.injEq]
      constructor
      · rintro rfl
        exact ⟨rfl, live⟩
      · exact And.left
    · simp only [lock, live, ↓reduceIte, reduceCtorEq, Option.some.injEq, false_iff, not_and]
      rintro rfl
      exact live

theorem lock_some (live : s.Live w) : s.lock (some w) = some w := lock_eq_some.mpr ⟨rfl, live⟩

theorem lock_none : s.lock none = none := rfl

theorem visible_live (seen : s.visible w) : s.Live w := by
  cases here : s.surface? w with
  | none => simp [visible, here] at seen
  | some surface => simp [Live, here]

theorem isVisible_live {info : WindowInfo} (seen : s.isVisible w info) : s.Live w := by
  cases here : s.surface? w with
  | none => simp [isVisible, here] at seen
  | some surface => simp [Live, here]

theorem mem_windowsIn {workspace : Workspace} :
    w ∈ s.windowsIn workspace ↔ (workspace, w) ∈ s.workspacesToWindows := by
  simp [windowsIn]

theorem mem_workspacesContaining {workspace : Workspace} :
    workspace ∈ s.workspacesContaining w ↔
      (workspace, w) ∈ s.workspacesToWindows ∧ workspace ∈ s.liveWorkspaces := by
  simp only [workspacesContaining, List.mem_map, List.mem_filter, decide_eq_true_eq, Prod.exists,
    exists_and_right, exists_eq_right]
  constructor
  · rintro ⟨v, member, rfl, live⟩
    exact ⟨member, live⟩
  · rintro ⟨member, live⟩
    exact ⟨w, member, rfl, live⟩

theorem sharesWorkspace_iff {workspaces : List Workspace} :
    s.sharesWorkspace w workspaces ↔ ∃ workspace ∈ workspaces,
      workspace ∈ s.workspacesContaining w := by
  simp only [sharesWorkspace, List.any_eq_true, decide_eq_true_eq]
  constructor
  · rintro ⟨a, member, b, shared, rfl⟩
    exact ⟨b, shared, member⟩
  · rintro ⟨a, shared, member⟩
    exact ⟨a, member, a, shared, rfl⟩

theorem activeWindow_mem (active : s.activeWindow = some w) : w ∈ s.mruActiveWindows :=
  List.mem_reverse.mp (List.mem_of_find?_eq_some active)

theorem activeWindow_visible (active : s.activeWindow = some w) : s.visible w :=
  List.find?_some active

theorem activeWindow_eq_none : s.activeWindow = none ↔ ∀ w ∈ s.mruActiveWindows, ¬s.visible w := by
  simp [activeWindow]

theorem activeWindow_concat {mru : List Window} (last : s.mruActiveWindows = mru ++ [w])
    (seen : s.visible w) : s.activeWindow = some w := by
  simp [activeWindow, last, seen]

end Lookup

end Model

/-- `info_for(window)`. -/
def infoFor (w : Window) : Manager WindowInfo := do
  let s ← Prog.state
  match s.info? w with
  | some info => pure info
  | none => Prog.fail .outOfRange

/-- `info_for(weak_ptr)`: a null pointer is no key of the map. -/
def infoForWeak : WeakSurface → Manager Window
  | some w => do
    let _ ← infoFor w
    pure w
  | none => Prog.fail .outOfRange

def infoForSession (a : Application) : Manager ApplicationInfo := do
  let s ← Prog.state
  match s.app? a with
  | some info => pure info
  | none => Prog.fail .outOfRange

def setInfo (w : Window) (info : WindowInfo) : Manager Unit := Prog.update (·.setInfo w info)

/-- A change of one record through the reference `info_for` returns. -/
def modifyInfo (w : Window) (f : WindowInfo → WindowInfo) : Manager Unit := do
  let info ← infoFor w
  setInfo w (f info)

def modifySession (a : Application) (f : ApplicationInfo → ApplicationInfo) : Manager Unit := do
  let info ← infoForSession a
  Prog.update (·.setApp a (f info))

def configure (w : Window) (f : Surface → Surface) : Manager Unit :=
  Prog.update (·.configure w f)

def emit (event : Event) : Manager Unit := Prog.update (·.emit event)

section Rules

variable {s : Model} {w : Window} {α : Type} {error : Failure → Model → Prop} {short : Prop}

@[simp] theorem ensures_infoFor {post : WindowInfo → Model → Prop} :
    (infoFor w).Ensures s post error short ↔
      (∀ info, s.info? w = some info → post info s) ∧
        (s.info? w = none → error .outOfRange s) := by
  rw [infoFor, Prog.ensures_bind, Prog.ensures_state]
  cases s.info? w <;> simp

theorem ensures_infoFor_here {info : WindowInfo} (here : s.info? w = some info)
    {post : WindowInfo → Model → Prop} :
    (infoFor w).Ensures s post error short ↔ post info s := by
  simp [here]

@[simp] theorem ensures_infoForSession {a : Application} {post : ApplicationInfo → Model → Prop} :
    (infoForSession a).Ensures s post error short ↔
      (∀ info, s.app? a = some info → post info s) ∧
        (s.app? a = none → error .outOfRange s) := by
  rw [infoForSession, Prog.ensures_bind, Prog.ensures_state]
  cases s.app? a <;> simp

@[simp] theorem ensures_setInfo {info : WindowInfo} {post : Unit → Model → Prop} :
    (setInfo w info).Ensures s post error short ↔ post () (s.setInfo w info) := Iff.rfl

@[simp] theorem ensures_configure {f : Surface → Surface} {post : Unit → Model → Prop} :
    (configure w f).Ensures s post error short ↔ post () (s.configure w f) := Iff.rfl

@[simp] theorem ensures_emit {event : Event} {post : Unit → Model → Prop} :
    (emit event).Ensures s post error short ↔ post () (s.emit event) := Iff.rfl

@[simp] theorem ensures_modifyInfo {f : WindowInfo → WindowInfo} {post : Unit → Model → Prop} :
    (modifyInfo w f).Ensures s post error short ↔
      (∀ info, s.info? w = some info → post () (s.setInfo w (f info))) ∧
        (s.info? w = none → error .outOfRange s) := by
  simp [modifyInfo]

theorem ensures_modifyInfo_here {info : WindowInfo} (here : s.info? w = some info)
    {f : WindowInfo → WindowInfo} {post : Unit → Model → Prop} :
    (modifyInfo w f).Ensures s post error short ↔ post () (s.setInfo w (f info)) := by
  simp [here]

@[simp] theorem ensures_modifySession {a : Application} {f : ApplicationInfo → ApplicationInfo}
    {post : Unit → Model → Prop} :
    (modifySession a f).Ensures s post error short ↔
      (∀ info, s.app? a = some info → post () (s.setApp a (f info))) ∧
        (s.app? a = none → error .outOfRange s) := by
  simp [modifySession]

theorem ensures_modifySession_here {a : Application} {app : ApplicationInfo}
    (found : s.app? a = some app) {f : ApplicationInfo → ApplicationInfo}
    {post : Unit → Model → Prop} :
    (modifySession a f).Ensures s post error short ↔ post () (s.setApp a (f app)) := by
  simp [found]

end Rules

end Miral
