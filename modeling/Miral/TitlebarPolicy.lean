import Miral.Manager

/-! `TitlebarWindowManagerPolicy` on top of the manager: what its callbacks do while the manager
is at work, and the four workspaces it switches between. Painting a titlebar and raising the
spinner change nothing the model knows of. `WorkspacePolicy` is a private base of the class: the
manager's `dynamic_cast` does not find it, and `advise_adding_to_workspace` is never called. -/
namespace Miral

open Program

/-- `PolicyData`, the userdata of every window. -/
structure PolicyData where
  inHiddenWorkspace : Bool := false
  oldState : WindowState := .unknown
  deriving DecidableEq

/-- The keys of `key_to_workspace`. -/
inductive WorkspaceKey where
  | f1 | f2 | f3 | f4
  deriving DecidableEq

/-- The manager with its policy. `decorations` is the session of the decoration provider, and
`titlebar` the windows in its `window_to_titlebar`. -/
structure Shell where
  manager : Model
  policyData : Window → PolicyData
  decorations : Option Application
  titlebar : Window → Option Window
  keyToWorkspace : WorkspaceKey → Workspace
  activeWorkspace : Workspace
  workspaceToActive : Workspace → Option Window

abbrev TitlebarPolicy (α : Type) := Prog Failure Shell α

namespace Shell

variable (s : Shell)

/-- `is_decoration`. -/
def IsDecoration (w : Window) : Prop := some w.application = s.decorations

instance : DecidablePred s.IsDecoration := fun _ => inferInstanceAs (Decidable (_ = _))

def setManager (m : Model) : Shell := { s with manager := m }

/-- A change of the data `policy_data_for` returns. -/
def setPolicyData (w : Window) (data : PolicyData) : Shell :=
  { s with policyData := fun v => if v = w then data else s.policyData v }

/-- An assignment to `workspace_to_active`. -/
def rememberActive (workspace : Workspace) (w : Window) : Shell :=
  { s with workspaceToActive := fun ws =>
      if ws = workspace then some w else s.workspaceToActive ws }

end Shell

def titleBarHeight : Int := 12

/-- The state of a titlebar, for that of its window. -/
def WindowState.ofTitlebar : WindowState → WindowState
  | .maximized | .vertmaximized | .hidden | .minimized | .fullscreen => .hidden
  | _ => .restored

/-- `modify_window` up to the geometry, where no callback comes in between. -/
def beginModification (w : Window) (modifications : WindowSpecification) : Manager Unit := do
  let tmp ← requestedInfo w modifications
  swapInfo w tmp
  updateSurface w modifications
  cacheRestoreRect w modifications

/-- `set_state` from its switch on, of a window whose state was `previous`. -/
def finishState (fuel : Nat) (w : Window) (previous value : WindowState) : Manager Unit :=
  if value.concealed then do
    modifyInfo w ({ · with state := value })
    let s ← Prog.state
    Prog.onlyIf (s.activeWindow = some w) (moveFocusFrom fuel w)
    configure w ({ · with state := value })
    configure w ({ · with hidden := true })
  else do
    let s ← Prog.state
    modifyInfo w ({ · with state := value })
    configure w ({ · with state := value })
    configure w ({ · with hidden := false })
    Prog.onlyIf (previous.concealed ∧ s.activeWindow = none) do
      let _ ← selectActiveWindow fuel (some w)
      pure ()

namespace TitlebarPolicy

/-- The manager at work, with no callback that matters. -/
def managing {α : Type} (p : Manager α) : TitlebarPolicy α := p.zoom Shell.manager Shell.setManager

/-- `resize_titlebar_for`, which is all that `advise_resize` does. -/
def resizeTitlebarFor (w : Window) (size : Size) : TitlebarPolicy Unit := do
  let s ← Prog.state
  Prog.onlyIf ((s.manager.size w).width ≠ size.width) <|
    Prog.whenSome (s.manager.lock (s.titlebar w)) fun titlebar =>
      managing (configure titlebar ({ · with size := ⟨size.width, titleBarHeight⟩ }))

/-- `place_and_size`. -/
def placeAndSize (fuel : Nat) (root : Window) (newPos : Point) (newSize : Size) :
    TitlebarPolicy Unit := do
  let s ← Prog.state
  Prog.onlyIf (s.manager.size root ≠ newSize) do
    managing (emit (.adviseResize root newSize))
    resizeTitlebarFor root newSize
    managing (configure root ({ · with size := newSize }))
  let s ← Prog.state
  managing (moveTree fuel root (newPos - s.manager.topLeft root))

/-- `set_state`; `advise` is the policy's `advise_state_change`. -/
def setState (advise : Window → WindowState → TitlebarPolicy Unit) (fuel : Nat) (w : Window)
    (value : WindowState) : TitlebarPolicy Unit := do
  let info ← managing (infoFor w)
  managing (Prog.update fun s =>
    if value ≠ .fullscreen then s.eraseFullscreen w else s.insertFullscreen w)
  Prog.onlyIf (info.state ≠ value) do
    managing (emit (.adviseStateChange w value))
    advise w value
    managing (finishState fuel w info.state value)

def updateGeometry (fuel : Nat) (w : Window) (modifications : WindowSpecification) :
    TitlebarPolicy Unit := do
  let info ← managing (infoFor w)
  let s ← Prog.state
  let newPos := modifications.topLeft.getD (s.manager.topLeft w)
  match modifications.size with
  | some size => placeAndSize fuel w newPos size
  | none =>
    if modifications.constrains then do
      let (pos, size) ← Prog.ofExcept
        (info.constrainResize (s.manager.rect w) newPos (s.manager.size w))
      placeAndSize fuel w pos size
    else Prog.onlyIf modifications.topLeft.isSome <|
      placeAndSize fuel w newPos (s.manager.size w)

def updatePlacement (fuel : Nat) (w : Window) (modifications : WindowSpecification) :
    TitlebarPolicy Unit :=
  Prog.onlyIf modifications.placementHints.isSome do
    let info ← managing (infoFor w)
    let s ← Prog.state
    Prog.whenSome (s.manager.lock info.parent) fun parent => do
      let rect ← Prog.ofExcept (placeRelative s.manager.activeDisplay (s.manager.rect parent)
        modifications (s.manager.size w))
      placeAndSize fuel w rect.topLeft rect.size
      let s ← Prog.state
      let origin := s.manager.topLeft parent
      managing (emit (.placedRelative w
        ⟨⟨(s.manager.topLeft w).x - origin.x, (s.manager.topLeft w).y - origin.y⟩,
          s.manager.size w⟩))

/-- `modify_window`. -/
def modifyWindowWith (advise : Window → WindowState → TitlebarPolicy Unit) (fuel : Nat)
    (w : Window) (modifications : WindowSpecification) : TitlebarPolicy Unit := do
  managing (beginModification w modifications)
  updateGeometry fuel w modifications
  updatePlacement fuel w modifications
  Prog.whenSome modifications.state (setState advise fuel w)
  Prog.whenSome modifications.confinePointer fun confinePointer =>
    managing (configure w ({ · with confinePointer }))

/-- `advise_state_change`. The titlebar is changed through the manager, which advises the policy
of it in turn. -/
def adviseStateChange (fuel : Nat) : Nat → Window → WindowState → TitlebarPolicy Unit
  | 0, _, _ => Prog.exhaust
  | depth + 1, w, state => do
    let s ← Prog.state
    Prog.whenSome (s.manager.lock (s.titlebar w)) fun titlebar =>
      modifyWindowWith (adviseStateChange fuel depth) fuel titlebar
        { state := some state.ofTitlebar }

def modifyWindow (fuel : Nat) : Window → WindowSpecification → TitlebarPolicy Unit :=
  modifyWindowWith (adviseStateChange fuel fuel) fuel

/-- `place_and_size_for_state`, then `modify_window`. -/
def placeForState (fuel : Nat) (w : Window) (modifications : WindowSpecification) :
    TitlebarPolicy Unit := do
  let info ← managing (infoFor w)
  let s ← Prog.state
  modifyWindow fuel w (s.manager.placeAndSizeForState modifications w info)

/-- `apply_workspace_hidden_to`. -/
def applyWorkspaceHiddenTo (fuel : Nat) (w : Window) : TitlebarPolicy Unit := do
  let info ← managing (infoFor w)
  let s ← Prog.state
  Prog.onlyIf ((s.policyData w).inHiddenWorkspace = false) do
    Prog.update (·.setPolicyData w ⟨true, info.state⟩)
    placeForState fuel w { state := some .hidden }

/-- `apply_workspace_visible_to`. -/
def applyWorkspaceVisibleTo (fuel : Nat) (w : Window) : TitlebarPolicy Unit := do
  let _ ← managing (infoFor w)
  let s ← Prog.state
  Prog.onlyIf (s.policyData w).inHiddenWorkspace do
    Prog.update (·.setPolicyData w { s.policyData w with inHiddenWorkspace := false })
    placeForState fuel w { state := some (s.policyData w).oldState }

/-- `handle_modify_window`: the state of a window in a hidden workspace is kept for later. -/
def handleModifyWindow (fuel : Nat) (w : Window) (modifications : WindowSpecification) :
    TitlebarPolicy Unit := do
  let s ← Prog.state
  match modifications.state with
  | some state =>
    if (s.policyData w).inHiddenWorkspace then do
      Prog.update (·.setPolicyData w { s.policyData w with oldState := state })
      modifyWindow fuel w { modifications with state := none }
    else modifyWindow fuel w modifications
  | none => modifyWindow fuel w modifications

/-- `modify_surface`, once the request has been translated. -/
def handleRequest (fuel : Nat) (w : Window) (modifications : WindowSpecification) :
    TitlebarPolicy Unit := do
  let info ← managing (infoFor w)
  let s ← Prog.state
  Prog.ofExcept (s.manager.validateModificationRequest modifications info)
  handleModifyWindow fuel w (s.manager.placeAndSizeForState modifications w info)

/-- `modify_surface`. -/
def modifySurface (fuel : Nat) (w : Window) (modifications : SurfaceSpecification) :
    TitlebarPolicy Unit :=
  handleRequest fuel w (.ofSurfaceSpecification modifications)

/-- The windows `for_each_window_in_workspace` passes to `switch_workspace_to`, less the
decorations, which are taken care of automatically. -/
def windowsToSwitch (workspace : Workspace) : TitlebarPolicy (List Window) := do
  let s ← Prog.state
  pure ((s.manager.windowsIn workspace).filter fun w => ¬s.IsDecoration w)

/-- `switch_workspace_to`. -/
def switchWorkspaceTo (fuel : Nat) (workspace : Workspace) (window : Option Window) :
    TitlebarPolicy Unit := do
  let s ← Prog.state
  Prog.onlyIf (workspace ≠ s.activeWorkspace) do
    let oldActive := s.activeWorkspace
    Prog.update ({ · with activeWorkspace := workspace })
    let oldActiveWindow := s.manager.activeWindow
    -- If there's no active window, the first shown grabs focus: get the right one
    Prog.onlyIf (oldActiveWindow = none) <|
      Prog.whenSome (s.manager.lock (s.workspaceToActive workspace)) fun w =>
        Prog.forEach (fun ws => Prog.onlyIf (ws = workspace) (applyWorkspaceVisibleTo fuel w))
          (s.manager.workspacesContaining w)
    managing (removeTreeFromWorkspace fuel window oldActive)
    managing (addTreeToWorkspace fuel window workspace)
    let shown ← windowsToSwitch workspace
    Prog.forEach (applyWorkspaceVisibleTo fuel) shown
    let hidden ← windowsToSwitch oldActive
    -- If we hide the active window focus will shift: do that last
    Prog.forEach (applyWorkspaceHiddenTo fuel) (hidden.filter fun w => some w ≠ oldActiveWindow)
    Prog.whenSome (oldActiveWindow.filter fun w => w ∈ hidden) fun w => do
      applyWorkspaceHiddenTo fuel w
      -- Remember the old active_window when we switch away
      Prog.update (·.rememberActive oldActive w)

end TitlebarPolicy

end Miral
