import Miral.Focus

/-! Changing a window: moving its tree, changing its state, `modify_window` and the check
a client's request passes first. The policy is `CanonicalWindowManagerPolicy` and the Mir
server is at version 0.25 or later. -/
namespace Miral

open Program

/-- `move_tree`. `confirm_inherited_move` of the canonical policy keeps the size of a child
and adds the movement, which `place_and_size` then recomputes as a difference. -/
def moveTree : Nat → Window → Displacement → Manager Unit
  | 0, _, _ => Prog.exhaust
  | fuel + 1, root, movement =>
    if movement = ⟨0, 0⟩ then pure ()
    else do
      let info ← infoFor root
      let s ← Prog.state
      let topLeft := s.topLeft root + movement
      emit (.adviseMoveTo root topLeft)
      configure root ({ · with topLeft })
      Prog.forEach (fun child => do
        let _ ← infoFor child
        let s ← Prog.state
        let pos := s.topLeft child + movement
        moveTree fuel child (pos - s.topLeft child)) info.children

/-- `place_and_size`. -/
def placeAndSize (fuel : Nat) (root : Window) (newPos : Point) (newSize : Size) :
    Manager Unit := do
  let s ← Prog.state
  Prog.onlyIf (s.size root ≠ newSize) do
    emit (.adviseResize root newSize)
    configure root ({ · with size := newSize })
  let s ← Prog.state
  moveTree fuel root (newPos - s.topLeft root)

/-- The restore rectangle brought up to date with where the window is now. The source
spells this case analysis out in `place_and_size_for_state` and in `modify_window`. -/
def WindowInfo.currentRestoreRect (info : WindowInfo) (window : Rectangle) : Rectangle :=
  match info.state with
  | .restored | .hidden => window
  | .vertmaximized =>
    ⟨⟨window.topLeft.x, info.restoreRect.topLeft.y⟩,
      ⟨window.size.width, info.restoreRect.size.height⟩⟩
  | .horizmaximized =>
    ⟨⟨info.restoreRect.topLeft.x, window.topLeft.y⟩,
      ⟨info.restoreRect.size.width, window.size.height⟩⟩
  | _ => info.restoreRect

/-- `fullscreen_rect_for`. -/
def Model.fullscreenRectFor (s : Model) (w : Window) (info : WindowInfo) : Rectangle :=
  match info.outputId.bind fun id => s.displayLayout.placeInOutput id (s.rect w) with
  | some rect => rect
  | none => s.displayLayout.sizeToOutput (s.rect w)

/-- Whether `place_and_size_for_state` returns before it computes anything: only a move of
a fullscreen window to another output is a change without a change of state. -/
def WindowInfo.placedForState (info : WindowInfo) (modifications : WindowSpecification)
    (newState : WindowState) : Bool :=
  if newState = .fullscreen ∧ modifications.outputId.isSome ∧
      (info.outputId.isNone ∨ modifications.outputId ≠ info.outputId) then false
  else newState = info.state

def Model.rectForState (s : Model) (w : Window) (info : WindowInfo) (restoreRect : Rectangle)
    (newState : WindowState) : Option Rectangle :=
  let displayArea := boundingRectangle s.displays
  match newState with
  | .restored => some restoreRect
  | .maximized => some displayArea
  | .horizmaximized =>
    some ⟨⟨displayArea.topLeft.x, restoreRect.topLeft.y⟩,
      ⟨displayArea.size.width, restoreRect.size.height⟩⟩
  | .vertmaximized =>
    some ⟨⟨restoreRect.topLeft.x, displayArea.topLeft.y⟩,
      ⟨restoreRect.size.width, displayArea.size.height⟩⟩
  | .fullscreen => some (s.fullscreenRectFor w info)
  | _ => none

/-- `place_and_size_for_state`. -/
def Model.placeAndSizeForState (s : Model) (modifications : WindowSpecification) (w : Window)
    (info : WindowInfo) : WindowSpecification :=
  match modifications.state with
  | none => modifications
  | some newState =>
    if info.placedForState modifications newState then modifications
    else
      let cached := info.currentRestoreRect (s.rect w)
      let restoreRect : Rectangle :=
        ⟨modifications.topLeft.getD cached.topLeft, modifications.size.getD cached.size⟩
      match s.rectForState w info restoreRect newState with
      | some rect => { modifications with topLeft := some rect.topLeft, size := some rect.size }
      | none => modifications

theorem Model.placeAndSizeForState_eq (s : Model) (modifications : WindowSpecification)
    (w : Window) (info : WindowInfo) :
    ∃ topLeft size, s.placeAndSizeForState modifications w info =
      { modifications with topLeft := topLeft, size := size } := by
  unfold placeAndSizeForState
  split
  · exact ⟨_, _, rfl⟩
  · split
    · exact ⟨_, _, rfl⟩
    · dsimp only
      split
      · exact ⟨_, _, rfl⟩
      · exact ⟨_, _, rfl⟩

/-- The part of `set_state` that moves the focus off a window being hidden. The surface
still counts as visible while it runs. -/
def moveFocusFrom (fuel : Nat) (w : Window) : Manager Unit := do
  let _ ← selectActiveWindow fuel (some w)
  let s ← Prog.state
  Prog.onlyIf (s.activeWindow = some w ∨ s.activeWindow = none) do
    let workspaces := s.workspacesContaining w
    let _ ← enumerateIf fuel fun s candidate =>
      candidate ≠ w ∧ s.sharesWorkspace candidate workspaces
    pure ()
  let s ← Prog.state
  Prog.onlyIf (s.activeWindow = some w ∨ s.activeWindow = none) do
    let _ ← enumerateIf fuel fun _ candidate => candidate ≠ w
    pure ()
  let s ← Prog.state
  Prog.onlyIf (s.activeWindow = some w) do
    let _ ← selectActiveWindow fuel none
    pure ()

/-- `set_state`. -/
def setState (fuel : Nat) (w : Window) (value : WindowState) : Manager Unit := do
  let info ← infoFor w
  Prog.update fun s => if value ≠ .fullscreen then s.eraseFullscreen w else s.insertFullscreen w
  Prog.onlyIf (info.state ≠ value) do
    emit (.adviseStateChange w value)
    if value.concealed then do
      setInfo w { info with state := value }
      let s ← Prog.state
      Prog.onlyIf (s.activeWindow = some w) (moveFocusFrom fuel w)
      configure w ({ · with state := value })
      configure w ({ · with hidden := true })
    else do
      let s ← Prog.state
      setInfo w { info with state := value }
      configure w ({ · with state := value })
      configure w ({ · with hidden := false })
      Prog.onlyIf (info.state.concealed ∧ s.activeWindow = none) do
        let _ ← selectActiveWindow fuel (some w)
        pure ()

/-- The `COPY_IF_SET` block of `modify_window`. -/
def WindowInfo.copyIfSet (info : WindowInfo) (modifications : WindowSpecification) :
    WindowInfo :=
  { info with
    name := modifications.name.getD info.name
    type := modifications.type.getD info.type
    minWidth := modifications.minWidth.getD info.minWidth
    minHeight := modifications.minHeight.getD info.minHeight
    maxWidth := modifications.maxWidth.getD info.maxWidth
    maxHeight := modifications.maxHeight.getD info.maxHeight
    widthInc := modifications.widthInc.getD info.widthInc
    heightInc := modifications.heightInc.getD info.heightInc
    minAspect := modifications.minAspect.getD info.minAspect
    maxAspect := modifications.maxAspect.getD info.maxAspect
    outputId := modifications.outputId.or info.outputId
    preferredOrientation := modifications.preferredOrientation.getD info.preferredOrientation
    confinePointer := modifications.confinePointer.getD info.confinePointer
    userdata := modifications.userdata.or info.userdata
    shellChrome := modifications.shellChrome.getD info.shellChrome }

def WindowInfo.checkMorph (info tmp : WindowInfo) (setsParent hasParent : Bool) :
    Except Failure WindowInfo :=
  if info.type = tmp.type then .ok tmp
  else if !info.type.canMorphTo tmp.type then
    .error (.runtimeError "Unsupported window type change")
  else if tmp.type.mustNotHaveParent then
    if setsParent then .error (.runtimeError "Target window type does not support parent")
    else .ok { tmp with parent := none }
  else if tmp.type.mustHaveParent then
    if hasParent then .ok tmp else .error (.runtimeError "Target window type requires parent")
  else .ok tmp

/-- `COPY_IF_SET` for the parent, which has to be managed. -/
def copyParent (tmp : WindowInfo) : Option WeakSurface → Manager WindowInfo
  | some weak => do
    let parent ← infoForWeak weak
    pure { tmp with parent := some parent }
  | none => pure tmp

/-- `window_info_tmp`, as `modify_window` has it before the swap. -/
def requestedInfo (w : Window) (modifications : WindowSpecification) : Manager WindowInfo := do
  let info ← infoFor w
  let tmp ← copyParent (info.copyIfSet modifications) modifications.parent
  let s ← Prog.state
  Prog.ofExcept
    (info.checkMorph tmp modifications.parent.isSome (s.lock tmp.parent).isSome)

/-- The old and the new parent take note of a change of parent. -/
def relink (w : Window) (oldParent newParent : Option Window) : Manager Unit :=
  Prog.onlyIf (newParent ≠ oldParent) do
    let s ← Prog.state
    Prog.whenSome (s.lock oldParent) fun parent => modifyInfo parent (·.removeChild w)
    Prog.whenSome (s.lock newParent) fun parent => modifyInfo parent (·.addChild w)

/-- The swap, and what follows from a changed type or parent. -/
def swapInfo (w : Window) (tmp : WindowInfo) : Manager Unit := do
  let old ← infoFor w
  setInfo w tmp
  Prog.onlyIf (tmp.type ≠ old.type) (configure w ({ · with type := tmp.type }))
  relink w old.parent tmp.parent

/-- The attributes of the surface that `modify_window` sets as they are given. -/
def updateSurface (w : Window) (modifications : WindowSpecification) : Manager Unit := do
  Prog.whenSome modifications.name fun name => configure w ({ · with name })
  Prog.whenSome modifications.inputShape fun inputRegion => configure w ({ · with inputRegion })

def cacheRestoreRect (w : Window) (modifications : WindowSpecification) : Manager Unit :=
  Prog.whenSome modifications.state fun newState => do
    let info ← infoFor w
    let s ← Prog.state
    Prog.onlyIf (info.state ≠ newState)
      (setInfo w { info with restoreRect := info.currentRestoreRect (s.rect w) })

/-- Whether one of the six constraints that make `modify_window` resize is set. -/
def WindowSpecification.constrains (modifications : WindowSpecification) : Bool :=
  modifications.minWidth.isSome || modifications.minHeight.isSome ||
  modifications.maxWidth.isSome || modifications.maxHeight.isSome ||
  modifications.widthInc.isSome || modifications.heightInc.isSome

def updateGeometry (fuel : Nat) (w : Window) (modifications : WindowSpecification) :
    Manager Unit := do
  let info ← infoFor w
  let s ← Prog.state
  let newPos := modifications.topLeft.getD (s.topLeft w)
  match modifications.size with
  | some size => placeAndSize fuel w newPos size
  | none =>
    if modifications.constrains then do
      let (pos, size) ← Prog.ofExcept (info.constrainResize (s.rect w) newPos (s.size w))
      placeAndSize fuel w pos size
    else Prog.onlyIf modifications.topLeft.isSome (placeAndSize fuel w newPos (s.size w))

def updatePlacement (fuel : Nat) (w : Window) (modifications : WindowSpecification) :
    Manager Unit :=
  Prog.onlyIf modifications.placementHints.isSome do
    let info ← infoFor w
    let s ← Prog.state
    Prog.whenSome (s.lock info.parent) fun parent => do
      let rect ← Prog.ofExcept
        (placeRelative s.activeDisplay (s.rect parent) modifications (s.size w))
      placeAndSize fuel w rect.topLeft rect.size
      let s ← Prog.state
      let origin := s.topLeft parent
      emit (.placedRelative w
        ⟨⟨(s.topLeft w).x - origin.x, (s.topLeft w).y - origin.y⟩, s.size w⟩)

/-- `modify_window`. -/
def modifyWindow (fuel : Nat) (w : Window) (modifications : WindowSpecification) :
    Manager Unit := do
  let tmp ← requestedInfo w modifications
  swapInfo w tmp
  updateSurface w modifications
  cacheRestoreRect w modifications
  updateGeometry fuel w modifications
  updatePlacement fuel w modifications
  Prog.whenSome modifications.state (setState fuel w)
  Prog.whenSome modifications.confinePointer fun confinePointer =>
    configure w ({ · with confinePointer })

/-- The first switch of `validate_modification_request`. No case but the last of each group
ends with a `break`, so the earlier ones fall through into the later ones. -/
def checkTypeChange (originalType targetType : WindowType) : Except Failure Unit :=
  let invalid : Except Failure Unit := .error (.runtimeError "Invalid surface type change")
  let sameType := if targetType ≠ originalType then invalid else .ok ()
  let menu : Except Failure Unit :=
    match targetType with
    | .menu | .satellite => sameType
    | _ => invalid
  match originalType with
  | .normal | .utility | .dialog | .satellite =>
    match targetType with
    | .normal | .utility | .dialog | .satellite => menu
    | _ => invalid
  | .menu => menu
  | .gloss | .freestyle | .inputmethod | .tip => sameType
  | .types => .ok ()

/-- The second switch: what the target type says of the parent. -/
def checkParent (targetType : WindowType) (hasParent : Bool) : Except Failure Unit :=
  match targetType with
  | .normal | .utility =>
    if hasParent then .error (.runtimeError "Window type must not have a parent") else .ok ()
  | .satellite | .gloss | .tip =>
    if hasParent then .ok () else .error (.runtimeError "Window type must have a parent")
  | .inputmethod | .dialog | .menu | .freestyle => .ok ()
  | .types => .error (.runtimeError "Invalid surface type")

def checkSize (size : Size) : Except Failure Unit :=
  if size.width ≤ 0 then .error (.runtimeError "width must be positive")
  else if size.height ≤ 0 then .error (.runtimeError "height must be positive")
  else .ok ()

def checkSome {α : Type} (check : α → Except Failure Unit) : Option α → Except Failure Unit
  | some a => check a
  | none => .ok ()

def Model.hasParent (s : Model) (modifications : WindowSpecification) (info : WindowInfo) :
    Bool :=
  (s.lock (modifications.parent.getD info.parent)).isSome

/-- `validate_modification_request`. -/
def Model.validateModificationRequest (s : Model) (modifications : WindowSpecification)
    (info : WindowInfo) : Except Failure Unit := do
  checkSome (checkTypeChange info.type) modifications.type
  checkParent (modifications.type.getD info.type) (s.hasParent modifications info)
  checkSome checkSize modifications.size

end Miral
