import Miral.HiddenRequests
import Miral.InteractiveResize

/-! The input that `TitlebarWindowManagerPolicy` handles: the keyboard, the pointer and touches.
Coordinates are whole numbers. Killing the client of a window, asking it to close it and
painting a titlebar change nothing the model knows of. -/
namespace Miral

open Program Prog Model

/-- `touch_pinch_top` and so on. -/
structure Pinch where
  top : Int
  left : Int
  width : Int
  height : Int
  deriving DecidableEq

/-- The shell with what the policy keeps from one event to the next. -/
structure Desk where
  shell : Shell
  grip : Grip
  pinching : Bool
  oldCursor : Point
  oldPinch : Pinch

abbrev DeskPolicy (α : Type) := Prog Failure Desk α

/-- What is left of the modifiers under `modifier_mask`. -/
structure Modifiers where
  alt : Bool := false
  shift : Bool := false
  sym : Bool := false
  ctrl : Bool := false
  metaKey : Bool := false
  deriving DecidableEq

inductive KeyAction where
  | up | down | repeat
  deriving DecidableEq

inductive Key where
  | f1 | f2 | f3 | f4 | f11 | tab | grave | left | right | up | down | other
  deriving DecidableEq

structure KeyboardEvent where
  time : Nat
  action : KeyAction
  scanCode : Key
  modifiers : Modifiers

inductive PointerAction where
  | buttonUp | buttonDown | motion | other
  deriving DecidableEq

/-- `soon` is whether the last step of a resize has been in the last 20 milliseconds. -/
structure PointerEvent where
  time : Nat
  action : PointerAction
  modifiers : Modifiers
  cursor : Point
  primary : Bool
  tertiary : Bool
  soon : Bool

inductive TouchAction where
  | up | down | change
  deriving DecidableEq

structure TouchPoint where
  x : Int
  y : Int
  action : TouchAction

/-- A touch has at least one point. -/
structure TouchEvent where
  time : Nat
  points : List TouchPoint
  touched : points ≠ []
  soon : Bool

/-- The keys of `key_to_workspace`. -/
def Key.workspace : Key → Option WorkspaceKey
  | .f1 => some .f1
  | .f2 => some .f2
  | .f3 => some .f3
  | .f4 => some .f4
  | _ => none

/-- What the policy asks Mir for. `wallpaperName` is the name of the windows of the decoration
provider that are no titlebars. -/
structure Surroundings where
  surfaceAt : Model → Point → WeakSurface
  wallpaperName : String

namespace TitlebarPolicy

variable (around : Surroundings) (fuel : Nat)

/-- `window_at`. -/
def windowAt (cursor : Point) : TitlebarPolicy (Option Window) := do
  let s ← Prog.state
  match around.surfaceAt s.manager cursor with
  | some w => do
    let _ ← managing (infoFor w)
    pure (some w)
  | none => pure none

/-- `drag_active_window`. -/
def dragActiveWindow (movement : Displacement) : TitlebarPolicy Unit := do
  let s ← Prog.state
  managing (dragWindow fuel s.manager.activeWindow movement)

def click (cursor : Point) : TitlebarPolicy Unit := do
  match ← windowAt around cursor with
  | some w => do
    let _ ← managing (selectActiveWindow fuel (some w))
    pure ()
  | none => pure ()

def dragFrom (oldCursor cursor : Point) : TitlebarPolicy Unit := do
  match ← windowAt around oldCursor with
  | some target => do
    let selected ← managing (selectActiveWindow fuel (some target))
    Prog.onlyIf (selected = some target) (dragActiveWindow fuel (cursor - oldCursor))
  | none => pure ()

/-- A movement with the primary button alone, which drags a window by its titlebar; the result
is whether it has been on one. -/
def dragTitlebar (oldCursor cursor : Point) : TitlebarPolicy Bool := do
  match ← windowAt around oldCursor with
  | some possibleTitlebar => do
    let info ← managing (infoFor possibleTitlebar)
    let s ← Prog.state
    if s.IsDecoration possibleTitlebar ∧ info.name ≠ around.wallpaperName then do
      let selected ← managing (selectActiveWindow fuel info.parent)
      Prog.onlyIf (selected = info.parent) (dragActiveWindow fuel (cursor - oldCursor))
      pure true
    else pure false
  | none => pure false

/-- `toggle`. -/
def toggle (state : WindowState) : TitlebarPolicy Unit := do
  let s ← Prog.state
  Prog.whenSome s.manager.activeWindow fun w => do
    let info ← managing (infoFor w)
    placeForState fuel w { state := some (if info.state = state then .restored else state) }

/-- The end of a resize, but for the flags. -/
def settleSize : TitlebarPolicy Unit := do
  let s ← Prog.state
  Prog.whenSome s.manager.activeWindow fun w => do
    let info ← managing (infoFor w)
    let (newPos, newSize) ← Prog.ofExcept
      (info.constrainResize (s.manager.rect w) (s.manager.topLeft w) (s.manager.size w))
    modifyWindow fuel w { topLeft := some newPos, size := some newSize }

/-- Where an arrow key sends the active window; `none` for a key that is no arrow. -/
def edgeFor (key : Key) (activeDisplay window : Rectangle) (state : WindowState) :
    Option (Option Point) :=
  match key with
  | .left => some (some ⟨activeDisplay.topLeft.x, window.topLeft.y⟩)
  | .right => some (some ⟨activeDisplay.bottomRight.x - window.size.width, window.topLeft.y⟩)
  | .up =>
    if state ≠ .vertmaximized ∧ state ≠ .maximized then
      some (some ⟨window.topLeft.x, activeDisplay.topLeft.y + titleBarHeight⟩)
    else some none
  | .down => some (some ⟨window.topLeft.x, activeDisplay.bottomRight.y - window.size.height⟩)
  | _ => none

/-- An arrow key with Ctrl and Meta; the result is whether it is one. -/
def moveToEdge (key : Key) : TitlebarPolicy Bool := do
  let s ← Prog.state
  match s.manager.activeWindow with
  | some w => do
    let info ← managing (infoFor w)
    match edgeFor key s.manager.activeDisplay (s.manager.rect w) info.state with
    | some topLeft => do
      Prog.whenSome topLeft fun topLeft => modifyWindow fuel w { topLeft := some topLeft }
      pure true
    | none => pure false
  | none => pure false

def toggledBy (modifiers : Modifiers) : Option WindowState :=
  if modifiers = { alt := true } then some .maximized
  else if modifiers = { shift := true } then some .vertmaximized
  else if modifiers = { ctrl := true } then some .horizmaximized
  else if modifiers = { metaKey := true } then some .fullscreen
  else none

/-- What a key does that is pressed, once workspaces are out of the question. -/
def handleCommand (scanCode : Key) (modifiers : Modifiers) : TitlebarPolicy Bool :=
  if scanCode = .f11 then
    match toggledBy modifiers with
    | some state => do
      toggle fuel state
      pure true
    | none => pure false
  else if scanCode = .f4 then
    -- the client is killed, or asked to close its window
    pure (modifiers = { alt := true, shift := true } ∨ modifiers = { alt := true })
  else if modifiers = { alt := true } ∧ scanCode = .tab then do
    let _ ← managing (focusNextApplication fuel)
    pure true
  else if modifiers = { alt := true } ∧ scanCode = .grave then do
    managing (focusNextWithinApplication fuel)
    pure true
  else if modifiers = { alt := true, shift := true } ∧ scanCode = .grave then do
    managing (focusPrevWithinApplication fuel)
    pure true
  else if modifiers = { ctrl := true, metaKey := true } then moveToEdge fuel scanCode
  else pure false

end TitlebarPolicy

namespace Desk

variable (around : Surroundings) (fuel : Nat)

def setShell (self : Desk) (shell : Shell) : Desk := { self with shell }

/-- The shell at work. -/
def onShell {α : Type} (p : TitlebarPolicy α) : DeskPolicy α := p.zoom Desk.shell Desk.setShell

/-- `end_resize`. -/
def endResize : DeskPolicy Unit := do
  let d ← Prog.state
  Prog.onlyIf (d.grip.resizing ∨ d.pinching) do
    onShell (TitlebarPolicy.settleSize fuel)
    Prog.update fun d => { d with grip := { d.grip with resizing := false }, pinching := false }

/-- `handle_keyboard_event`. -/
def handleKeyboardEvent (event : KeyboardEvent) : DeskPolicy Bool := do
  let d ← Prog.state
  let key := if event.action = .down then event.scanCode.workspace else none
  match key, decide (event.modifiers = { alt := true, metaKey := true }),
    decide (event.modifiers = { ctrl := true, metaKey := true }) with
  | some key, true, _ => do
    onShell (TitlebarPolicy.switchWorkspaceTo fuel (d.shell.keyToWorkspace key) none)
    pure true
  | some key, false, true => do
    onShell (TitlebarPolicy.switchWorkspaceTo fuel (d.shell.keyToWorkspace key)
      d.shell.manager.activeWindow)
    pure true
  | _, _, _ => do
    Prog.onlyIf (event.action ≠ .repeat) (endResize fuel)
    if event.action = .down then
      onShell (TitlebarPolicy.handleCommand fuel event.scanCode event.modifiers)
    else pure false

/-- A step of a resize. The first one selects the window that is pointed at. -/
def resizeStep (event : PointerEvent) : DeskPolicy Bool := do
  let d ← Prog.state
  Prog.onlyIf (¬d.grip.resizing) <| onShell do
    let window ← TitlebarPolicy.windowAt around d.oldCursor
    let _ ← TitlebarPolicy.managing (selectActiveWindow fuel window)
    pure ()
  let e ← Prog.state
  let (grip, isResizeEvent) ← onShell (TitlebarPolicy.resize fuel d.grip
    e.shell.manager.activeWindow event.cursor d.oldCursor)
  Prog.update ({ · with grip })
  pure isResizeEvent

/-- What the pointer does to windows with Alt or a click: whether it consumes the event and
whether that is a step of a resize. The step may come too soon after the last one. -/
def gesture (event : PointerEvent) : DeskPolicy (Option (Bool × Bool)) := do
  let d ← Prog.state
  if event.action = .buttonDown then do
    onShell (TitlebarPolicy.click around fuel event.cursor)
    pure (some (false, false))
  else if event.action = .motion ∧ event.modifiers = { alt := true } then do
    Prog.onlyIf event.primary <|
      onShell (TitlebarPolicy.dragFrom around fuel d.oldCursor event.cursor)
    if event.tertiary then
      if d.grip.resizing ∧ event.soon then pure none
      else do
        let isResizeEvent ← resizeStep around fuel event
        pure (some (true, isResizeEvent))
    else pure (some (event.primary, false))
  else pure (some (false, false))

/-- `handle_pointer_event`. -/
def handlePointerEvent (event : PointerEvent) : DeskPolicy Bool := do
  let d ← Prog.state
  match ← gesture around fuel event with
  | none => pure true
  | some (consumesEvent, isResizeEvent) => do
    let consumesEvent ←
      if ¬consumesEvent ∧ event.action = .motion ∧ event.modifiers = {} ∧ event.primary then
        onShell (TitlebarPolicy.dragTitlebar around fuel d.oldCursor event.cursor)
      else pure consumesEvent
    Prog.onlyIf (d.grip.resizing ∧ ¬isResizeEvent) (endResize fuel)
    Prog.update fun e =>
      { e with grip := { e.grip with resizing := isResizeEvent }, oldCursor := event.cursor }
    pure consumesEvent

/-- The loops over the points: how far each is from those before it, to the right and below, and
the corner of them all. -/
def pinchFrom : List TouchPoint → List TouchPoint → Pinch → Pinch
  | _, [], pinch => pinch
  | before, point :: rest, pinch =>
    pinchFrom (before ++ [point]) rest
      { top := min pinch.top point.y
        left := min pinch.left point.x
        width := before.foldl (fun width other => max width (point.x - other.x)) pinch.width
        height := before.foldl (fun height other => max height (point.y - other.y)) pinch.height }

def pinchOf (points : List TouchPoint) : Pinch := pinchFrom [] points ⟨intMax, intMax, 0, 0⟩

def pinched (windowInfo : WindowInfo) (window : Rectangle) (old new : Pinch) : Rectangle :=
  let newWidth := max (window.size.width + (new.width - old.width)) 5
  let newHeight := max (window.size.height + (new.height - old.height)) 5
  let (width, height) := TitlebarPolicy.keepSizeWithinLimits windowInfo
    ⟨newWidth, new.left - old.left⟩ ⟨newHeight, new.top - old.top⟩
  ⟨window.topLeft + Displacement.mk width.delta height.delta, ⟨width.size, height.size⟩⟩

/-- A step of a pinch with three fingers, unless it comes too soon after the last one. -/
def pinchStep (soon : Bool) (new : Pinch) : DeskPolicy Bool := do
  let d ← Prog.state
  match d.shell.manager.activeWindow with
  | some w => do
    let info ← onShell (TitlebarPolicy.managing (infoFor w))
    let rect := pinched info (d.shell.manager.rect w) d.oldPinch new
    if d.pinching ∧ soon then pure true
    else do
      onShell (TitlebarPolicy.modifyWindow fuel w
        { topLeft := some rect.topLeft, size := some rect.size })
      Prog.update ({ · with pinching := true })
      pure false
  | none => pure false

def middle (points : List TouchPoint) : Point :=
  ⟨(points.map TouchPoint.x).sum.tdiv points.length,
    (points.map TouchPoint.y).sum.tdiv points.length⟩

/-- `handle_touch_event`. -/
def handleTouchEvent (event : TouchEvent) : DeskPolicy Bool := do
  let actions := event.points.map TouchPoint.action
  if .up ∈ actions then pure false
  else do
    let pinch := pinchOf event.points
    let cursor := middle event.points
    let consumesEvent := decide (.down ∉ actions ∧ event.points.length = 3)
    let early ← if consumesEvent then pinchStep fuel event.soon pinch else pure false
    if early then pure true
    else do
      Prog.onlyIf (.down ∈ actions) <| onShell (TitlebarPolicy.click around fuel cursor)
      let d ← Prog.state
      Prog.onlyIf (¬consumesEvent ∧ d.pinching) (endResize fuel)
      Prog.update ({ · with oldCursor := cursor, oldPinch := pinch })
      pure consumesEvent

end Desk

/-- What the shell is told: input, and requests of clients for a state or to be raised. -/
inductive DeskEvent where
  | keyboard (event : KeyboardEvent)
  | pointer (event : PointerEvent)
  | touch (event : TouchEvent)
  | requestState (w : Window) (value : WindowState)
  | raise (w : Window) (timestamp : Nat)

namespace Desk

variable (around : Surroundings) (fuel : Nat)

/-- `update_event_timestamp`, for the times of events that count. -/
def updateEventTimestamp (counts : Prop) [Decidable counts] (time : Nat) : TitlebarPolicy Unit :=
  Prog.onlyIf counts <| TitlebarPolicy.managing <|
    Prog.update ({ · with lastInputEventTimestamp := time })

/-- `BasicWindowManager` on the way to the policy. -/
def handle : DeskEvent → DeskPolicy Unit
  | .keyboard event => do
    onShell (TitlebarPolicy.managing locker)
    onShell (updateEventTimestamp True event.time)
    let _ ← handleKeyboardEvent fuel event
    pure ()
  | .pointer event => do
    onShell (TitlebarPolicy.managing locker)
    onShell (updateEventTimestamp (event.action = .buttonUp ∨ event.action = .buttonDown) event.time)
    onShell (TitlebarPolicy.managing (Prog.update ({ · with cursor := event.cursor })))
    let _ ← handlePointerEvent around fuel event
    pure ()
  | .touch event => do
    onShell (TitlebarPolicy.managing locker)
    onShell (updateEventTimestamp
      (∃ point ∈ event.points, point.action = .up ∨ point.action = .down) event.time)
    let _ ← handleTouchEvent around fuel event
    pure ()
  | .requestState w value => do
    onShell (TitlebarPolicy.managing locker)
    onShell (TitlebarPolicy.requestState fuel w value)
  | .raise w timestamp => do
    onShell (TitlebarPolicy.managing locker)
    onShell (TitlebarPolicy.managing (handleRaiseSurface fuel w timestamp))

end Desk

end Miral
