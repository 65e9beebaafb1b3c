import Miral.Modify

/-! The operations of `BasicWindowManager`, and the runs they make. Under the canonical
policy a request that passes validation is handed to `modify_window`, a window that is
ready or raised is selected, and a new window is placed as the manager proposes. -/
namespace Miral

open Program

def Displacement.titleBar : Displacement := ⟨12, 12⟩

/-- `area.top_left + 0.5*(area.size - size) - DeltaY{(area.height - height)/6}`. -/
def centredIn (area : Rectangle) (size : Size) (height : Int) : Point :=
  ⟨area.topLeft.x + half (area.size.width - size.width),
    area.topLeft.y + half (area.size.height - size.height) - (area.size.height - height).tdiv 6⟩

namespace Model

variable (s : Model)

/-- The first group of branches of `place_new_surface`: on the requested output, or next
to the first window of the application. The flag is `positioned`. -/
def placeOnOutput (app : ApplicationInfo) (parameters : WindowSpecification)
    (hasParent : Bool) : Except Failure (WindowSpecification × Bool) := do
  let outputId := parameters.outputId.getD 0
  if outputId ≠ 0 then
    let topLeft ← Failure.valueOf parameters.topLeft
    let size ← Failure.valueOf parameters.size
    let rect := (s.displayLayout.placeInOutput outputId ⟨topLeft, size⟩).getD ⟨topLeft, size⟩
    pure ({ parameters with
      topLeft := some rect.topLeft, size := some rect.size, state := some .fullscreen }, true)
  else if hasParent then pure (parameters, false)
  else
    match s.lock app.windows.head? with
    | some defaultWindow =>
      let size ← Failure.valueOf parameters.size
      let topLeft := s.topLeft defaultWindow + Displacement.titleBar
      let displayForApp := s.displayLayout.sizeToOutput (s.rect defaultWindow)
      pure ({ parameters with topLeft := some topLeft }, displayForApp.overlaps ⟨topLeft, size⟩)
    | none => pure (parameters, false)

/-- The second group: a child goes where its hints say, else it is centred. -/
def placeOnParent (parent : Window) (parameters : WindowSpecification) (height : Int) :
    Except Failure WindowSpecification := do
  if ¬s.Managed parent then Except.error .outOfRange
  else
    let size ← Failure.valueOf parameters.size
    if parameters.auxRect.isSome ∧ parameters.placementHints.isSome then
      let position ← placeRelative s.activeDisplay (s.rect parent) parameters size
      pure { parameters with topLeft := some position.topLeft, size := some position.size }
    else pure { parameters with topLeft := some (centredIn (s.rect parent) size height) }

/-- The last group: a window that nothing else has positioned goes where its state says. -/
def placeByState (parameters : WindowSpecification) (height : Int) :
    Except Failure WindowSpecification := do
  let size ← Failure.valueOf parameters.size
  let state ← Failure.valueOf parameters.state
  let area := s.activeDisplay
  let centred := centredIn area size height
  let rect : Rectangle := match state with
    | .fullscreen | .maximized => area
    | .vertmaximized => ⟨⟨centred.x, area.topLeft.y⟩, ⟨size.width, area.size.height⟩⟩
    | .horizmaximized => ⟨⟨area.topLeft.x, centred.y⟩, ⟨area.size.width, size.height⟩⟩
    | _ => ⟨centred, size⟩
  let displayTop := (boundingRectangle s.displays).topLeft.y
  let y := if rect.topLeft.y < displayTop then displayTop else rect.topLeft.y
  pure { parameters with topLeft := some ⟨rect.topLeft.x, y⟩, size := some rect.size }

/-- `place_new_surface`. -/
def placeNewSurface (app : ApplicationInfo) (parameters : WindowSpecification) :
    Except Failure WindowSpecification := do
  let parameters := { parameters with
    type := some (parameters.type.getD .normal), state := some (parameters.state.getD .restored) }
  let requested ← Failure.valueOf parameters.size
  let parent := s.lock (parameters.parent.getD none)
  let (parameters, positioned) ← s.placeOnOutput app parameters parent.isSome
  match parent with
  | some parent => s.placeOnParent parent parameters requested.height
  | none =>
    if positioned then pure parameters else s.placeByState parameters requested.height

def createSurface (w : Window) (spec : WindowSpecification) : Model :=
  let surface : Surface :=
    { topLeft := spec.topLeft.getD ⟨0, 0⟩
      size := spec.size.getD ⟨0, 0⟩
      state := spec.state.getD .restored
      type := spec.type.getD .normal
      name := spec.name.getD ""
      inputRegion := spec.inputShape.getD []
      hidden := false
      posted := false
      confinePointer := spec.confinePointer.getD .unconfined }
  { s with scene := s.scene.insert w surface }

def destroySurface (w : Window) : Model := { s with scene := s.scene.erase w }

def eraseInfo (w : Window) : Model := { s with windowInfo := s.windowInfo.erase w }

/-- `workspaces_to_windows.right.erase(window)`. -/
def eraseFromWorkspaces (w : Window) : Model :=
  { s with workspacesToWindows := s.workspacesToWindows.filter (·.2 ≠ w) }

/-- The pairs that are missing are inserted, and their windows listed. The iterators that
test for a pair were taken before; they see what is inserted unless they were equal. -/
def insertMissing (s : Model) (workspace : Workspace) (nonempty : Bool) :
    List Window → Model × List Window
  | [] => (s, [])
  | w :: rest =>
    if nonempty ∧ w ∈ s.windowsIn workspace then insertMissing s workspace nonempty rest
    else
      let s := { s with workspacesToWindows := s.workspacesToWindows ++ [(workspace, w)] }
      let (s, added) := insertMissing s workspace nonempty rest
      (s, w :: added)

end Model

/-- `Locker`: workspaces that died since the last operation leave the relation. -/
def locker : Manager Unit :=
  Prog.update fun s =>
    { s with
      workspacesToWindows := s.workspacesToWindows.filter (·.1 ∉ s.deadWorkspaces)
      deadWorkspaces := [] }

/-- The search for the root in the two functions below. -/
def rootOf : Nat → Window → Manager Window
  | 0, _ => Prog.exhaust
  | fuel + 1, w => do
    let info ← infoFor w
    let s ← Prog.state
    match s.lock info.parent with
    | some parent => rootOf fuel parent
    | none => pure w

def wholeTree (fuel : Nat) (w : Window) : Manager (List Window) := do
  let root ← rootOf fuel w
  let below ← descendants fuel root
  pure (root :: below)

def adviseAdding (workspace : Workspace) (windows : List Window) : Manager Unit :=
  Prog.onlyIf (windows ≠ []) (emit (.adviseAddingToWorkspace workspace windows))

def adviseRemoving (workspace : Workspace) (windows : List Window) : Manager Unit :=
  Prog.onlyIf (windows ≠ []) (emit (.adviseRemovingFromWorkspace workspace windows))

def insertIntoWorkspace (workspace : Workspace) (windows : List Window) : Manager Unit := do
  let s ← Prog.state
  let (t, added) := s.insertMissing workspace (s.windowsIn workspace ≠ []) windows
  Prog.update fun _ => t
  adviseAdding workspace added

/-- `add_tree_to_workspace`. -/
def addTreeToWorkspace (fuel : Nat) (window : Option Window) (workspace : Workspace) :
    Manager Unit := do
  let s ← Prog.state
  Prog.whenSome (s.lock window) fun w => do
    let windows ← wholeTree fuel w
    insertIntoWorkspace workspace windows

/-- `remove_tree_from_workspace`. -/
def removeTreeFromWorkspace (fuel : Nat) (window : Option Window) (workspace : Workspace) :
    Manager Unit := do
  let s ← Prog.state
  Prog.whenSome (s.lock window) fun w => do
    let windows ← wholeTree fuel w
    let s ← Prog.state
    Prog.update fun s =>
      { s with workspacesToWindows :=
          s.workspacesToWindows.filter fun pair => ¬(pair.1 = workspace ∧ pair.2 ∈ windows) }
    adviseRemoving workspace ((s.windowsIn workspace).filter (· ∈ windows))

/-- `move_workspace_content_to_workspace`. -/
def moveWorkspaceContentToWorkspace (toWorkspace fromWorkspace : Workspace) :
    Manager Unit := do
  let s ← Prog.state
  let windowsRemoved := s.windowsIn fromWorkspace
  Prog.update fun s =>
    { s with workspacesToWindows := s.workspacesToWindows.filter (·.1 ≠ fromWorkspace) }
  adviseRemoving fromWorkspace windowsRemoved
  insertIntoWorkspace toWorkspace windowsRemoved

/-- `add_session`. -/
def addSession (session : Application) : Manager Unit := do
  Prog.update (·.setApp session ⟨[]⟩)
  emit (.adviseNewApp session)

def adopt (w : Window) (parent : Option Window) : Manager Unit := do
  let s ← Prog.state
  Prog.whenSome (s.lock parent) fun parent => do
    let _ ← infoFor parent
    modifyInfo w ({ · with parent := some parent })
  modifySession w.application fun app => { app with windows := app.windows ++ [w] }
  let info ← infoFor w
  let s ← Prog.state
  Prog.whenSome (s.lock info.parent) fun parent => modifyInfo parent (·.addChild w)

/-- `add_surface`; the session makes the surface `surface`. -/
def addSurface (fuel : Nat) (session : Application) (params : SurfaceCreationParameters)
    (surface : Nat) : Manager Unit := do
  let sessionInfo ← infoForSession session
  let s ← Prog.state
  let spec ← Prog.ofExcept
    (s.placeNewSurface sessionInfo (.ofCreationParameters params))
  let window : Window := ⟨session, surface⟩
  Prog.update (·.createSurface window spec)
  let newInfo ← Prog.ofExcept (WindowInfo.ofSpecification spec)
  setInfo window newInfo
  adopt window (spec.parent.getD none)
  let info ← infoFor window
  let s ← Prog.state
  Prog.whenSome info.parent fun parent =>
    Prog.forEach (addTreeToWorkspace fuel (some window)) (s.workspacesContaining parent)
  Prog.onlyIf (info.state = .fullscreen) (Prog.update (·.insertFullscreen window))
  emit (.adviseNewWindow window)
  let s ← Prog.state
  Prog.whenSome (s.lock info.parent) fun parent =>
    Prog.onlyIf (spec.auxRect.isSome ∧ spec.placementHints.isSome) do
      let origin := s.topLeft parent
      emit (.placedRelative window
        ⟨⟨(s.topLeft window).x - origin.x, (s.topLeft window).y - origin.y⟩, s.size window⟩)

/-- `place_and_size_for_state`, then `handle_modify_window` of the canonical policy. -/
def applyRequest (fuel : Nat) (w : Window) (modifications : WindowSpecification) :
    Manager Unit := do
  let info ← infoFor w
  let s ← Prog.state
  modifyWindow fuel w (s.placeAndSizeForState modifications w info)

def handleRequest (fuel : Nat) (w : Window) (modifications : WindowSpecification) :
    Manager Unit := do
  let info ← infoFor w
  let s ← Prog.state
  Prog.ofExcept (s.validateModificationRequest modifications info)
  applyRequest fuel w modifications

/-- `modify_surface`. -/
def modifySurface (fuel : Nat) (w : Window) (modifications : SurfaceSpecification) :
    Manager Unit :=
  handleRequest fuel w (.ofSurfaceSpecification modifications)

/-- The attributes `set_surface_attribute` turns into a request. It passes the others on to
the surface. -/
inductive Attribute where
  | type (value : WindowType)
  | state (value : WindowState)
  | preferredOrientation (value : OrientationMode)

def Attribute.request : Attribute → WindowSpecification
  | type value => { type := some value }
  | state value => { state := some value }
  | preferredOrientation value => { preferredOrientation := some value }

/-- `set_surface_attribute`. -/
def setSurfaceAttribute (fuel : Nat) (w : Window) (attrib : Attribute) : Manager Unit :=
  handleRequest fuel w attrib.request

/-- `erase`: the parent and the children let go of the record. -/
def eraseRecord (w : Window) : Manager Unit := do
  let info ← infoFor w
  let s ← Prog.state
  Prog.whenSome (s.lock info.parent) fun parent => modifyInfo parent (·.removeChild w)
  let info ← infoFor w
  Prog.forEach (fun child => modifyInfo child ({ · with parent := none })) info.children
  Prog.update (·.eraseInfo w)

/-- `remove_window` up to the refocusing. The session held the last reference to the
surface, so the handle is null from `destroy_surface` on. -/
def dropWindow (application : Application) (w : Window) : Manager Unit := do
  let s ← Prog.state
  Prog.forEach (fun workspace => emit (.adviseRemovingFromWorkspace workspace [w]))
    (s.workspacesContaining w)
  Prog.update (·.eraseFromWorkspaces w)
  emit (.adviseDeleteWindow w)
  modifySession application fun app => { app with windows := app.windows.erase w }
  Prog.update (·.eraseMru w)
  Prog.update (·.eraseFullscreen w)
  Prog.update (·.destroySurface w)
  eraseRecord w

/-- `remove_window`. -/
def removeWindow (fuel : Nat) (application : Application) (w : Window) : Manager Unit := do
  let info ← infoFor w
  let s ← Prog.state
  dropWindow application w
  Prog.onlyIf (s.activeWindow = some w)
    (refocus fuel application info.parent (s.workspacesContaining w))

/-- `force_close`. -/
def forceClose (fuel : Nat) (window : Option Window) : Manager Unit := do
  let s ← Prog.state
  Prog.whenSome (s.lock window) fun w => removeWindow fuel w.application w

/-- The loop of `add_display` and `remove_display`, over an order of the set. -/
def placeFullscreen (fuel : Nat) (order : List Window) : Manager Unit :=
  Prog.forEach (fun w => do
    let s ← Prog.state
    Prog.onlyIf (s.Live w) do
      let info ← infoFor w
      let rect := s.fullscreenRectFor w info
      placeAndSize fuel w rect.topLeft rect.size) order

/-- `add_display`. -/
def addDisplay (fuel : Nat) (area : Rectangle) (order : List Window) : Manager Unit := do
  Prog.update fun s => { s with displays := s.displays ++ [area] }
  placeFullscreen fuel order

/-- `remove_display`. -/
def removeDisplay (fuel : Nat) (area : Rectangle) (order : List Window) : Manager Unit := do
  Prog.update fun s => { s with displays := s.displays.erase area }
  placeFullscreen fuel order

/-- `handle_window_ready` of the canonical policy. -/
def handleWindowReady (fuel : Nat) (w : Window) : Manager Unit := do
  let info ← infoFor w
  Prog.onlyIf info.type.canBeActive do
    let _ ← selectActiveWindow fuel (some w)
    pure ()

/-- `handle_raise_surface`. -/
def handleRaiseSurface (fuel : Nat) (w : Window) (timestamp : Nat) : Manager Unit := do
  let s ← Prog.state
  Prog.onlyIf (timestamp ≥ s.lastInputEventTimestamp) do
    let _ ← infoFor w
    let _ ← selectActiveWindow fuel (some w)
    pure ()

def WindowType.draggable : WindowType → Bool
  | .normal | .utility | .dialog | .satellite | .freestyle => true
  | _ => false

/-- `drag_window`. -/
def dragWindow (fuel : Nat) (window : Option Window) (movement : Displacement) :
    Manager Unit := do
  let s ← Prog.state
  Prog.whenSome (s.lock window) fun w => do
    let info ← infoFor w
    Prog.onlyIf info.type.draggable <|
      match info.state with
      | .restored => moveTree fuel w movement
      | .vertmaximized => moveTree fuel w ⟨movement.dx, 0⟩
      | .horizmaximized => moveTree fuel w ⟨0, movement.dy⟩
      | _ => pure ()

/-- What can happen to the manager. All but the last group run under the lock. The last
three are the client posting its first buffer, and the owners of a workspace. -/
inductive Op where
  | addSession (session : Application)
  | addSurface (session : Application) (params : SurfaceCreationParameters) (surface : Nat)
  | modifySurface (window : Window) (modifications : SurfaceSpecification)
  | setSurfaceAttribute (window : Window) (attrib : Attribute)
  | removeSurface (session : Application) (window : Window)
  | forceClose (window : Option Window)
  | modifyWindow (window : Window) (modifications : WindowSpecification)
  | selectActiveWindow (hint : Option Window)
  | handleWindowReady (window : Window)
  | handleRaiseSurface (window : Window) (timestamp : Nat)
  | inputEvent (timestamp : Nat) (cursor : Point)
  | focusNextApplication
  | focusNextWithinApplication
  | focusPrevWithinApplication
  | raiseTree (window : Window)
  | dragWindow (window : Option Window) (movement : Displacement)
  | addDisplay (area : Rectangle) (layout : DisplayLayout) (order : List Window)
  | removeDisplay (area : Rectangle) (layout : DisplayLayout) (order : List Window)
  | addTreeToWorkspace (window : Option Window) (workspace : Workspace)
  | removeTreeFromWorkspace (window : Option Window) (workspace : Workspace)
  | moveWorkspaceContentToWorkspace (toWorkspace fromWorkspace : Workspace)
  | postBuffer (window : Window)
  | createWorkspace (workspace : Workspace)
  | destroyWorkspace (workspace : Workspace)

namespace Op

/-- What an operation does once it holds the lock. -/
def locked (body : Manager Unit) : Manager Unit := do
  locker
  body

def run (fuel : Nat) : Op → Manager Unit
  | addSession session => locked (Miral.addSession session)
  | addSurface session params surface => locked (Miral.addSurface fuel session params surface)
  | modifySurface w modifications => locked (Miral.modifySurface fuel w modifications)
  | setSurfaceAttribute w attrib => locked (Miral.setSurfaceAttribute fuel w attrib)
  | removeSurface session w => locked (removeWindow fuel session w)
  | forceClose w => locked (Miral.forceClose fuel w)
  | modifyWindow w modifications => locked (Miral.modifyWindow fuel w modifications)
  | selectActiveWindow hint => locked do
    let _ ← Miral.selectActiveWindow fuel hint
    pure ()
  | handleWindowReady w => locked (Miral.handleWindowReady fuel w)
  | handleRaiseSurface w timestamp => locked (Miral.handleRaiseSurface fuel w timestamp)
  | inputEvent timestamp cursor => locked <| Prog.update fun s =>
    { s with lastInputEventTimestamp := timestamp, cursor }
  | focusNextApplication => locked (Miral.focusNextApplication fuel)
  | focusNextWithinApplication => locked (Miral.focusNextWithinApplication fuel)
  | focusPrevWithinApplication => locked (Miral.focusPrevWithinApplication fuel)
  | raiseTree w => locked (Miral.raiseTree fuel w)
  | dragWindow w movement => locked (Miral.dragWindow fuel w movement)
  | addDisplay area layout order => locked do
    Prog.update fun s => { s with displayLayout := layout }
    Miral.addDisplay fuel area order
  | removeDisplay area layout order => locked do
    Prog.update fun s => { s with displayLayout := layout }
    Miral.removeDisplay fuel area order
  | addTreeToWorkspace w workspace => locked (Miral.addTreeToWorkspace fuel w workspace)
  | removeTreeFromWorkspace w workspace =>
    locked (Miral.removeTreeFromWorkspace fuel w workspace)
  | moveWorkspaceContentToWorkspace toWorkspace fromWorkspace =>
    locked (Miral.moveWorkspaceContentToWorkspace toWorkspace fromWorkspace)
  | postBuffer w => configure w ({ · with posted := true })
  | createWorkspace workspace => Prog.update fun s =>
    { s with liveWorkspaces := s.liveWorkspaces ++ [workspace] }
  | destroyWorkspace workspace => Prog.update fun s =>
    { s with
      liveWorkspaces := s.liveWorkspaces.filter (· ≠ workspace)
      deadWorkspaces := s.deadWorkspaces ++ [workspace] }

/-- What callers promise: they add each session and surface once, pass the session that
owns the surface, and hold the workspaces they name. A creation request cannot name the
surface it is about to make as its parent. -/
def Contract (s : Model) : Op → Prop
  | addSession session => s.app? session = none
  | addSurface session params surface =>
    ¬s.Managed ⟨session, surface⟩ ∧ ¬s.Live ⟨session, surface⟩ ∧
      params.parent ≠ some ⟨session, surface⟩
  | removeSurface session w => session = w.application
  | addDisplay _ _ order => order.Perm s.fullscreenSurfaces
  | removeDisplay _ _ order => order.Perm s.fullscreenSurfaces
  | addTreeToWorkspace _ workspace => workspace ∈ s.liveWorkspaces
  | removeTreeFromWorkspace _ workspace => workspace ∈ s.liveWorkspaces
  | moveWorkspaceContentToWorkspace toWorkspace fromWorkspace =>
    toWorkspace ∈ s.liveWorkspaces ∧ fromWorkspace ∈ s.liveWorkspaces
  | createWorkspace workspace =>
    workspace ∉ s.liveWorkspaces ∧ workspace ∉ s.deadWorkspaces ∧
      ∀ pair ∈ s.workspacesToWindows, pair.1 ≠ workspace
  | _ => True

instance (s : Model) (op : Op) : Decidable (op.Contract s) := by
  cases op <;> unfold Contract <;> infer_instance

/-- The operation ends, by returning or by throwing, in the state `t`. -/
def Completes (op : Op) (s t : Model) : Prop :=
  ∃ fuel, op.run fuel s = .returned () t ∨ ∃ failure, op.run fuel s = .thrown failure t

end Op

/-- The states of runs from an empty manager, each of whose steps is `allowed`. -/
inductive Reachable (allowed : Model → Op → Prop) : Model → Prop where
  | initial (focusController : FocusController) (displayLayout : DisplayLayout) :
      Reachable allowed (Model.initial focusController displayLayout)
  | step {s t : Model} {op : Op} : Reachable allowed s → allowed s op → op.Completes s t →
      Reachable allowed t

theorem Reachable.mono {allowed allowed' : Model → Op → Prop} {s : Model}
    (weaker : ∀ s op, allowed s op → allowed' s op) (reachable : Reachable allowed s) :
    Reachable allowed' s := by
  induction reachable with
  | initial focusController displayLayout => exact .initial focusController displayLayout
  | step _ allow completes ih => exact .step ih (weaker _ _ allow) completes

/-- The state a run ends in, if each step is allowed and has enough fuel. -/
def Op.follow (fuel : Nat) (allowed : Model → Op → Prop) [∀ s op, Decidable (allowed s op)] :
    List Op → Model → Option Model
  | [], s => some s
  | op :: rest, s =>
    if allowed s op then
      match op.run fuel s with
      | .returned _ t => follow fuel allowed rest t
      | .thrown _ t => follow fuel allowed rest t
      | .exhausted => none
    else none

theorem Reachable.follow {allowed : Model → Op → Prop} [∀ s op, Decidable (allowed s op)]
    {fuel : Nat} {ops : List Op} {s t : Model} (reachable : Reachable allowed s)
    (run : Op.follow fuel allowed ops s = some t) : Reachable allowed t := by
  induction ops generalizing s with
  | nil => exact Option.some.inj run ▸ reachable
  | cons op rest ih =>
    unfold Op.follow at run
    split at run
    · rename_i allow
      split at run
      · rename_i ended
        exact ih (reachable.step allow ⟨fuel, .inl ended⟩) run
      · rename_i ended
        exact ih (reachable.step allow ⟨fuel, .inr ⟨_, ended⟩⟩) run
      · contradiction
    · contradiction

theorem Reachable.returned {allowed : Model → Op → Prop} {fuel : Nat} {s t : Model}
    (reachable : Reachable allowed s) (op : Op) (allow : allowed s op)
    (run : (op.run fuel s).returned? = some t) : Reachable allowed t := by
  obtain ⟨_, ended⟩ := Outcome.returned?_eq_some.mp run
  exact reachable.step allow ⟨fuel, .inl ended⟩

theorem Reachable.through {allowed : Model → Op → Prop} {s : Model}
    (reachable : Reachable allowed s) (property : Model → Prop)
    (holds : ∀ s, Reachable allowed s → property s) :
    Reachable (fun s op => allowed s op ∧ property s) s := by
  induction reachable with
  | initial focusController displayLayout => exact .initial focusController displayLayout
  | step before allow completes ih => exact ih.step ⟨allow, holds _ before⟩ completes

theorem Op.Completes.ensured {op : Op} {s t : Model} (completes : op.Completes s t)
    {property : Model → Prop} (ensures : ∀ fuel,
      (op.run fuel).Ensures s (fun _ t => property t) (fun _ t => property t) True) :
    property t := by
  obtain ⟨fuel, returned | ⟨_, thrown⟩⟩ := completes
  · exact (ensures fuel).returned returned
  · exact (ensures fuel).thrown thrown

theorem Reachable.invariant {allowed : Model → Op → Prop} (property : Model → Prop)
    (initial : ∀ focusController displayLayout,
      property (Model.initial focusController displayLayout))
    (kept : ∀ s op fuel, property s → allowed s op →
      (op.run fuel).Ensures s (fun _ t => property t) (fun _ t => property t) True)
    {s : Model} (reachable : Reachable allowed s) : property s := by
  induction reachable with
  | initial focusController displayLayout => exact initial focusController displayLayout
  | step _ allow completes ih => exact completes.ensured fun fuel => kept _ _ fuel ih allow

end Miral
