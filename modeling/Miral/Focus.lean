import Miral.Model

/-! Selecting the active window, raising its tree, and the searches that pick the next
window to focus. The recursions of the source have no bound of their own, so each takes
fuel; a run that exhausts it stands for one that does not end. -/
namespace Miral

open Program

def setFocusTo (session : Option Application) (surface : Option Window) : Manager Unit :=
  Prog.update fun s => { s with focus := ⟨session, surface⟩ }.emit (.setFocusTo session surface)

/-- The recursion `add_children`, shared by raising and by the workspace operations. -/
def descendants : Nat → Window → Manager (List Window)
  | 0, _ => Prog.exhaust
  | fuel + 1, w => do
    let info ← infoFor w
    Prog.collect (fun child => do
      let below ← descendants fuel child
      pure (child :: below)) info.children

/-- `raise_tree`. -/
def raiseTree : Nat → Window → Manager Unit
  | 0, _ => Prog.exhaust
  | fuel + 1, root => do
    let info ← infoFor root
    let s ← Prog.state
    Prog.whenSome (s.lock info.parent) (raiseTree fuel)
    let below ← descendants fuel root
    emit (.adviseRaise (root :: below))
    emit (.raise (root :: below))

def adviseFocusLost (w : Window) : Manager Unit := do
  let _ ← infoFor w
  emit (.adviseFocusLost w)

/-- `CanonicalWindowManagerPolicy::advise_focus_gained` raises the tree. -/
def adviseFocusGained (fuel : Nat) (w : Window) : Manager Unit := do
  emit (.adviseFocusGained w)
  raiseTree fuel w

def visibleDialog : List Window → Manager (Option Window)
  | [] => pure none
  | child :: rest => do
    let info ← infoFor child
    let s ← Prog.state
    if info.type = .dialog ∧ s.isVisible child info then pure (some child)
    else visibleDialog rest

/-- `select_active_window` for a null hint, `none`, and for a window. -/
def selectActiveWindow : Nat → Option Window → Manager (Option Window)
  | 0, _ => Prog.exhaust
  | fuel + 1, hint => do
    let s ← Prog.state
    let prevWindow := s.activeWindow
    match s.lock hint with
    | none => do
      Prog.whenSome prevWindow fun prev => do
        setFocusTo (hint.map Window.application) none
        adviseFocusLost prev
      pure hint
    | some w => do
      let info ← infoFor w
      match ← visibleDialog info.children with
      | some child => selectActiveWindow fuel (some child)
      | none =>
        if info.type.canBeActive ∧ s.isVisible w info then do
          Prog.update (·.pushMru w)
          setFocusTo (some w.application) (some w)
          Prog.whenSome prevWindow fun prev => Prog.onlyIf (prev ≠ w) (adviseFocusLost prev)
          adviseFocusGained fuel w
          pure (some w)
        else
          -- Cannot have input focus - try the parent
          match s.lock info.parent with
          | some parent => selectActiveWindow fuel (some parent)
          | none => pure none

def trySelect (fuel : Nat) (w : Window) : Manager (Option Window) := do
  let newFocus ← selectActiveWindow fuel (some w)
  let s ← Prog.state
  pure (s.lock newFocus)

def tryWindow (fuel : Nat) : Option Window → Manager (Option Window)
  | some w => trySelect fuel w
  | none => pure none

/-- `MRUWindowList::enumerate`, from the position before `i` down. Every enumerator of the
source returns `!(new_focus = …)` or `true`; here it returns the new focus, which ends
the enumeration. -/
def enumerate (enumerator : Window → Manager (Option Window)) : Nat → Manager (Option Window)
  | 0 => pure none
  | i + 1 => do
    let s ← Prog.state
    match s.mruActiveWindows[i]? with
    | some w =>
      if s.visible w then do
        match ← enumerator w with
        | some newFocus => pure (some newFocus)
        | none => enumerate enumerator i
      else enumerate enumerator i
    | none => enumerate enumerator i

def enumerateMru (enumerator : Window → Manager (Option Window)) : Manager (Option Window) := do
  let s ← Prog.state
  enumerate enumerator s.mruActiveWindows.length

def enumerateIf (fuel : Nat) (admits : Model → Window → Bool) : Manager (Option Window) :=
  enumerateMru fun w => do
    let s ← Prog.state
    if admits s w then trySelect fuel w else pure none

/-- `can_activate_window_for_session`, which returns the new focus as a truth value. -/
def canActivateWindowForSession (fuel : Nat) (session : Option Application) :
    Manager (Option Window) :=
  enumerateIf fuel fun _ w => some w.application = session

/-- `can_activate_window_for_session_in_workspace`. -/
def canActivateWindowForSessionInWorkspace (fuel : Nat) (session : Option Application)
    (workspaces : List Workspace) : Manager (Option Window) :=
  enumerateIf fuel fun s w => some w.application = session ∧ s.sharesWorkspace w workspaces

def focusNextSession : Manager Unit :=
  Prog.update fun s =>
    { s with focus := s.focusController.nextSession s.scene.keys s.focus }.emit .focusNextSession

/-- The `do … while` loop of `focus_next_application`; `true` when it found a window. -/
def focusNextInWorkspace (prev : Window) (workspaces : List Workspace) : Nat → Manager Bool
  | 0 => Prog.exhaust
  | fuel + 1 => do
    focusNextSession
    let s ← Prog.state
    match ← canActivateWindowForSessionInWorkspace fuel s.focus.session workspaces with
    | some _ => pure true
    | none => do
      let s ← Prog.state
      if s.focus.session ≠ some prev.application then focusNextInWorkspace prev workspaces fuel
      else pure false

/-- What `focus_next_application` does when no workspace decides. -/
def focusNextAnywhere (fuel : Nat) : Manager Unit := do
  focusNextSession
  let s ← Prog.state
  match ← canActivateWindowForSession fuel s.focus.session with
  | some _ => pure ()
  | none => do
    let s ← Prog.state
    match s.lock s.focus.surface with
    | some surface => do
      let _ ← infoFor surface
      let _ ← selectActiveWindow fuel (some surface)
      pure ()
    | none => do
      let _ ← selectActiveWindow fuel none
      pure ()

/-- `focus_next_application`. -/
def focusNextApplication (fuel : Nat) : Manager Unit := do
  let s ← Prog.state
  match s.activeWindow with
  | some prev =>
    let workspaces := s.workspacesContaining prev
    if workspaces ≠ [] then do
      if ← focusNextInWorkspace prev workspaces fuel then pure () else focusNextAnywhere fuel
    else focusNextAnywhere fuel
  | none => focusNextAnywhere fuel

/-- Selects `current` once for each shared workspace until the result is not `prev`. -/
def selectForEach (fuel : Nat) (prev current : Window) : List Workspace → Manager Bool
  | [] => pure false
  | _ :: rest => do
    let selected ← selectActiveWindow fuel (some current)
    if selected ≠ some prev then pure true else selectForEach fuel prev current rest

/-- One pass over siblings that share a workspace with `prev`. -/
def selectSiblingInWorkspace (fuel : Nat) (prev : Window) (workspaces : List Workspace) :
    List Window → Manager Bool
  | [] => pure false
  | current :: rest => do
    let s ← Prog.state
    let shared := (s.workspacesContaining current).flatMap fun workspace =>
      workspaces.filter (· = workspace)
    if ← selectForEach fuel prev current shared then pure true
    else selectSiblingInWorkspace fuel prev workspaces rest

def selectSibling (fuel : Nat) (prev : Window) : List Window → Manager Bool
  | [] => pure false
  | current :: rest => do
    let selected ← selectActiveWindow fuel (some current)
    if selected ≠ some prev then pure true else selectSibling fuel prev rest

/-- The four loops shared by the two functions below: the siblings after the active
window, then those before it, first within its workspaces and then anywhere. -/
def focusSibling (fuel : Nat) (order : List Window → List Window) : Manager Unit := do
  let s ← Prog.state
  match s.activeWindow with
  | some prev => do
    let workspaces := s.workspacesContaining prev
    let app ← infoForSession prev.application
    let siblings := order app.windows
    let before := siblings.takeWhile (· ≠ prev)
    let after := (siblings.dropWhile (· ≠ prev)).tail
    if ← selectSiblingInWorkspace fuel prev workspaces after then pure ()
    else if ← selectSiblingInWorkspace fuel prev workspaces before then pure ()
    else if ← selectSibling fuel prev after then pure ()
    else do
      let _ ← selectSibling fuel prev before
      pure ()
  | none => pure ()

/-- `focus_next_within_application`. -/
def focusNextWithinApplication (fuel : Nat) : Manager Unit := focusSibling fuel id

/-- `focus_prev_within_application`. -/
def focusPrevWithinApplication (fuel : Nat) : Manager Unit := focusSibling fuel List.reverse

/-- `refocus`. -/
def refocus (fuel : Nat) (application : Application) (parent : Option Window)
    (workspaces : List Workspace) : Manager Unit := do
  let s ← Prog.state
  let newFocus ←
    Prog.orElse (tryWindow fuel (s.lock parent)) <|
    Prog.orElse (canActivateWindowForSessionInWorkspace fuel (some application) workspaces) <|
    Prog.orElse (enumerateIf fuel fun s w => s.sharesWorkspace w workspaces) <|
    Prog.orElse (canActivateWindowForSession fuel (some application)) <|
    enumerateIf fuel fun _ _ => true
  Prog.onlyIf (newFocus = none) (focusNextApplication fuel)

end Miral
