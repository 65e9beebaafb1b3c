import Miral.MRUWindowList
import Miral.Modify
import Miral.Search
import Miral.WorkspaceFrame
import Miral.Reachability

/-! The enumerations of the list of active windows whose enumerators select a window, and so push
onto the list that is being read: an enumerator that has done so ends the enumeration. -/
namespace Miral

open Program Prog

/-- `mru_active_windows`. -/
def Model.mru (s : Model) : MRUWindowList := ⟨s.mruActiveWindows⟩

theorem Model.mru_refines (s : Model) : s.activeWindow = s.mru.top s.visible ∧
    (∀ w, (s.pushMru w).mru = s.mru.push w) ∧ ∀ w, (s.eraseMru w).mru = s.mru.erase w :=
  ⟨rfl, fun _ => rfl, fun _ => rfl⟩

/-- The manager and `new_focus`, which the enumerators capture. -/
structure Captured where
  manager : Model
  newFocus : Option Window

namespace Captured

def setManager (c : Captured) (m : Model) : Captured := { c with manager := m }

end Captured

/-- The six calls of `enumerate`: the first two are those of `refocus` itself, the next two those
of `set_state`, where nothing is captured. -/
inductive Enumeration where
  | refocusInWorkspace (workspacesContainingWindow : List Workspace)
  | refocusAnywhere
  | setStateInWorkspace (window : Window) (workspacesContainingWindow : List Workspace)
  | setStateAnywhere (window : Window)
  | canActivateWindowForSession (session : Option Application)
  | canActivateWindowForSessionInWorkspace (session : Option Application)
      (workspaces : List Workspace)

namespace Enumeration

def admits : Enumeration → Model → Window → Bool
  | refocusInWorkspace workspaces => fun s w => s.sharesWorkspace w workspaces
  | refocusAnywhere => fun _ _ => true
  | setStateInWorkspace window workspaces => fun s candidate =>
    candidate ≠ window ∧ s.sharesWorkspace candidate workspaces
  | setStateAnywhere window => fun _ candidate => candidate ≠ window
  | canActivateWindowForSession session => fun _ w => some w.application = session
  | canActivateWindowForSessionInWorkspace session workspaces => fun s w =>
    some w.application = session ∧ s.sharesWorkspace w workspaces

/-- The enumerator: `!(new_focus = select_active_window(w))`, or `true`. -/
def enumerator (self : Enumeration) (fuel : Nat) (w : Window) : Prog Failure Captured Bool := do
  let c ← Prog.state
  if self.admits c.manager w then do
    let newFocus ← (selectActiveWindow fuel (some w)).zoom Captured.manager Captured.setManager
    Prog.update ({ · with newFocus })
    let c ← Prog.state
    pure (c.manager.lock newFocus).isNone
  else pure true

/-- The enumeration, with the null window in `new_focus` to begin with and as a truth value in the
end. -/
def capture (enumeration : Prog Failure Captured Unit) : Manager (Option Window) := fun s =>
  match enumeration ⟨s, none⟩ with
  | .returned _ c => .returned (c.manager.lock c.newFocus) c.manager
  | .thrown failure c => .thrown failure c.manager
  | .exhausted => .exhausted

end Enumeration

namespace MRUWindowList

variable {ε σ : Type}

/-- The loop of `enumerate`, but `alarm` takes over where it is about to read a list that has been
modified. -/
def watchFrom (modified : σ → Bool) (alarm : Prog ε σ Unit) (list : σ → MRUWindowList)
    (visible : σ → Window → Bool) (enumerator : Window → Prog ε σ Bool) : Nat → Prog ε σ Unit
  | 0 => pure ()
  | i + 1 => do
    let s ← Prog.state
    if modified s then alarm
    else match (list s).windows[i]? with
    | some window =>
      if visible s window then do
        if ← enumerator window then watchFrom modified alarm list visible enumerator i
        else pure ()
      else watchFrom modified alarm list visible enumerator i
    | none => watchFrom modified alarm list visible enumerator i

/-- No alarm goes off where an enumerator that wants to see more has modified nothing. -/
theorem watchFrom_eq {modified : σ → Bool} {alarm : Prog ε σ Unit} {list : σ → MRUWindowList}
    {visible : σ → Window → Bool} {enumerator : Window → Prog ε σ Bool} {s : σ}
    (careful : ∀ window s t, visible s window → enumerator window s = .returned true t →
      modified s = false → modified t = false) (i : Nat) (untouched : modified s = false) :
    watchFrom modified alarm list visible enumerator i s =
      enumerateFrom list visible enumerator i s := by
  induction i generalizing s with
  | zero => rfl
  | succ i ih =>
    simp only [watchFrom, enumerateFrom, bind_run, Prog.state, untouched, Bool.false_eq_true,
      if_false]
    cases (list s).windows[i]? with
    | none => exact ih untouched
    | some window =>
      dsimp only
      split
      · rename_i shows
        simp only [bind_run]
        cases run : enumerator window s with
        | returned answer t =>
          cases answer with
          | true => exact ih (careful window s t shows run untouched)
          | false => rfl
        | thrown failure t => rfl
        | exhausted => rfl
      · exact ih untouched

end MRUWindowList

namespace Model

variable {s t : Model} {w x : Window} {fuel : Nat}

def Reports (s t : Model) : Prop := ∃ events, t = s.emits events

instance : IsPreorder Model Reports where
  refl s := ⟨[], by simp [emits]⟩
  trans s t u first second := by
    obtain ⟨earlier, rfl⟩ := first
    obtain ⟨later, rfl⟩ := second
    exact ⟨earlier ++ later, by simp [emits]⟩

theorem reports_emit (s : Model) (event : Event) : Reports s (s.emit event) := ⟨[event], rfl⟩

theorem keeps_losing : (adviseFocusLost w).Keeps Reports :=
  .bind keeps_infoFor fun _ => .update fun s => reports_emit s _

theorem keeps_gaining : (adviseFocusGained fuel w).Keeps Reports :=
  .bind (.update fun s => reports_emit s _) fun _ =>
    keeps_raising (fun s _ => reports_emit s _) (fun s _ => reports_emit s _) fuel w

/-- `x` has been pushed onto the list, and the focus set to it. -/
structure Pushed (s : Model) (x : Window) (t : Model) : Prop where
  live : t.Live x
  list : t.mru = s.mru.push x
  log : ∃ later, t.log = s.log ++ .setFocusTo (some x.application) (some x) :: later

theorem Pushed.ne (pushed : s.Pushed x t) : t.log ≠ s.log := by
  obtain ⟨later, log⟩ := pushed.log
  rw [log]
  intro same
  have empty := List.append_right_eq_self.mp same
  exact List.cons_ne_nil _ _ empty

theorem pushed_of_focused {later : List Event} (live : s.Live w)
    (eq : t = ({ s.pushMru w with focus := ⟨some w.application, some w⟩ }.emit
      (.setFocusTo (some w.application) (some w))).emits later) : s.Pushed w t := by
  subst eq
  constructor
  · exact live
  · exact s.mru_refines.2.1 w
  · exact ⟨later, by simp [emits, emit, pushMru]⟩

theorem ensures_visibleDialog_live (children : List Window) :
    (visibleDialog children).Ensures s (fun found t => t = s ∧ ∀ c, found = some c → s.Live c)
      (fun _ _ => True) True := by
  induction children with
  | nil => exact ⟨rfl, fun c none => absurd none.symm (Option.some_ne_none c)⟩
  | cons child rest ih =>
    rw [visibleDialog, ensures_bind, ensures_infoFor]
    refine ⟨fun info here => ?_, fun _ => trivial⟩
    rw [ensures_bind, ensures_state, ensures_ite]
    refine ⟨fun dialog => ⟨rfl, fun c found => ?_⟩, fun _ => ih⟩
    rw [← Option.some.inj found]
    exact isVisible_live dialog.2

/-- Every way through a selection: nothing has been done and there is nothing to return, or the
window that is returned has been pushed. -/
theorem ensures_selection (live : s.Live w) :
    (selectActiveWindow fuel (some w)).Ensures s
      (fun r t => r = none ∧ t = s ∨ ∃ x, r = some x ∧ s.Pushed x t) (fun _ _ => True) True := by
  induction fuel generalizing w with
  | zero => trivial
  | succ fuel ih =>
    rw [selectActiveWindow, ensures_bind, ensures_state, lock_some live]
    dsimp only
    rw [ensures_bind, ensures_infoFor]
    refine ⟨fun info here => ?_, fun _ => trivial⟩
    refine (ensures_visibleDialog_live info.children).bind ?_
    intro found t after
    rcases after with ⟨rfl, there⟩
    cases found with
    | some child => exact ih (there child rfl)
    | none =>
      dsimp only
      rw [ensures_ite]
      constructor
      · intro _
        rw [ensures_bind, ensures_update, setFocusTo, ensures_bind, ensures_update]
        have lost : (whenSome t.activeWindow fun prev =>
            onlyIf (prev ≠ w) (adviseFocusLost prev) : Manager Unit).Keeps Reports :=
          .whenSome fun _ => .onlyIf keeps_losing
        apply lost.follow
        intro _ u said
        apply keeps_gaining.follow
        intro _ v more
        obtain ⟨later, eq⟩ := trans_of Reports said more
        exact .inr ⟨w, rfl, pushed_of_focused live eq⟩
      · intro unfocusable
        cases above : t.lock info.parent with
        | some parent => exact ih (lock_eq_some.mp above).2
        | none => exact .inl ⟨rfl, rfl⟩

end Model

namespace Enumeration

open Model

variable {self : Enumeration} {s t : Model} {c d : Captured} {w : Window} {fuel : Nat}
  {newFocus : Option Window} {answer : Bool}

theorem run_admitted {r : Option Window} (admitted : self.admits c.manager w = true)
    (run : selectActiveWindow fuel (some w) c.manager = .returned r t) :
    self.enumerator fuel w c = .returned (t.lock r).isNone ⟨t, r⟩ := by
  simp only [enumerator, bind_run, Prog.state, admitted, if_true, zoom, run, Prog.update,
    Captured.setManager, pure_run]

theorem run_passed (passed : self.admits c.manager w = false) :
    self.enumerator fuel w c = .returned true c := by
  simp only [enumerator, bind_run, Prog.state, passed, Bool.false_eq_true, if_false, pure_run]

theorem run_thrown {failure : Failure} (admitted : self.admits c.manager w = true)
    (run : selectActiveWindow fuel (some w) c.manager = .thrown failure t) :
    self.enumerator fuel w c = .thrown failure (c.setManager t) := by
  simp only [enumerator, bind_run, Prog.state, admitted, if_true, zoom, run]

theorem run_exhausted (admitted : self.admits c.manager w = true)
    (run : selectActiveWindow fuel (some w) c.manager = .exhausted) :
    self.enumerator fuel w c = .exhausted := by
  simp only [enumerator, bind_run, Prog.state, admitted, if_true, zoom, run]

/-- The two answers: nothing has changed, or a window has been pushed and is the new focus. -/
inductive Answers (c : Captured) : Bool → Captured → Prop where
  | passed : Answers c true c
  | missed : Answers c true ⟨c.manager, none⟩
  | pushed {x : Window} {t : Model} : c.manager.Pushed x t → Answers c false ⟨t, some x⟩

/-- An enumerator that is called on a window that shows answers in one of the two ways. -/
theorem answers_of_run (shows : c.manager.visible w)
    (run : self.enumerator fuel w c = .returned answer d) : Answers c answer d := by
  cases admitted : self.admits c.manager w with
  | false =>
    rw [run_passed admitted] at run
    injection run with same here
    subst same here
    exact .passed
  | true =>
    cases selected : selectActiveWindow fuel (some w) c.manager with
    | returned r t =>
      rw [run_admitted admitted selected] at run
      injection run with same here
      subst same here
      have outcome := (ensures_selection (visible_live shows)).returned selected
      rcases outcome with ⟨rfl, rfl⟩ | pushing
      · exact .missed
      · obtain ⟨x, rfl, pushed⟩ := pushing
        rw [lock_some pushed.live]
        exact .pushed pushed
    | thrown failure t =>
      rw [run_thrown admitted selected] at run
      injection run
    | exhausted =>
      rw [run_exhausted admitted selected] at run
      injection run

theorem Answers.unchanged (answers : Answers c true d) : d.manager = c.manager := by
  cases answers with
  | passed => rfl
  | missed => rfl

/-- The call of `enumerate`. -/
def loop (self : Enumeration) (fuel : Nat) : Prog Failure Captured Unit :=
  MRUWindowList.enumerate (·.manager.mru) (·.manager.visible) (self.enumerator fuel)

/-- The call, with an alarm on the list and on what is said of pushes. -/
def watched (self : Enumeration) (fuel : Nat) (alarm : Prog Failure Captured Unit) :
    Prog Failure Captured Unit := do
  let start ← Prog.state
  MRUWindowList.watchFrom
    (fun c => c.manager.mru ≠ start.manager.mru ∨ c.manager.log ≠ start.manager.log) alarm
    (·.manager.mru) (·.manager.visible) (self.enumerator fuel) start.manager.mru.windows.length

theorem watched_eq (alarm : Prog Failure Captured Unit) :
    self.watched fuel alarm = self.loop fuel := by
  funext start
  simp only [watched, loop, MRUWindowList.enumerate, bind_run, Prog.state]
  apply MRUWindowList.watchFrom_eq
  · intro w c d shows run untouched
    rw [(answers_of_run shows run).unchanged]
    exact untouched
  · simp

/-- What the model makes of an enumeration is the enumeration. -/
theorem capture_enumerateFrom (i : Nat) :
    capture (MRUWindowList.enumerateFrom (·.manager.mru) (·.manager.visible)
        (self.enumerator fuel) i) s =
      enumerate (fun w => do
        let s ← Prog.state
        if self.admits s w then trySelect fuel w else pure none) i s := by
  induction i with
  | zero => rfl
  | succ i ih =>
    simp only [capture, MRUWindowList.enumerateFrom, enumerate, bind_run, Prog.state, mru] at ih ⊢
    cases s.mruActiveWindows[i]? with
    | none => exact ih
    | some w =>
      dsimp only
      by_cases shows : s.visible w = true
      · simp only [shows, if_true, bind_run, Prog.state]
        by_cases admitted : self.admits s w = true
        · simp only [admitted, if_true, trySelect, bind_run, Prog.state, pure_run]
          cases selected : selectActiveWindow fuel (some w) s with
          | returned r t =>
            rw [run_admitted (c := ⟨s, none⟩) admitted selected]
            have outcome := (ensures_selection (visible_live shows)).returned selected
            rcases outcome with ⟨rfl, rfl⟩ | pushing
            · exact ih
            · obtain ⟨x, rfl, pushed⟩ := pushing
              simp [pure_run, lock_some pushed.live]
          | thrown failure t =>
            rw [run_thrown (c := ⟨s, none⟩) admitted selected]
            rfl
          | exhausted => rw [run_exhausted (c := ⟨s, none⟩) admitted selected]
        · rw [run_passed (c := ⟨s, none⟩) (Bool.eq_false_iff.mpr admitted)]
          simp only [admitted, Bool.false_eq_true, if_false, pure_run]
          exact ih
      · simp only [shows, Bool.false_eq_true, if_false]
        exact ih

theorem capture_loop : capture (self.loop fuel) = enumerateIf fuel self.admits := by
  funext s
  exact capture_enumerateFrom s.mruActiveWindows.length

/-- `refocus`, given what its enumerations and those of the functions it calls find. -/
def refocusWith (find : Enumeration → Manager (Option Window)) (fuel : Nat)
    (application : Application) (parent : Option Window) (workspaces : List Workspace) :
    Manager Unit := do
  let s ← Prog.state
  let newFocus ←
    Prog.orElse (tryWindow fuel (s.lock parent)) <|
    Prog.orElse (find (.canActivateWindowForSessionInWorkspace (some application) workspaces)) <|
    Prog.orElse (find (.refocusInWorkspace workspaces)) <|
    Prog.orElse (find (.canActivateWindowForSession (some application))) <|
    find .refocusAnywhere
  Prog.onlyIf (newFocus = none) (focusNextApplication fuel)

/-- The part of `set_state` that enumerates, given what its enumerations find. -/
def moveFocusFromWith (find : Enumeration → Manager (Option Window)) (fuel : Nat) (w : Window) :
    Manager Unit := do
  let _ ← selectActiveWindow fuel (some w)
  let s ← Prog.state
  Prog.onlyIf (s.activeWindow = some w ∨ s.activeWindow = none) do
    let workspaces := s.workspacesContaining w
    let _ ← find (.setStateInWorkspace w workspaces)
    pure ()
  let s ← Prog.state
  Prog.onlyIf (s.activeWindow = some w ∨ s.activeWindow = none) do
    let _ ← find (.setStateAnywhere w)
    pure ()
  let s ← Prog.state
  Prog.onlyIf (s.activeWindow = some w) do
    let _ ← selectActiveWindow fuel none
    pure ()

theorem capture_watched (alarm : Prog Failure Captured Unit) :
    (fun e : Enumeration => capture (e.watched fuel alarm)) =
      fun e => enumerateIf fuel e.admits := by
  funext e
  rw [watched_eq, capture_loop]

theorem Answers.pushed_iff (answers : Answers c answer d) :
    answer = false ↔ ∃ x, c.manager.Pushed x d.manager := by
  constructor
  · rintro rfl
    cases answers with
    | pushed pushed => exact ⟨_, pushed⟩
  · intro some
    obtain ⟨x, pushed⟩ := some
    cases answers with
    | passed => exact absurd rfl pushed.ne
    | missed => exact absurd rfl pushed.ne
    | pushed _ => rfl

theorem enumerator_returns (integrity : c.manager.Integrity) (enough : ¬c.manager.Short fuel)
    (shows : c.manager.visible w) : ∃ answer d, self.enumerator fuel w c = .returned answer d := by
  cases admitted : self.admits c.manager w with
  | false => exact ⟨true, c, run_passed admitted⟩
  | true =>
    obtain ⟨r, t, run, -⟩ :=
      (ensures_selectActiveWindow integrity (visible_live shows)).returns enough
    exact ⟨_, _, run_admitted admitted run⟩

/-- No enumeration reads on in a list that its enumerator has pushed onto: whatever would be done
there instead, the functions that enumerate do the same. An enumerator answers `false` exactly
where its selection has pushed, and has changed nothing where it answers `true`. With acyclic
trees and enough fuel it does answer, and the enumeration comes to an end. -/
theorem enumerations_stop_at_a_push :
    (∀ fuel (alarm : Prog Failure Captured Unit),
      (∀ session, Miral.canActivateWindowForSession fuel session =
        capture ((canActivateWindowForSession session).watched fuel alarm)) ∧
      (∀ session workspaces, Miral.canActivateWindowForSessionInWorkspace fuel session workspaces =
        capture ((canActivateWindowForSessionInWorkspace session workspaces).watched fuel alarm)) ∧
      (∀ application parent workspaces, refocus fuel application parent workspaces =
        refocusWith (fun e => capture (e.watched fuel alarm)) fuel application parent workspaces) ∧
      ∀ w, moveFocusFrom fuel w =
        moveFocusFromWith (fun e => capture (e.watched fuel alarm)) fuel w) ∧
    (∀ (e : Enumeration) fuel c w answer d, c.manager.visible w →
      e.enumerator fuel w c = .returned answer d →
        (answer = false ↔ ∃ x, c.manager.Pushed x d.manager) ∧
        (answer = true → d.manager = c.manager)) ∧
    ∀ s : Model, s.Integrity → s.Acyclic → ∃ n, ∀ fuel ≥ n, ∀ e : Enumeration,
      (∀ newFocus w, s.visible w →
        ∃ answer d, e.enumerator fuel w ⟨s, newFocus⟩ = .returned answer d) ∧
      ∃ r t, capture (e.loop fuel) s = .returned r t ∧ s.Selected r t := by
  refine ⟨?_, ?_, ?_⟩
  · intro fuel alarm
    rw [capture_watched]
    refine ⟨fun session => ?_, fun session workspaces => ?_, fun _ _ _ => rfl, fun _ => rfl⟩
    · rw [watched_eq, capture_loop]
      rfl
    · rw [watched_eq, capture_loop]
      rfl
  · intro e fuel c w answer d shows run
    have answers := answers_of_run shows run
    refine ⟨answers.pushed_iff, ?_⟩
    rintro rfl
    exact answers.unchanged
  · intro s integrity acyclic
    obtain ⟨n, enough⟩ := acyclic.enough
    refine ⟨n, fun fuel le e => ⟨fun newFocus w shows => ?_, ?_⟩⟩
    · exact enumerator_returns integrity (enough fuel le) shows
    · rw [capture_loop]
      obtain ⟨r, t, run, -, selected⟩ :=
        (searches_enumerateIf integrity e.admits).returns (enough fuel le)
      exact ⟨r, t, run, selected⟩

/-- Two windows, both of which answer. -/
theorem enumerations_stop_at_a_push_pair : ∃ n, ∀ fuel ≥ n,
    (∀ w : Window, w = ⟨1, 1⟩ ∨ w = ⟨1, 2⟩ → ∃ answer d,
      (canActivateWindowForSession (some 1)).enumerator fuel w ⟨Model.pairState, none⟩ =
        .returned answer d) ∧
    ∃ r t, capture ((canActivateWindowForSession (some 1)).loop fuel) Model.pairState = .returned r t ∧
      Model.pairState.Selected r t := by
  obtain ⟨integrity, acyclic⟩ := reachable_pairState.acyclic_of_linkless.acyclic
  have first : Model.pairState.visible ⟨1, 1⟩ := by decide +kernel
  have second : Model.pairState.visible ⟨1, 2⟩ := by decide +kernel
  obtain ⟨-, -, returns⟩ := enumerations_stop_at_a_push
  obtain ⟨n, enough⟩ := returns _ integrity acyclic
  refine ⟨n, fun fuel le => ?_⟩
  obtain ⟨answers, ends⟩ := enough fuel le (canActivateWindowForSession (some 1))
  refine ⟨fun w either => answers none w ?_, ends⟩
  rcases either with rfl | rfl
  · exact first
  · exact second

end Enumeration

end Miral
