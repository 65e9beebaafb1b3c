import Miral.Library.Token
import Miral.Coherence

/-! The focus as a token: windows gain and lose it by what the policy is told. The policy is
told the truth as long as the window that is active by the MRU list is the one that holds
the token, and a few steps can get the two out of step. -/
namespace Miral

open Program Prog Forest Model Token

/-- What a notification says about the focus. -/
def Event.signal : Event → Option (Signal Window)
  | .adviseFocusGained w => some (.gained w)
  | .adviseFocusLost w => some (.lost w)
  | .adviseDeleteWindow w => some (.gone w)
  | _ => none

namespace Model

variable {s t d : Model} {w v x a : Window} {info tmp : WindowInfo} {value : WindowState}

def signals (s : Model) : List (Signal Window) := s.log.filterMap Event.signal

/-- Setting a state in `s` keeps the active window and the holder of the focus in step: a
window that is hidden passes the focus on unless no other one is visible, and a window that
becomes the active one by being shown gets the focus itself. -/
structure SetsInStep (s : Model) (w : Window) (value : WindowState) : Prop where
  hides : ∀ info, s.info? w = some info → value.concealed → s.activeWindow = some w →
    (∃ x, (s.entered w info value).FirstPick ((s.entered w info value).hideFallbacks w) (some x)) ∨
      ∀ v ∈ s.mruActiveWindows, v ≠ w → ¬s.visible v
  shows : ∀ info, s.info? w = some info → ¬value.concealed → info.state.concealed →
    s.activeWindow = none → w ∈ s.mruActiveWindows →
      ((s.entered w info value).drawn w value false).Picks w (some w)

/-- The active window holds the focus, it is the last one in the MRU list, and so far every
notification was proper. -/
structure InStep (s : Model) : Prop where
  coherent : s.Coherent
  top : ∀ a, s.activeWindow = some a → s.mruActiveWindows.getLast? = some a
  orderly : Orderly s.signals
  held : holders s.signals = s.activeWindow.toList

end Model

/-- What keeps the focus in step: no window is active when a null one is selected, and where
the active window is closed the window that is next in the MRU list is the one that gets
the focus. -/
def FocusCondition.inStep : FocusCondition where
  null s hint := s.lock hint = none → s.activeWindow = none
  modify s w modifications := ∀ info tmp t value, s.info? w = some info →
    Requested s modifications info tmp → Prepared w modifications tmp s t →
    modifications.state = some value → t.SetsInStep w value
  remove s w := ∀ info d next, s.activeWindow = some w → s.info? w = some info →
    dropWindow w.application w s = .returned () d → d.activeWindow = some next →
    d.FirstPick (d.fallbacks w.application info.parent (s.workspacesContaining w)) (some next)

namespace Model

variable {s t d : Model} {w v x a : Window} {info tmp : WindowInfo} {value : WindowState}

theorem signals_append {events : List Event} (log : t.log = s.log ++ events) :
    t.signals = s.signals ++ events.filterMap Event.signal := by
  rw [signals, log, List.filterMap_append]
  rfl

theorem signals_quiet {events : List Event} (quiet : ∀ event ∈ events, event.quiet) :
    events.filterMap Event.signal = [] := by
  rw [List.filterMap_eq_nil_iff]
  intro event member
  have := quiet event member
  cases event <;> simp_all [Event.quiet, Event.signal]

theorem signals_focusOn {raised : List Event} (quiet : ∀ event ∈ raised, event.quiet) :
    (s.focusOn x raised).signals = s.signals ++ handover s.activeWindow x := by
  have log : (s.focusOn x raised).log = s.log ++ (.setFocusTo (some x.application) (some x) ::
    s.lostTo x ++ .adviseFocusGained x :: raised) := rfl
  have gained : (Event.adviseFocusGained x :: raised).filterMap Event.signal = [.gained x] := by
    rw [List.filterMap_cons, signals_quiet quiet]
    rfl
  rw [signals_append log, List.cons_append, List.filterMap_cons_none rfl, List.filterMap_append,
    gained]
  unfold handover lostTo
  cases s.activeWindow with
  | none => rfl
  | some prev =>
    dsimp only
    split <;> rfl

theorem activeWindow_of_last (last : s.mruActiveWindows.getLast? = some a) (seen : s.visible a) :
    s.activeWindow = some a := by
  obtain ⟨front, eq⟩ := List.getLast?_eq_some_iff.mp last
  exact activeWindow_concat eq seen

theorem InStep.of_focusOn {raised : List Event} (coherent : s.Coherent) (focusable : s.Focusable x)
    (quiet : ∀ event ∈ raised, event.quiet)
    (handed : Orderly (s.signals ++ handover s.activeWindow x) ∧
      holders (s.signals ++ handover s.activeWindow x) = [x]) : (s.focusOn x raised).InStep := by
  have active : (s.focusOn x raised).activeWindow = some x :=
    activeWindow_focusOn (focusable.visible coherent.synced)
  refine ⟨coherent.focusOn focusable, fun a now => ?_, ?_, ?_⟩
  · obtain rfl := Option.some.inj (active.symm.trans now)
    simp [focusOn]
  · rw [signals_focusOn quiet]
    exact handed.1
  · rw [signals_focusOn quiet, handed.2, active]
    rfl

namespace InStep

theorem initial (focusController : FocusController) (displayLayout : DisplayLayout) :
    (Model.initial focusController displayLayout).InStep :=
  ⟨.initial _ _, fun _ active => by contradiction, orderly_nil, rfl⟩

variable (inStep : s.InStep)

include inStep

theorem congr (coherent : t.Coherent) (mru : t.mruActiveWindows = s.mruActiveWindows)
    (active : t.activeWindow = s.activeWindow) (signals : t.signals = s.signals) : t.InStep where
  coherent := coherent
  top a now := by rw [mru, inStep.top a (active ▸ now)]
  orderly := signals ▸ inStep.orderly
  held := by rw [signals, active, inStep.held]

theorem still (still : Still s t) : t.InStep := by
  refine inStep.congr (still.coherent inStep.coherent) still.mru
    (still.activeWindow inStep.coherent.integrity) ?_
  obtain ⟨events, quiet, log⟩ := still.quiet
  rw [signals_append log, signals_quiet quiet, List.append_nil]

theorem undisturbed (undisturbed : Undisturbed s t) (integrity : t.Integrity) : t.InStep := by
  refine inStep.congr (inStep.coherent.undisturbed undisturbed integrity) undisturbed.mru
    undisturbed.activeWindow ?_
  obtain ⟨events, quiet, log⟩ := undisturbed.quiet
  rw [signals_append log, signals_quiet quiet, List.append_nil]

theorem focusOn {raised : List Event} (focusable : s.Focusable x)
    (quiet : ∀ event ∈ raised, event.quiet) : (s.focusOn x raised).InStep :=
  .of_focusOn inStep.coherent focusable quiet (inStep.orderly.pass inStep.held x)

theorem nextFocus : s.nextFocus.InStep := by
  apply inStep.congr inStep.coherent.nextFocus rfl rfl
  have log : s.nextFocus.log = s.log ++ [.focusNextSession] := rfl
  rw [signals_append log]
  exact List.append_nil _

theorem post : (s.configure w ({ · with posted := true })).InStep := by
  refine inStep.congr inStep.coherent.post (by simp) ?_ (by simp [signals])
  exact activeWindow_congr (by simp) fun v member => inStep.coherent.visible_post member

end InStep

theorem closed_inStep : FocusClosed InStep where
  integrity _ h := h.coherent.integrity
  selected _ _ _ h focusable quiet := h.focusOn focusable quiet
  next _ h := h.nextFocus

end Model

variable {s t d : Model} {w v x : Window} {info tmp : WindowInfo} {value : WindowState}
  {fuel : Nat}

theorem signals_entered : (s.entered w info value).signals = s.signals := by
  rw [signals_append log_entered]
  exact List.append_nil _

theorem signals_drawn {hidden : Bool} : (s.drawn w value hidden).signals = s.signals := by
  simp [signals, drawn]

theorem Model.Coherent.visible_of_shown (coherent : s.Coherent) (here : s.info? w = some info)
    (shown : ¬info.state.concealed) (member : w ∈ s.mruActiveWindows) : s.visible w := by
  obtain ⟨surface, drawn⟩ := live_iff.mp (coherent.integrity.live_mru member)
  have state : some info.state = some surface.state :=
    (stateOf_eq here).symm.trans (coherent.synced w surface drawn)
  have posted := coherent.posted w member surface drawn
  have exposed : surface.hidden = false := by
    by_contra hidden
    have := coherent.hides w surface drawn (by simpa using hidden)
    rw [← Option.some.inj state] at this
    exact shown this
  rw [Option.some.inj state] at shown
  simp [Model.visible, Surface.visible, drawn, shown, posted, exposed]

theorem Model.Coherent.visible_shown (coherent : s.Coherent) (shown : ¬value.concealed)
    (member : w ∈ s.mruActiveWindows) :
    ((s.entered w info value).drawn w value false).visible w := by
  obtain ⟨surface, drawn⟩ := live_iff.mp (coherent.integrity.live_mru member)
  have posted := coherent.posted w member surface drawn
  simp [Model.visible, Surface.visible, Model.drawn, drawn, shown, posted]

namespace Model.InStep

variable (inStep : s.InStep) (here : s.info? w = some info)

include inStep here

theorem of_hidden (concealed : value.concealed) (conceals : Concealing s w info value t)
    (top : ∀ a, (t.drawn w value true).activeWindow = some a →
      t.mruActiveWindows.getLast? = some a)
    (told : Orderly t.signals ∧ holders t.signals =
      (t.drawn w value true).activeWindow.toList) : (t.drawn w value true).InStep where
  coherent := conceals.hidden inStep.coherent here concealed
  top a now := by rw [mru_drawn, top a now]
  orderly := by rw [signals_drawn]; exact told.1
  held := by rw [signals_drawn]; exact told.2

/-- Hiding the active window passes the focus on, or gives it up. -/
theorem ensures_hideActive (concealed : value.concealed) (active : s.activeWindow = some w)
    (sets : s.SetsInStep w value) :
    (moveFocusFrom fuel w).Ensures (s.entered w info value)
      (fun _ t => (t.drawn w value true).InStep) (fun _ _ => False) True := by
  have coherent := inStep.coherent
  have start : Concealing s w info value (s.entered w info value) := .start coherent here
  have held : holders (s.entered w info value).signals = (some w).toList := by
    rw [signals_entered, inStep.held, active]
  have orderly : Orderly (s.entered w info value).signals := by
    rw [signals_entered]
    exact inStep.orderly
  have active' : (s.entered w info value).activeWindow = some w :=
    activeWindow_entered.trans active
  refine ensures_passOn coherent.integrity coherent.synced here concealed active ?_ ?_
  · intro y raised search quiet
    have focusable := search.focusable
    obtain ⟨other, seen⟩ := visible_of_focusable_entered coherent.synced concealed focusable
    have passed : Concealing s w info value ((s.entered w info value).focusOn y raised) :=
      (closed_concealing coherent concealed).selected _ _ _ start focusable quiet
    have last : ((s.entered w info value).focusOn y raised).mruActiveWindows.getLast? =
        some y := by simp [Model.focusOn]
    have now : (((s.entered w info value).focusOn y raised).drawn w value true).activeWindow =
        some y := by
      apply activeWindow_of_last (by rw [mru_drawn, last])
      rw [visible_drawn other]
      have sight : (s.entered w info value).visible y = true := visible_entered.trans seen
      exact sight
    refine inStep.of_hidden here concealed passed (fun a eq => ?_) ?_
    · rw [last, ← now, eq]
    · rw [signals_focusOn quiet, now, active']
      exact orderly.pass held y
  · intro search
    have alone : ∀ v ∈ s.mruActiveWindows, v ≠ w → ¬s.visible v := by
      rcases sets.hides info here concealed active with ⟨x, found⟩ | alone
      · exact absurd (search.det found) (by simp)
      · exact alone
    have told : ((s.entered w info value).unfocus none).signals =
        (s.entered w info value).signals ++ [.lost w] := by
      have log : ((s.entered w info value).unfocus none).log =
          (s.entered w info value).log ++ [.setFocusTo none none, .adviseFocusLost w] := by
        rw [unfocus_entered active]
      exact signals_append log
    have now : (((s.entered w info value).unfocus none).drawn w value true).activeWindow =
        none := by
      rw [activeWindow_eq_none]
      intro v member
      rw [mru_drawn, unfocus_entered active] at member
      by_cases eq : v = w
      · exact eq ▸ invisible_hidden
      · rw [visible_drawn eq, unfocus_entered active]
        intro seen
        have sight : (s.entered w info value).visible v = true := seen
        exact alone v (by simpa using member) eq ((visible_entered (s := s)).symm.trans sight)
    refine inStep.of_hidden here concealed start.unfocus (fun a eq => ?_) ?_
    · rw [now] at eq
      contradiction
    · rw [told, now]
      exact orderly.release held

theorem hideOther (concealed : value.concealed) (inactive : s.activeWindow ≠ some w) :
    ((s.entered w info value).drawn w value true).InStep := by
  have now : ((s.entered w info value).drawn w value true).activeWindow = s.activeWindow := by
    cases active : s.activeWindow with
    | some a =>
      have other : a ≠ w := by
        rintro rfl
        exact inactive active
      apply activeWindow_of_last (by rw [mru_drawn, mru_entered, inStep.top a active])
      rw [visible_drawn other, visible_entered]
      exact activeWindow_visible active
    | none =>
      rw [activeWindow_eq_none] at active ⊢
      intro v member
      by_cases eq : v = w
      · exact eq ▸ invisible_hidden
      · rw [visible_drawn eq, visible_entered]
        exact active v (by simpa using member)
  refine inStep.of_hidden here concealed (.start inStep.coherent here) (fun a eq => ?_) ⟨?_, ?_⟩
  · rw [mru_entered, inStep.top a (now ▸ eq)]
  · rw [signals_entered]
    exact inStep.orderly
  · rw [signals_entered, now, inStep.held]

/-- Showing a window does not matter where it was shown before, or another one is active. -/
theorem showOther (shown : ¬value.concealed)
    (other : ¬(info.state.concealed ∧ s.activeWindow = none)) :
    ((s.entered w info value).drawn w value false).InStep := by
  apply inStep.congr (inStep.coherent.shown here) (by simp)
  · cases active : s.activeWindow with
    | some a =>
      apply activeWindow_of_last (by rw [mru_drawn, mru_entered, inStep.top a active])
      by_cases eq : a = w
      · subst eq
        exact inStep.coherent.visible_shown shown (activeWindow_mem active)
      · rw [visible_drawn eq, visible_entered]
        exact activeWindow_visible active
    | none =>
      have before : ¬info.state.concealed := fun concealed => other ⟨concealed, active⟩
      rw [activeWindow_eq_none] at active ⊢
      intro v member
      have listed : v ∈ s.mruActiveWindows := by simpa using member
      by_cases eq : v = w
      · subst eq
        exact absurd (inStep.coherent.visible_of_shown here before listed) (active v listed)
      · rw [visible_drawn eq, visible_entered]
        exact active v listed
  · rw [signals_drawn, signals_entered]

/-- Showing the only window that can be seen gives it the focus. -/
theorem ensures_showFirst (shown : ¬value.concealed) (concealed : info.state.concealed)
    (inactive : s.activeWindow = none) (sets : s.SetsInStep w value) :
    (selectActiveWindow fuel (some w)).Ensures ((s.entered w info value).drawn w value false)
      (fun _ t => t.InStep) (fun _ _ => False) True := by
  have coherent : ((s.entered w info value).drawn w value false).Coherent :=
    inStep.coherent.shown here
  have alone : ∀ v, ((s.entered w info value).drawn w value false).activeWindow = some v →
      v = w := by
    intro v active
    by_contra other
    have member := activeWindow_mem active
    have seen := activeWindow_visible active
    rw [visible_drawn other, visible_entered] at seen
    exact activeWindow_eq_none.mp inactive v (by simpa using member) seen
  have signals : ((s.entered w info value).drawn w value false).signals = s.signals := by
    rw [signals_drawn, signals_entered]
  have live : ((s.entered w info value).drawn w value false).Live w := by
    have live := inStep.coherent.integrity.live_of_info here
    rw [sameStructure_drawn.live]
    simpa [Live] using live
  by_cases member : w ∈ s.mruActiveWindows
  · refine (ensures_selectActiveWindow coherent.integrity live).mono ?_ (fun _ _ h => h)
      fun _ => trivial
    intro r t after
    rcases after with ⟨picks, selected⟩
    have itself := sets.shows info here shown concealed inactive member
    obtain rfl := picks.det itself
    obtain ⟨raised, quiet, rfl⟩ := selected
    refine .of_focusOn coherent (itself.focusable w rfl) quiet ?_
    rw [signals]
    exact inStep.orderly.take (by rw [inStep.held, inactive]; rfl) alone
  · have unseen : ((s.entered w info value).drawn w value false).activeWindow = none := by
      cases active : ((s.entered w info value).drawn w value false).activeWindow with
      | none => rfl
      | some v =>
        obtain rfl := alone v active
        exact absurd (by simpa using activeWindow_mem active) member
    refine (closed_inStep.select (inStep.congr coherent (by simp) ?_ signals) live).unbounded
    rw [unseen, inactive]

theorem ensures_setState (sets : s.SetsInStep w value) :
    (setState fuel w value).Ensures s (fun _ t => t.InStep) (fun _ _ => False) True := by
  apply Miral.ensures_setState here
  · rintro rfl
    have integrity := inStep.coherent.integrity.marked here
    rw [markFullscreen_eq] at integrity ⊢
    exact inStep.still
      (.of_same integrity (fun _ => rfl) (fun _ => rfl) rfl ⟨[], by simp, by simp⟩)
  · intro _ concealed
    rw [ensures_onlyIf]
    exact ⟨fun active => inStep.ensures_hideActive here concealed active sets,
      fun inactive => inStep.hideOther here concealed inactive⟩
  · exact fun _ shown other => inStep.showOther here shown other
  · exact fun _ shown concealed inactive =>
      inStep.ensures_showFirst here shown concealed inactive sets

end Model.InStep

namespace Model.InStep

variable (inStep : s.InStep) (dropped : Dropped w s d)

include inStep dropped

theorem orderly_dropped : Orderly d.signals ∧
    holders d.signals = (if s.activeWindow = some w then none else s.activeWindow).toList := by
  obtain ⟨events, quiet, log⟩ := dropped.log
  rw [List.append_assoc] at log
  have told : d.signals = s.signals ++ [.gone w] := by
    rw [signals_append log, List.filterMap_append, signals_quiet quiet]
    rfl
  rw [told]
  exact ⟨inStep.orderly.concat trivial, holders_gone inStep.held⟩

/-- Closing another window leaves the active one alone. -/
theorem dropOther (inactive : s.activeWindow ≠ some w) : d.InStep := by
  obtain ⟨orderly, held⟩ := inStep.orderly_dropped dropped
  rw [if_neg inactive] at held
  have last (a : Window) (active : s.activeWindow = some a) :
      d.mruActiveWindows.getLast? = some a := by
    have other : a ≠ w := by
      rintro rfl
      exact inactive active
    obtain ⟨front, eq⟩ := List.getLast?_eq_some_iff.mp (inStep.top a active)
    simp [dropped.mru, eq, other]
  have now : d.activeWindow = s.activeWindow := by
    cases active : s.activeWindow with
    | some a =>
      have other : a ≠ w := by
        rintro rfl
        exact inactive active
      apply activeWindow_of_last (last a active)
      simp [dropped.visible, other, activeWindow_visible active]
    | none =>
      rw [activeWindow_eq_none] at active ⊢
      intro v member
      rw [dropped.mru, List.mem_filter] at member
      simp [dropped.visible, active v member.1]
  exact ⟨inStep.coherent.dropped dropped, fun a eq => last a (now ▸ eq), orderly,
    by rw [held, now]⟩

theorem ensures_refocus (active : s.activeWindow = some w) {application : Application}
    {parent : Option Window} {workspaces : List Workspace}
    (next : ∀ v, d.activeWindow = some v →
      d.FirstPick (d.fallbacks application parent workspaces) (some v)) :
    (refocus fuel application parent workspaces).Ensures d (fun _ t => t.InStep)
      (fun _ _ => False) True := by
  have coherent := inStep.coherent.dropped dropped
  obtain ⟨orderly, held⟩ := inStep.orderly_dropped dropped
  rw [if_pos active] at held
  refine Miral.ensures_refocus coherent.integrity (fun _ => trivial) ?_ ?_
  · rintro x t search ⟨raised, quiet, rfl⟩
    refine .of_focusOn coherent search.focusable quiet (orderly.take held fun v now => ?_)
    exact (Option.some.inj (search.det (next v now))).symm
  · intro missed
    have inactive : d.activeWindow = none := by
      cases now : d.activeWindow with
      | none => rfl
      | some v => exact absurd (missed.det (next v now)) (by simp)
    have idle : d.InStep := by
      refine ⟨coherent, fun a eq => ?_, orderly, by rw [held, inactive]⟩
      rw [inactive] at eq
      contradiction
    exact closed_inStep.focusNextApplication idle

end Model.InStep

theorem upholds_inStep (inStep : s.InStep) : Upholds .inStep s Model.InStep where
  focus := closed_inStep
  still _ _ inStep still := inStep.still still
  post _ _ inStep := inStep.post
  null hint meets null := by
    rw [unfocus, meets null]
    exact inStep
  modified _ _ _ _ _ _ _ _ prepared := inStep.undisturbed prepared.undisturbed prepared.integrity
  stated w modifications info tmp t value fuel meets here requested prepared asks :=
    (inStep.undisturbed prepared.undisturbed prepared.integrity).ensures_setState prepared.record
      (meets info tmp t value here requested prepared asks)
  removed w info d fuel meets here run dropped := by
    rw [ensures_onlyIf]
    refine ⟨fun active => ?_, fun inactive => inStep.dropOther dropped inactive⟩
    exact inStep.ensures_refocus dropped active fun v now => meets info d v active here run now

theorem Reachable.inStep
    (reachable : Reachable (fun s op => op.Contract s ∧ op.Meets .inStep s.swept) s) :
    s.InStep := by
  apply reachable.invariant Model.InStep InStep.initial
  rintro s op fuel inStep ⟨contract, meets⟩
  have swept := inStep.still (.swept inStep.coherent.integrity)
  exact (upholds_inStep swept).run inStep contract meets

/-- The policy is told of the focus in order as long as the steps keep it in step. -/
theorem focus_notifications_orderly
    (reachable : Reachable (fun s op => op.Contract s ∧ op.Meets .inStep s.swept) s) :
    Orderly s.signals :=
  reachable.inStep.orderly

/-- The active one of two windows is closed. -/
def Model.closedState : Model :=
  (Op.run 12 (.removeSurface 1 ⟨1, 1⟩) turnState).returned?.get (by decide +kernel)

/-- The other one is minimized. -/
def Model.idleState : Model :=
  (Op.run 12 (.modifySurface ⟨1, 2⟩ { state := some .minimized }) closedState).returned?.get
    (by decide +kernel)

/-- A null window is selected while none is active. -/
def Model.nobodyState : Model :=
  (Op.run 12 (.selectActiveWindow none) idleState).returned?.get (by decide +kernel)

theorem reachable_closedState :
    Reachable (fun s op => op.Contract s ∧ op.Meets .inStep s.swept) closedState := by
  have turned : Reachable (fun s op => op.Contract s ∧ op.Meets .inStep s.swept) turnState :=
    reachable_turnState.mono fun _ op h => ⟨h.1, op.meets_plain .inStep h.2⟩
  refine turned.returned (.removeSurface 1 ⟨1, 1⟩) ⟨by decide +kernel, ?_⟩
    (Option.some_get _).symm
  intro info d next _ here run active
  have only : ((turnState.swept.info? ⟨1, 1⟩).bind fun info =>
      (dropWindow 1 ⟨1, 1⟩ turnState.swept).returned?.map fun d =>
        (d.activeWindow, (d.fallbacks 1 info.parent
          (turnState.swept.workspacesContaining ⟨1, 1⟩)).head?)) =
      some (some ⟨1, 2⟩, some ⟨1, 2⟩) := by decide +kernel
  have settles : (dropWindow 1 ⟨1, 1⟩ turnState.swept).returned?.any fun d =>
      (d.info? ⟨1, 2⟩).any fun info => d.firstDialog info.children = none ∧
        info.type.canBeActive ∧ d.isVisible ⟨1, 2⟩ info := by decide +kernel
  change dropWindow 1 ⟨1, 1⟩ turnState.swept = _ at run
  rw [here, Option.bind_some, run, Outcome.returned?, Option.map_some, Option.some.injEq,
    Prod.mk.injEq, active] at only
  rw [run] at settles
  obtain ⟨same, first⟩ := only
  obtain rfl := Option.some.inj same
  obtain ⟨rest, eq⟩ := List.head?_eq_some_iff.mp first
  change d.FirstPick (d.fallbacks 1 _ _) _
  rw [eq]
  exact .found (.of_any settles)

theorem reachable_nobodyState :
    Reachable (fun s op => op.Contract s ∧ op.Meets .inStep s.swept) nobodyState := by
  have alone : closedState.swept.mruActiveWindows = [⟨1, 2⟩] := by decide +kernel
  have idle : Reachable (fun s op => op.Contract s ∧ op.Meets .inStep s.swept) idleState := by
    refine reachable_closedState.returned (.modifySurface ⟨1, 2⟩ { state := some .minimized })
      ⟨by decide +kernel, ?_⟩ (Option.some_get _).symm
    intro _ info tmp t value _ _ prepared asks
    obtain rfl := Option.some.inj asks
    refine ⟨fun _ _ _ _ => .inr fun v listed other => ?_, fun _ _ shown => absurd rfl shown⟩
    rw [prepared.undisturbed.mru, alone, List.mem_singleton] at listed
    exact absurd listed other
  have inactive : idleState.swept.activeWindow = none := by decide +kernel
  exact idle.returned (.selectActiveWindow none) ⟨by decide +kernel, fun _ => inactive⟩
    (Option.some_get _).symm

theorem focus_notifications_orderly_nobody :
    nobodyState.signals = [.gained ⟨1, 1⟩, .lost ⟨1, 1⟩, .gained ⟨1, 2⟩, .lost ⟨1, 2⟩,
      .gained ⟨1, 1⟩, .gone ⟨1, 1⟩, .gained ⟨1, 2⟩, .lost ⟨1, 2⟩] ∧ Orderly nobodyState.signals :=
  ⟨by decide +kernel, focus_notifications_orderly reachable_nobodyState⟩

/-- A null selection takes the focus from the active window and leaves that window active. -/
theorem focus_notifications_orderly_fails :
    ¬∀ s, Reachable (fun s op => op.Contract s) s → Orderly s.signals := by
  intro claim
  have signals : nullState.signals =
      [.gained ⟨1, 1⟩, .lost ⟨1, 1⟩] ++ .lost ⟨1, 1⟩ :: [] := by decide +kernel
  have holder : (⟨1, 1⟩ : Window) ∈ holders [.gained ⟨1, 1⟩, .lost ⟨1, 1⟩] :=
    claim nullState reachable_nullState _ _ _ signals
  exact absurd holder (by decide)

end Miral
