import Miral.Coherence

/-! Two notions of the focused window: the top of the MRU list that can be seen, and the one
the focus controller was last told. They agree as long as no null window is selected while
another one is active and the windows in the MRU list keep types that can be active. -/
namespace Miral

open Program Prog Forest Model

/-- The window passed to `set_focus_to`, if the event is such a call. -/
def Event.target : Event → Option (Option Window)
  | .setFocusTo _ surface => some surface
  | _ => none

def lastTarget (events : List Event) : Option (Option Window) :=
  (events.filterMap Event.target).getLast?

namespace Model

/-- A window that is not null and was the last one to be passed to `set_focus_to` after `s`
is the active one, if it is still there to be seen; after a null one there is none. -/
def AgreesSince (s t : Model) : Prop :=
  ∃ events, t.log = s.log ++ events ∧
    (∀ x, lastTarget events = some (some x) → t.Managed x → t.visible x →
      t.activeWindow = some x) ∧
    (lastTarget events = some none → t.activeWindow = none)

def Activatable (s : Model) (w : Window) : Prop :=
  ∃ type, s.typeOf w = some type ∧ type.canBeActive

/-- What keeps `AgreesSince`: the focused window is at the end of the MRU list. -/
structure Agreed (s t : Model) : Prop where
  coherent : t.Coherent
  activatable : ∀ v ∈ t.mruActiveWindows, t.Activatable v
  agrees : ∃ events, t.log = s.log ++ events ∧
    (∀ x, lastTarget events = some (some x) → t.mruActiveWindows.getLast? = some x) ∧
    (lastTarget events = some none → t.activeWindow = none)

end Model

/-- What keeps the two in agreement: no window is active when a null one is selected, and
no request that is accepted gives a window in the MRU list a type that cannot be active. -/
def FocusCondition.agreed : FocusCondition where
  null s hint := s.lock hint = none → s.activeWindow = none
  modify s w modifications := ∀ info tmp, s.info? w = some info →
    Requested s modifications info tmp → w ∈ s.mruActiveWindows → tmp.type.canBeActive
  remove _ _ := True

theorem lastTarget_append {front back : List Event} :
    lastTarget (front ++ back) = (lastTarget back).or (lastTarget front) := by
  rw [lastTarget, List.filterMap_append, List.getLast?_append]
  rfl

theorem lastTarget_quiet {events : List Event} (quiet : ∀ event ∈ events, event.quiet) :
    lastTarget events = none := by
  suffices untold : events.filterMap Event.target = [] by rw [lastTarget, untold]; rfl
  rw [List.filterMap_eq_nil_iff]
  intro event member
  have := quiet event member
  cases event <;> simp_all [Event.quiet, Event.target]

variable {s t u d : Model} {w v x a : Window} {info tmp : WindowInfo} {value : WindowState}
  {fuel : Nat}

namespace Model

theorem told_focusOn {raised : List Event} (quiet : ∀ event ∈ raised, event.quiet) :
    ∃ events, (s.focusOn x raised).log = s.log ++ events ∧
      lastTarget events = some (some x) := by
  refine ⟨_, rfl, ?_⟩
  have gained : lastTarget (.adviseFocusGained x :: raised) = lastTarget raised := rfl
  rw [lastTarget_append, gained, lastTarget_quiet quiet, Option.none_or]
  unfold lostTo
  split
  · split <;> rfl
  · rfl

theorem Activatable.focusable (activatable : s.Activatable v) (synced : s.Synced)
    (seen : s.visible v) : s.Focusable v := by
  obtain ⟨type, typed, active⟩ := activatable
  obtain ⟨info, here, rfl⟩ := Option.map_eq_some_iff.mp typed
  refine ⟨info, here, active, ?_⟩
  unfold Model.visible at seen
  split at seen
  · rename_i surface drawn
    have state := (stateOf_eq here).symm.trans (synced v surface drawn)
    simpa [isVisible, drawn, Option.some.inj state] using seen
  · contradiction

theorem Focusable.activatable (focusable : s.Focusable x) : s.Activatable x := by
  obtain ⟨info, here, active, -⟩ := focusable
  exact ⟨info.type, typeOf_eq here, active⟩

theorem typeOf_entered (here : s.info? w = some info) :
    (s.entered w info value).typeOf v = s.typeOf v := by
  by_cases eq : v = w
  · simp [typeOf, eq, here]
  · simp [typeOf, eq]

theorem Activatable.congr (activatable : s.Activatable v) (type : t.typeOf v = s.typeOf v) :
    t.Activatable v := by
  rw [Activatable, type]
  exact activatable

namespace Agreed

theorem of_untold (coherent : t.Coherent) (activatable : ∀ v ∈ t.mruActiveWindows, t.Activatable v)
    (log : ∃ events, t.log = s.log ++ events ∧ lastTarget events = none) : Agreed s t := by
  obtain ⟨events, log, untold⟩ := log
  exact ⟨coherent, activatable, events, log, by simp [untold], by simp [untold]⟩

theorem since (agreed : Agreed t u)
    (log : ∃ events, t.log = s.log ++ events ∧ lastTarget events = none) : Agreed s u := by
  obtain ⟨before, past, untold⟩ := log
  obtain ⟨events, more, focused, unfocused⟩ := agreed.agrees
  refine ⟨agreed.coherent, agreed.activatable, before ++ events,
    by rw [more, past, List.append_assoc], fun x last => focused x ?_, fun last => unfocused ?_⟩
  · rwa [lastTarget_append, untold, Option.or_none] at last
  · rwa [lastTarget_append, untold, Option.or_none] at last

variable (agreed : Agreed s t)

include agreed

theorem congr (coherent : u.Coherent) (mru : u.mruActiveWindows = t.mruActiveWindows)
    (types : ∀ v ∈ t.mruActiveWindows, u.Activatable v) (active : u.activeWindow = t.activeWindow)
    (log : ∃ events, u.log = t.log ++ events ∧ lastTarget events = none) : Agreed s u where
  coherent := coherent
  activatable v member := types v (mru ▸ member)
  agrees := by
    obtain ⟨before, past, focused, unfocused⟩ := agreed.agrees
    obtain ⟨events, more, untold⟩ := log
    refine ⟨before ++ events, by rw [more, past, List.append_assoc], fun x last => ?_,
      fun last => ?_⟩
    · rw [lastTarget_append, untold] at last
      rw [mru, focused x last]
    · rw [lastTarget_append, untold] at last
      rw [active, unfocused last]

theorem still (still : Still t u) : Agreed s u := by
  have coherent := agreed.coherent
  obtain ⟨events, quiet, log⟩ := still.quiet
  refine agreed.congr (still.coherent coherent) still.mru (fun v member => ?_)
    (still.activeWindow coherent.integrity) ⟨events, log, lastTarget_quiet quiet⟩
  exact (agreed.activatable v member).congr (still.types v (coherent.integrity.live_mru member))

theorem undisturbed (undisturbed : Undisturbed t u) (integrity : u.Integrity)
    (types : ∀ v ∈ t.mruActiveWindows, u.Activatable v) : Agreed s u := by
  obtain ⟨events, quiet, log⟩ := undisturbed.quiet
  exact agreed.congr (agreed.coherent.undisturbed undisturbed integrity) undisturbed.mru types
    undisturbed.activeWindow ⟨events, log, lastTarget_quiet quiet⟩

theorem focusOn {raised : List Event} (focusable : t.Focusable x)
    (quiet : ∀ event ∈ raised, event.quiet) : Agreed s (t.focusOn x raised) where
  coherent := agreed.coherent.focusOn focusable
  activatable v member := by
    rcases List.mem_append.mp member with kept | new
    · exact agreed.activatable v (List.mem_of_mem_filter kept)
    · obtain rfl := List.mem_singleton.mp new
      exact focusable.activatable
  agrees := by
    obtain ⟨before, past, -⟩ := agreed.agrees
    obtain ⟨events, log, last⟩ := told_focusOn (s := t) (x := x) quiet
    refine ⟨before ++ events, by rw [log, past, List.append_assoc], fun y eq => ?_, fun eq => ?_⟩
    · rw [lastTarget_append, last] at eq
      obtain rfl := Option.some.inj (Option.some.inj eq)
      simp [Model.focusOn]
    · simp [lastTarget_append, last] at eq

theorem nextFocus : Agreed s t.nextFocus := by
  have log : t.nextFocus.log = t.log ++ [.focusNextSession] := rfl
  exact agreed.congr agreed.coherent.nextFocus rfl agreed.activatable rfl ⟨_, log, rfl⟩

theorem post : Agreed s (t.configure w ({ · with posted := true })) := by
  refine agreed.congr agreed.coherent.post (by simp) (fun v member => ?_) ?_ ⟨[], by simp, rfl⟩
  · exact (agreed.activatable v member).congr (by simp [typeOf])
  · exact activeWindow_congr (by simp) fun v member => agreed.coherent.visible_post member

end Agreed

/-- A request that gives no window in the MRU list a type that cannot be active. -/
theorem Agreed.prepared {modifications : WindowSpecification} (agreed : Agreed s s)
    (types : w ∈ s.mruActiveWindows → tmp.type.canBeActive)
    (prepared : Prepared w modifications tmp s t) : Agreed s t := by
  apply agreed.undisturbed prepared.undisturbed prepared.integrity
  intro v member
  by_cases eq : v = w
  · subst eq
    exact ⟨tmp.type, by rw [prepared.types, if_pos rfl], types member⟩
  · exact (agreed.activatable v member).congr (by rw [prepared.types, if_neg eq])

theorem Agreed.dropped (agreed : Agreed s s) (dropped : Dropped w s t) : Agreed s t := by
  obtain ⟨events, quiet, log⟩ := dropped.log
  have untold : lastTarget (events ++ [.adviseDeleteWindow w]) = none := by
    rw [lastTarget_append, lastTarget_quiet quiet]
    rfl
  refine .of_untold (agreed.coherent.dropped dropped) (fun v member => ?_)
    ⟨_, by rw [log, List.append_assoc], untold⟩
  rw [dropped.mru, List.mem_filter] at member
  have other : v ≠ w := by simpa using member.2
  apply (agreed.activatable v member.1).congr
  rw [typeOf, dropped.info, if_neg other, typeOf, Option.map_map]
  rfl

theorem closed_agreed : FocusClosed (Agreed s) where
  integrity _ h := h.coherent.integrity
  selected _ _ _ h focusable quiet := h.focusOn focusable quiet
  next _ h := h.nextFocus

theorem activatable_entered (activatable : ∀ v ∈ s.mruActiveWindows, s.Activatable v)
    (here : s.info? w = some info) (member : v ∈ (s.entered w info value).mruActiveWindows) :
    (s.entered w info value).Activatable v :=
  (activatable v (by simpa using member)).congr (typeOf_entered here)

theorem Agreed.drawn (coherent : s.Coherent) (here : s.info? w = some info) {hidden : Bool}
    (conceals : hidden → value.concealed) (kept : Concealing s w info value t)
    (types : ∀ v ∈ t.mruActiveWindows, t.Activatable v) {events : List Event}
    (log : t.log = (s.entered w info value).log ++ events)
    (focused : ∀ x, lastTarget events = some (some x) → t.mruActiveWindows.getLast? = some x)
    (unfocused : lastTarget events = some none → (t.drawn w value hidden).activeWindow = none) :
    Agreed s (t.drawn w value hidden) where
  coherent := coherent.drawn here conceals kept.infos kept.surfaces kept.integrity kept.recent
  activatable v member := (types v (by simpa using member)).congr (by simp [typeOf, Model.drawn])
  agrees := by
    have last : lastTarget (.adviseStateChange w value :: events) = lastTarget events := rfl
    refine ⟨.adviseStateChange w value :: events, ?_, fun x eq => ?_, fun eq => ?_⟩
    · simp [Model.drawn, log, log_entered]
    · rw [mru_drawn, focused x (last ▸ eq)]
    · exact unfocused (last ▸ eq)

variable (coherent : s.Coherent) (activatable : ∀ v ∈ s.mruActiveWindows, s.Activatable v)

include coherent activatable

/-- Where no other window takes the focus from the one that is hidden, none is left to be
the active one. -/
theorem activeWindow_hideMissed
    (missed : (s.entered w info value).FirstPick ((s.entered w info value).hideFallbacks w) none) :
    (((s.entered w info value).unfocus none).drawn w value true).activeWindow = none := by
  rw [activeWindow_eq_none]
  intro v member
  have listed : v ∈ s.mruActiveWindows := by
    unfold Model.unfocus at member
    split at member <;> simpa using member
  by_cases eq : v = w
  · exact eq ▸ invisible_hidden
  · rw [visible_drawn eq]
    intro seen
    have sight : s.visible v := by
      unfold Model.unfocus at seen
      split at seen
      all_goals
        have sight : (s.entered w info value).visible v = true := seen
        exact (visible_entered (s := s)).symm.trans sight
    obtain ⟨info', here, active, shown⟩ :=
      (activatable v listed).focusable coherent.synced sight
    have focusable : (s.entered w info value).Focusable v :=
      ⟨info', by simpa [eq] using here, active, by simpa [isVisible] using shown⟩
    have candidate : v ∈ (s.entered w info value).hideFallbacks w := by
      refine List.mem_cons_of_mem _ (List.mem_append_right _ (mem_candidates.mpr ⟨?_, ?_, ?_⟩))
      · simpa using listed
      · exact (visible_entered (s := s)).trans sight
      · simpa using eq
    obtain ⟨x, found⟩ := (missed.missed_all v candidate).of_focusable focusable
    contradiction

variable (here : s.info? w = some info)

include here

theorem Agreed.drawnIdle {hidden : Bool} (conceals : hidden → value.concealed) :
    Agreed s ((s.entered w info value).drawn w value hidden) := by
  refine .drawn coherent here conceals (.start coherent here)
    (fun v => activatable_entered activatable here) (List.append_nil _).symm ?_ ?_
  · exact fun x eq => by contradiction
  · exact fun eq => by contradiction

/-- Hiding a window leaves the focus controller and the MRU list in agreement. -/
theorem Agreed.ensures_hide (concealed : value.concealed) :
    (onlyIf (s.activeWindow = some w) (moveFocusFrom fuel w)).Ensures (s.entered w info value)
      (fun _ t => Agreed s (t.drawn w value true)) (fun _ _ => False) True := by
  have start : Concealing s w info value (s.entered w info value) := .start coherent here
  have types (v : Window) (member : v ∈ (s.entered w info value).mruActiveWindows) :=
    activatable_entered activatable here member
  rw [ensures_onlyIf]
  refine ⟨fun active => ?_, fun _ => .drawnIdle coherent activatable here fun _ => concealed⟩
  refine ensures_passOn coherent.integrity coherent.synced here concealed active ?_ ?_
  · intro y raised search quiet
    have focusable := search.focusable
    have passed := (closed_concealing coherent concealed).selected _ _ _ start focusable quiet
    obtain ⟨events, log, last⟩ := told_focusOn (s := s.entered w info value) (x := y) quiet
    refine .drawn coherent here (fun _ => concealed) passed (fun v member => ?_) log
      (fun x eq => ?_) (fun eq => ?_)
    · rcases List.mem_append.mp member with kept | new
      · exact types v (List.mem_of_mem_filter kept)
      · obtain rfl := List.mem_singleton.mp new
        exact focusable.activatable
    · obtain rfl := Option.some.inj (Option.some.inj (last.symm.trans eq))
      simp [Model.focusOn]
    · simp [last] at eq
  · intro search
    have log : ((s.entered w info value).unfocus none).log =
        (s.entered w info value).log ++ [.setFocusTo none none, .adviseFocusLost w] := by
      rw [unfocus_entered active]
    have missed := activeWindow_hideMissed coherent activatable search
    refine .drawn coherent here (fun _ => concealed) start.unfocus ?_ log
      (fun x eq => ?_) fun _ => missed
    · rw [unfocus_entered active]
      exact types
    · have last : lastTarget [.setFocusTo none none, .adviseFocusLost w] = some none := rfl
      simp [last] at eq

theorem Agreed.ensures_setState :
    (setState fuel w value).Ensures s (fun _ t => Agreed s t) (fun _ _ => False) True := by
  apply Miral.ensures_setState here
  · rintro rfl
    have integrity := coherent.integrity.marked here
    have idle : Agreed s s := .of_untold coherent activatable ⟨[], by simp, rfl⟩
    rw [markFullscreen_eq] at integrity ⊢
    exact idle.still (.of_same integrity (fun _ => rfl) (fun _ => rfl) rfl ⟨[], by simp, by simp⟩)
  · exact fun _ concealed => ensures_hide coherent activatable here concealed
  · exact fun _ _ _ => .drawnIdle coherent activatable here (by simp)
  · intro _ _ _ _
    have live := coherent.integrity.live_of_info here
    refine (closed_agreed.select (.drawnIdle coherent activatable here (by simp)) ?_).unbounded
    rw [sameStructure_drawn.live]
    simpa [Live] using live

end Model

theorem upholds_agreed (agreed : Agreed s s) : Upholds .agreed s (Agreed s) where
  focus := closed_agreed
  still _ _ agreed still := agreed.still still
  post _ _ agreed := agreed.post
  null hint meets null := by
    rw [unfocus, meets null]
    exact agreed
  modified w modifications info tmp t meets here requested prepared :=
    agreed.prepared (meets info tmp here requested) prepared
  stated w modifications info tmp t value fuel meets here requested prepared asks := by
    have agreed := agreed.prepared (meets info tmp here requested) prepared
    obtain ⟨events, quiet, log⟩ := prepared.undisturbed.quiet
    exact (Agreed.ensures_setState agreed.coherent agreed.activatable prepared.record).mono
      (fun _ u later => later.since ⟨events, log, lastTarget_quiet quiet⟩) (fun _ _ h => h) id
  removed w info d fuel _ _ _ dropped := by
    have dropped := agreed.dropped dropped
    rw [ensures_onlyIf]
    exact ⟨fun _ => closed_agreed.refocus dropped, fun _ => dropped⟩

theorem Model.Agreed.restart (agreed : Agreed s t) : Agreed t t :=
  .of_untold agreed.coherent agreed.activatable ⟨[], by simp, rfl⟩

theorem Model.Agreed.run {op : Op} (agreed : Agreed s s) (contract : op.Contract s)
    (meets : op.Meets .agreed s.swept) :
    (op.run fuel).Ensures s (fun _ t => Agreed s t) (fun _ t => Agreed s t) True := by
  have swept := agreed.still (.swept agreed.coherent.integrity)
  have upholds := upholds_agreed swept.restart
  have same (t : Model) : Agreed s.swept t ↔ Agreed s t :=
    ⟨fun ⟨coherent, types, agrees⟩ => ⟨coherent, types, agrees⟩,
      fun ⟨coherent, types, agrees⟩ => ⟨coherent, types, agrees⟩⟩
  have start : Agreed s.swept s := (same s).mpr agreed
  exact (upholds.run start contract meets).mono (fun _ t => (same t).mp) (fun _ t => (same t).mp) id

theorem Model.Agreed.since_now (agreed : Agreed s t) : AgreesSince s t := by
  obtain ⟨events, log, focused, unfocused⟩ := agreed.agrees
  refine ⟨events, log, fun x last _ seen => ?_, unfocused⟩
  obtain ⟨front, eq⟩ := List.getLast?_eq_some_iff.mp (focused x last)
  exact activeWindow_concat eq seen

theorem Reachable.agreed
    (reachable : Reachable (fun s op => op.Contract s ∧ op.Meets .agreed s.swept) s) :
    Agreed s s := by
  refine reachable.invariant (fun s => Agreed s s) (fun focusController displayLayout => ?_) ?_
  · exact .of_untold (.initial _ _) (fun v member => by simp [Model.initial] at member)
      ⟨[], by simp, rfl⟩
  · rintro s op fuel agreed ⟨contract, meets⟩
    exact (agreed.run contract meets).mono (fun _ t h => h.restart) (fun _ t h => h.restart) id

/-- The active window can be active, and after an operation that moved the focus it is the
focused one, as long as no step sets them apart. -/
theorem active_window_focused
    (reachable : Reachable (fun s op => op.Contract s ∧ op.Meets .agreed s.swept) s) :
    (∀ w info, s.activeWindow = some w → s.info? w = some info → info.type.canBeActive) ∧
    ∀ (op : Op) t, op.Contract s → op.Meets .agreed s.swept → op.Completes s t → AgreesSince s t := by
  have agreed := reachable.agreed
  constructor
  · intro w info active here
    obtain ⟨type, typed, can⟩ := agreed.activatable w (activeWindow_mem active)
    obtain rfl := Option.some.inj ((typeOf_eq here).symm.trans typed)
    exact can
  · intro op t contract meets completes
    obtain ⟨fuel, returned | ⟨_, thrown⟩⟩ := completes
    · exact ((agreed.run contract meets).returned returned).since_now
    · exact ((agreed.run contract meets).thrown thrown).since_now

theorem active_window_focused_turn :
    (∀ info, turnState.info? ⟨1, 1⟩ = some info → info.type.canBeActive) ∧
    ∀ t, Op.Completes .focusNextWithinApplication turnState t → turnState.AgreesSince t := by
  obtain ⟨active, agrees⟩ := active_window_focused
    (reachable_turnState.mono fun _ op h => ⟨h.1, op.meets_plain .agreed h.2⟩)
  exact ⟨fun info => active ⟨1, 1⟩ info (by decide +kernel),
    fun t => agrees .focusNextWithinApplication t trivial trivial⟩

/-- After a null selection the window that lost the focus is still the active one. -/
theorem active_window_focused_fails :
    ¬∀ s, Reachable (fun s op => op.Contract s) s → ∀ (op : Op) t, op.Contract s →
      op.Completes s t → AgreesSince s t := by
  intro claim
  have outcome : ((Op.run 12 (.selectActiveWindow none) nullState).returned?.map fun t =>
      (decide (t.log = nullState.log ++ [.setFocusTo none none, .adviseFocusLost ⟨1, 1⟩]),
        t.activeWindow)) = some (true, some ⟨1, 1⟩) := by decide +kernel
  obtain ⟨t, run, eq⟩ := Option.map_eq_some_iff.mp outcome
  simp only [Prod.mk.injEq, decide_eq_true_eq] at eq
  obtain ⟨_, returned⟩ := Outcome.returned?_eq_some.mp run
  obtain ⟨events, log, -, unfocused⟩ :=
    claim nullState reachable_nullState (.selectActiveWindow none) t trivial ⟨12, .inl returned⟩
  obtain rfl := List.append_cancel_left (eq.1.symm.trans log)
  have inactive := unfocused rfl
  rw [eq.2] at inactive
  contradiction

end Miral
