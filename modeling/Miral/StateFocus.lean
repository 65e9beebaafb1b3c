import Miral.Coherence

/-! What `set_state` does once it has advised the policy: to the records and surfaces, which is
the same whatever becomes of the focus, and to the MRU list. -/
namespace Miral

open Program Prog Forest

namespace Model

variable {s t u : Model} {w v x c : Window} {info : WindowInfo} {value : WindowState}
  {r : Option Window}

/-- The MRU list after a window, if there is one, has been given the focus. -/
def promoted (mru : List Window) : Option Window → List Window
  | some x => mru.filter (· ≠ x) ++ [x]
  | none => mru

theorem Selected.mru (selected : s.Selected r t) :
    t.mruActiveWindows = promoted s.mruActiveWindows r := by
  cases r with
  | none =>
    obtain rfl : t = s := selected
    rfl
  | some x =>
    obtain ⟨raised, -, rfl⟩ := selected
    rfl

/-- The search for a window to focus does not tell the states apart. -/
structure Alike (s t : Model) : Prop where
  live : ∀ v, t.Live v ↔ s.Live v
  parents : ∀ v, t.parentOf v = s.parentOf v
  children : ∀ v, t.childrenOf v = s.childrenOf v
  types : ∀ v, t.typeOf v = s.typeOf v
  focusable : ∀ v, t.Focusable v ↔ s.Focusable v

theorem managed_of_types (types : t.typeOf v = s.typeOf v) : t.Managed v ↔ s.Managed v := by
  have same := congrArg Option.isSome types
  simpa [typeOf, Managed] using same

theorem dialog_iff : (match s.info? c with
    | some info => decide (info.type = .dialog ∧ s.isVisible c info)
    | none => false) = true ↔ s.typeOf c = some .dialog ∧ s.Focusable c := by
  cases here : s.info? c with
  | none => simp [typeOf, here]
  | some info =>
    simp only [decide_eq_true_eq, typeOf_eq here, Option.some.injEq, Focusable, here]
    constructor
    · rintro ⟨dialog, seen⟩
      exact ⟨dialog, info, rfl, by simp [dialog, WindowType.canBeActive], seen⟩
    · rintro ⟨dialog, _, rfl, -, seen⟩
      exact ⟨dialog, seen⟩

namespace Alike

variable (alike : Alike s t)

include alike

theorem trans (alike' : Alike t u) : Alike s u where
  live v := (alike'.live v).trans (alike.live v)
  parents v := (alike'.parents v).trans (alike.parents v)
  children v := (alike'.children v).trans (alike.children v)
  types v := (alike'.types v).trans (alike.types v)
  focusable v := (alike'.focusable v).trans (alike.focusable v)

theorem lock {hint : Option Window} : t.lock hint = s.lock hint := by
  cases hint with
  | none => rfl
  | some v => simp only [Model.lock, alike.live]

theorem firstDialog (children : List Window) : t.firstDialog children = s.firstDialog children := by
  refine congrArg (List.find? · children) (funext fun c => Bool.eq_iff_iff.mpr ?_)
  refine Iff.trans ?_ (Iff.trans (?_ : (t.typeOf c = some .dialog ∧ t.Focusable c ↔
    s.typeOf c = some .dialog ∧ s.Focusable c)) ?_)
  · exact dialog_iff
  · rw [alike.types, alike.focusable]
  · exact dialog_iff.symm

theorem record (here : s.info? w = some info) : ∃ info', t.info? w = some info' ∧
    info'.children = info.children ∧ info'.parent = info.parent ∧
    (info'.type.canBeActive ∧ t.isVisible w info' ↔
      info.type.canBeActive ∧ s.isVisible w info) := by
  obtain ⟨info', here'⟩ := managed_iff.mp
    ((managed_of_types (alike.types w)).mpr (managed_iff.mpr ⟨info, here⟩))
  refine ⟨info', here', ?_, ?_, ?_⟩
  · rw [← childrenOf_eq here', alike.children, childrenOf_eq here]
  · rw [← parentOf_eq here', alike.parents, parentOf_eq here]
  · simpa [Focusable, here, here'] using alike.focusable w

theorem picks (picks : s.Picks w r) : t.Picks w r := by
  induction picks with
  | dialog here found _ ih =>
    obtain ⟨info', here', children, -⟩ := alike.record here
    exact .dialog here' (by rw [children, alike.firstDialog, found]) ih
  | itself here none active seen =>
    obtain ⟨info', here', children, -, can⟩ := alike.record here
    have := can.mpr ⟨active, seen⟩
    exact .itself here' (by rw [children, alike.firstDialog, none]) this.1 this.2
  | parent here none refused locked _ ih =>
    obtain ⟨info', here', children, parent, can⟩ := alike.record here
    refine .parent here' (by rw [children, alike.firstDialog, none]) (fun h => refused (can.mp h))
      ?_ ih
    rw [parent, alike.lock, locked]
  | nothing here none refused orphan =>
    obtain ⟨info', here', children, parent, can⟩ := alike.record here
    refine .nothing here' (by rw [children, alike.firstDialog, none]) (fun h => refused (can.mp h))
      ?_
    rw [parent, alike.lock, orphan]

theorem firstPick {ws : List Window} (search : s.FirstPick ws r) : t.FirstPick ws r := by
  induction search with
  | nil => exact .nil
  | found picks => exact .found (alike.picks picks)
  | missed picks _ ih => exact .missed (alike.picks picks) ih

end Alike

/-- The record of a window that already says what its surface does not yet. -/
def restated (s : Model) (w : Window) (info : WindowInfo) (value : WindowState) : Model :=
  (s.markFullscreen w value).setInfo w { info with state := value }

/-- The states that `set_state` may end in, from the one it finds after it has advised the
policy. The record has the state first, and the surface after the focus has moved. -/
inductive Stated (w : Window) (info : WindowInfo) (value : WindowState) (s : Model) :
    Model → Prop where
  | hides : value.concealed → s.activeWindow ≠ some w →
      Stated w info value s ((s.restated w info value).drawn w value true)
  | yields {r : Option Window} {t : Model} : value.concealed → s.activeWindow = some w →
      (s.restated w info value).FirstPick ((s.restated w info value).hideFallbacks w) r →
      (∀ x, r = some x → (s.restated w info value).Selected (some x) t) →
      (r = none → t = (s.restated w info value).unfocus none) →
      Stated w info value s (t.drawn w value true)
  | shows : ¬value.concealed → ¬(info.state.concealed ∧ s.activeWindow = none) →
      Stated w info value s ((s.restated w info value).drawn w value false)
  | takes {r : Option Window} {t : Model} : ¬value.concealed → info.state.concealed →
      s.activeWindow = none → ((s.restated w info value).drawn w value false).Picks w r →
      ((s.restated w info value).drawn w value false).Selected r t → Stated w info value s t

section Stated

variable {mru : List Window} {focus : Focus} {log : List Event} {hidden : Bool}

theorem restated_eq : s.restated w info value = { s.entered w info value with log := s.log } := by
  unfold restated entered markFullscreen
  split <;> rfl

@[simp] theorem info?_restated : (s.restated w info value).info? v =
    if v = w then some { info with state := value } else s.info? v := by
  simp [restated]

@[simp] theorem surface?_restated : (s.restated w info value).surface? v = s.surface? v := by
  simp [restated]

theorem mru_restated : (s.restated w info value).mruActiveWindows = s.mruActiveWindows := by
  rw [restated, markFullscreen_eq]
  rfl

theorem hideFallbacks_restated :
    (s.restated w info value).hideFallbacks w = s.hideFallbacks w := by
  rw [restated, markFullscreen_eq]
  rfl

theorem Integrity.restated (integrity : s.Integrity) (here : s.info? w = some info) :
    (s.restated w info value).Integrity := by
  have entered := integrity.entered here value
  rw [restated_eq]
  exact ⟨⟨entered.live, entered.children⟩, entered.windows, entered.mru, entered.fullscreen,
    entered.workspaces, entered.retired⟩

theorem drawn_frame :
    ({ s with mruActiveWindows := mru, focus := focus, log := log } : Model).drawn w value hidden =
      { s.drawn w value hidden with mruActiveWindows := mru, focus := focus, log := log } := by
  have twice (u : Model) (f : Surface → Surface) :
      ({ u with mruActiveWindows := mru, focus := focus, log := log } : Model).configure w f =
        { u.configure w f with mruActiveWindows := mru, focus := focus, log := log } := by
    have same : ({ u with mruActiveWindows := mru, focus := focus, log := log } : Model).surface? w =
      u.surface? w := rfl
    unfold configure
    rw [same]
    split <;> rfl
  rw [drawn, twice, twice]
  rfl

theorem Selected.frame (selected : s.Selected r t) :
    ∃ mru focus log, t = { s with mruActiveWindows := mru, focus := focus, log := log } := by
  cases r with
  | none => exact ⟨_, _, _, selected⟩
  | some x =>
    obtain ⟨raised, -, rfl⟩ := selected
    exact ⟨_, _, _, rfl⟩

/-- Where the focus goes is all that the cases differ in. -/
theorem Stated.frame (stated : Stated w info value s t) : ∃ mru focus log,
    t = { (s.restated w info value).drawn w value value.concealed with
      mruActiveWindows := mru, focus := focus, log := log } := by
  cases stated with
  | hides concealed _ =>
    rw [concealed]
    exact ⟨_, _, _, rfl⟩
  | @yields r u concealed _ _ found missed =>
    rw [concealed]
    have same : ∃ mru focus log, u = { s.restated w info value with
        mruActiveWindows := mru, focus := focus, log := log } := by
      cases r with
      | some x => exact (found x rfl).frame
      | none =>
        obtain rfl := missed rfl
        unfold unfocus
        split
        · exact ⟨_, _, _, rfl⟩
        · exact ⟨_, _, _, rfl⟩
    obtain ⟨mru, focus, log, rfl⟩ := same
    exact ⟨mru, focus, log, drawn_frame⟩
  | shows shown _ =>
    rw [Bool.eq_false_iff.mpr shown]
    exact ⟨_, _, _, rfl⟩
  | takes shown _ _ _ selected =>
    rw [Bool.eq_false_iff.mpr shown]
    exact selected.frame

theorem focusable_congr (infos : ∀ v, t.info? v = s.info? v)
    (surfaces : ∀ v, t.surface? v = s.surface? v) : t.Focusable x ↔ s.Focusable x := by
  unfold Focusable isVisible
  rw [infos, surfaces]

theorem Alike.of_same (infos : ∀ v, t.info? v = s.info? v)
    (surfaces : ∀ v, t.surface? v = s.surface? v) : Alike s t where
  live v := by rw [Live, surfaces, Live]
  parents v := by rw [parentOf, infos, parentOf]
  children v := by rw [childrenOf, infos, childrenOf]
  types v := by rw [typeOf, infos, typeOf]
  focusable _ := focusable_congr infos surfaces

/-- A window is focusable neither when its record says that it is concealed nor when its surface
is hidden on top of that. -/
theorem alike_hidden (concealed : value.concealed) :
    Alike (s.restated w info value) ((s.restated w info value).drawn w value true) := by
  have same : SameStructure (s.restated w info value)
      ((s.restated w info value).drawn w value true) := sameStructure_drawn
  refine ⟨same.live, same.parents, same.children, fun v => by simp [typeOf, drawn], fun v => ?_⟩
  by_cases eq : v = w
  · subst eq
    have unseen (u : Model) (infos : u.info? v = some { info with state := value }) :
        ¬u.Focusable v := by
      rintro ⟨info', here, -, seen⟩
      obtain rfl := Option.some.inj (here.symm.trans infos)
      unfold isVisible at seen
      split at seen <;> simp_all
    exact iff_of_false (unseen _ (by simp [drawn])) (unseen _ (by simp))
  · simp [Focusable, isVisible, drawn, eq]

theorem activeWindow_restated : (s.restated w info value).activeWindow = s.activeWindow := by
  rw [restated, markFullscreen_eq]
  rfl

namespace Stated

variable (stated : Stated w info value s t)

include stated

theorem info? : t.info? v = if v = w then some { info with state := value } else s.info? v := by
  obtain ⟨mru, focus, log, rfl⟩ := stated.frame
  change ((s.restated w info value).drawn w value value.concealed).info? v = _
  simp [drawn]

theorem surface? : t.surface? v = if v = w then (s.surface? v).map fun surface =>
    { surface with state := value, hidden := value.concealed } else s.surface? v := by
  obtain ⟨mru, focus, log, rfl⟩ := stated.frame
  change ((s.restated w info value).drawn w value value.concealed).surface? v = _
  by_cases eq : v = w
  · cases here : s.surface? w <;> simp [drawn, eq, here]
  · simp [drawn, eq]

theorem rect : t.rect v = s.rect v := by
  unfold Model.rect topLeft size
  rw [stated.surface?]
  by_cases eq : v = w
  · cases here : s.surface? w <;> simp [eq, here]
  · simp [eq]

theorem rest : t.workspacesToWindows = s.workspacesToWindows ∧
    t.liveWorkspaces = s.liveWorkspaces ∧ t.displays = s.displays ∧
    t.displayLayout = s.displayLayout := by
  obtain ⟨mru, focus, log, rfl⟩ := stated.frame
  rw [drawn, configure_eq, configure_eq, Model.restated, markFullscreen_eq]
  exact ⟨rfl, rfl, rfl, rfl⟩

theorem parentOf (here : s.info? w = some info) : t.parentOf v = s.parentOf v := by
  rw [Model.parentOf, stated.info?, Model.parentOf]
  by_cases eq : v = w <;> simp [eq, here]

theorem childrenOf (here : s.info? w = some info) : t.childrenOf v = s.childrenOf v := by
  rw [Model.childrenOf, stated.info?, Model.childrenOf]
  by_cases eq : v = w <;> simp [eq, here]

theorem typeOf (here : s.info? w = some info) : t.typeOf v = s.typeOf v := by
  rw [Model.typeOf, stated.info?, Model.typeOf]
  by_cases eq : v = w <;> simp [eq, here]

/-- The focus moves only off a window that is hidden, and to one that is shown if there was no
active window. -/
theorem kept (stays : value.concealed → s.activeWindow ≠ some w)
    (shown : ¬value.concealed → ¬(info.state.concealed ∧ s.activeWindow = none)) :
    t.mruActiveWindows = s.mruActiveWindows := by
  cases stated with
  | hides => rw [mru_drawn, mru_restated]
  | yields concealed active => exact absurd active (stays concealed)
  | shows => rw [mru_drawn, mru_restated]
  | takes visible concealed inactive => exact absurd ⟨concealed, inactive⟩ (shown visible)

/-- Off a window that is hidden it moves to the first fallback that takes it, if one does. -/
theorem yielded (concealed : value.concealed) (active : s.activeWindow = some w) :
    ∃ r, t.FirstPick (s.hideFallbacks w) r ∧
      t.mruActiveWindows = promoted s.mruActiveWindows r := by
  have alike (u : Model) (framed : ∃ mru focus log, u = { s.restated w info value with
      mruActiveWindows := mru, focus := focus, log := log }) :
      Alike (s.restated w info value) (u.drawn w value true) := by
    obtain ⟨mru, focus, log, rfl⟩ := framed
    rw [drawn_frame]
    exact (alike_hidden concealed).trans (.of_same (fun _ => rfl) fun _ => rfl)
  cases stated with
  | hides _ inactive => exact absurd active inactive
  | @yields r u _ _ search found missed =>
    rw [hideFallbacks_restated] at search
    cases r with
    | some x =>
      have selected := found x rfl
      refine ⟨some x, (alike _ selected.frame).firstPick search, ?_⟩
      rw [mru_drawn, selected.mru, mru_restated]
    | none =>
      obtain rfl := missed rfl
      have old : (s.restated w info value).mruActiveWindows = s.mruActiveWindows := mru_restated
      have same : ((s.restated w info value).unfocus none).mruActiveWindows =
          s.mruActiveWindows := by
        rw [← old]
        unfold unfocus
        split <;> rfl
      refine ⟨none, (alike _ ?_).firstPick search, ?_⟩
      · unfold unfocus
        split
        · exact ⟨_, _, _, rfl⟩
        · exact ⟨_, _, _, rfl⟩
      · rw [mru_drawn, same]
        rfl
  | shows visible => exact absurd concealed visible
  | takes visible => exact absurd concealed visible

/-- A window that is shown where none is active takes the focus, or passes it on. -/
theorem taken (visible : ¬value.concealed) (concealed : info.state.concealed)
    (inactive : s.activeWindow = none) :
    ∃ r, t.Picks w r ∧ t.mruActiveWindows = promoted s.mruActiveWindows r := by
  cases stated with
  | hides concealed => exact absurd concealed visible
  | yields concealed => exact absurd concealed visible
  | shows _ stays => exact absurd ⟨concealed, inactive⟩ stays
  | @takes r _ _ _ _ picks selected =>
    refine ⟨r, Alike.picks ?_ picks, ?_⟩
    · obtain ⟨mru, focus, log, rfl⟩ := selected.frame
      exact .of_same (fun _ => rfl) fun _ => rfl
    · rw [selected.mru, mru_drawn, mru_restated]

end Stated

/-- Where the focus has gone is a window that was visible, unless it is the one shown. -/
theorem Coherent.stated (coherent : s.Coherent) (here : s.info? w = some info)
    (stated : Stated w info value s t) : t.Coherent := by
  have integrity : (s.restated w info value).Integrity := coherent.integrity.restated here
  have infos (v : Window) : (s.restated w info value).info? v =
    (s.entered w info value).info? v := by simp
  have surfaces (v : Window) : (s.restated w info value).surface? v = s.surface? v :=
    surface?_restated
  have still (hidden : Bool) (conceals : hidden → value.concealed) :
      ((s.restated w info value).drawn w value hidden).Coherent :=
    coherent.drawn here conceals infos surfaces integrity
      fun v member => .inl (by rwa [mru_restated] at member)
  cases stated with
  | hides concealed _ => exact still true fun _ => concealed
  | @yields r u concealed _ search found missed =>
    cases r with
    | some x =>
      obtain ⟨raised, -, rfl⟩ := found x rfl
      have focusable := search.focusable
      refine coherent.drawn here (fun _ => concealed) infos surfaces
        (integrity.focusOn focusable.managed) fun v member => ?_
      rcases List.mem_append.mp member with kept | new
      · have old := List.mem_of_mem_filter kept
        exact .inl (by rwa [mru_restated] at old)
      · obtain rfl := List.mem_singleton.mp new
        have entered : (s.entered w info value).Focusable v :=
          (focusable_congr (fun v => (infos v).symm) fun v => by simp).mp focusable
        exact .inr (visible_of_focusable_entered coherent.synced concealed entered).2
    | none =>
      obtain rfl := missed rfl
      have unfocused : ((s.restated w info value).unfocus none).Integrity := integrity.unfocus
      unfold Model.unfocus at unfocused ⊢
      split at unfocused
      · exact coherent.drawn here (fun _ => concealed) infos surfaces unfocused
          fun v member => .inl (by
            change v ∈ (s.restated w info value).mruActiveWindows at member
            rwa [mru_restated] at member)
      · exact still true fun _ => concealed
  | shows => exact still false (by simp)
  | @takes r _ _ _ _ picks selected =>
    exact closed_coherent.keeps (still false (by simp)) selected picks.focusable

end Stated

end Model

end Miral
