import Miral.Modification

/-! `set_state`: the fullscreen set and the record follow the state at once, the surface
follows after the focus has moved off a window that is being hidden. -/
namespace Miral

open Program Prog

namespace Model

variable {s t : Model} {w v x : Window} {info : WindowInfo} {value : WindowState}

/-- The first step of `set_state`. -/
def markFullscreen (s : Model) (w : Window) (value : WindowState) : Model :=
  if value ≠ .fullscreen then s.eraseFullscreen w else s.insertFullscreen w

/-- The state once the policy and the record know of the change. -/
def entered (s : Model) (w : Window) (info : WindowInfo) (value : WindowState) : Model :=
  ((s.markFullscreen w value).emit (.adviseStateChange w value)).setInfo w
    { info with state := value }

/-- The surface is told its state, and hidden or shown. -/
def drawn (s : Model) (w : Window) (value : WindowState) (hidden : Bool) : Model :=
  (s.configure w ({ · with state := value })).configure w ({ · with hidden })

theorem markFullscreen_eq :
    s.markFullscreen w value =
      { s with fullscreenSurfaces := (s.markFullscreen w value).fullscreenSurfaces } := by
  unfold markFullscreen
  split <;> rfl

theorem mem_markFullscreen :
    v ∈ (s.markFullscreen w value).fullscreenSurfaces ↔
      if v = w then value = .fullscreen else v ∈ s.fullscreenSurfaces := by
  by_cases full : value = .fullscreen
  · by_cases known : w ∈ s.fullscreenSurfaces <;> by_cases eq : v = w <;>
      simp_all [markFullscreen, insertFullscreen]
  · by_cases eq : v = w <;> simp [markFullscreen, eraseFullscreen, full, eq]

@[simp] theorem info?_markFullscreen : (s.markFullscreen w value).info? v = s.info? v := by
  rw [markFullscreen_eq]
  rfl

@[simp] theorem surface?_markFullscreen :
    (s.markFullscreen w value).surface? v = s.surface? v := by
  rw [markFullscreen_eq]
  rfl

@[simp] theorem info?_entered :
    (s.entered w info value).info? v =
      if v = w then some { info with state := value } else s.info? v := by
  simp [entered]

@[simp] theorem surface?_entered : (s.entered w info value).surface? v = s.surface? v := by
  simp [entered]

theorem Integrity.marked (integrity : s.Integrity) (here : s.info? w = some info) :
    (s.markFullscreen w info.state).Integrity where
  live v := by rw [markFullscreen_eq]; exact integrity.live v
  children p c := by rw [markFullscreen_eq]; exact integrity.children p c
  windows a v := by rw [markFullscreen_eq]; exact integrity.windows a v
  mru v member := by
    rw [markFullscreen_eq] at member ⊢
    exact integrity.mru v member
  fullscreen v := by
    rw [mem_markFullscreen, stateOf, info?_markFullscreen]
    by_cases eq : v = w
    · simp [eq, here]
    · rw [if_neg eq, integrity.fullscreen]
      rfl
  workspaces pair member := by
    rw [markFullscreen_eq] at member ⊢
    exact integrity.workspaces pair member
  retired := by
    rw [markFullscreen_eq]
    exact integrity.retired

theorem parentOf_entered (here : s.info? w = some info) :
    (s.entered w info value).parentOf v = s.parentOf v := by
  by_cases eq : v = w <;> simp [parentOf, eq, here]

theorem Integrity.entered (integrity : s.Integrity) (here : s.info? w = some info)
    (value : WindowState) : (s.entered w info value).Integrity := by
  have managed (v : Window) : (s.entered w info value).Managed v ↔ s.Managed v := by
    by_cases eq : v = w <;> simp [Managed, eq, here]
  have children (v : Window) : (s.entered w info value).childrenOf v = s.childrenOf v := by
    by_cases eq : v = w <;> simp [childrenOf, eq, here]
  have frame : s.entered w info value = { s with
      windowInfo := (s.entered w info value).windowInfo
      fullscreenSurfaces := (s.entered w info value).fullscreenSurfaces
      log := (s.entered w info value).log } := by
    unfold Model.entered
    rw [markFullscreen_eq]
    rfl
  exact
    { live := fun v => by simp only [managed, Live, surface?_entered]; exact integrity.live v
      children := fun p c => by rw [children, parentOf_entered here, integrity.children]
      windows := fun a v => by
        simp only [managed]
        rw [frame]
        exact integrity.windows a v
      mru := fun v member => (managed v).mpr (integrity.mru v (by rwa [frame] at member))
      fullscreen := fun v => by
        have marked : v ∈ (s.entered w info value).fullscreenSurfaces ↔
            v ∈ (s.markFullscreen w value).fullscreenSurfaces := Iff.rfl
        rw [marked, mem_markFullscreen, stateOf, info?_entered]
        by_cases eq : v = w
        · simp [eq]
        · simpa [eq, stateOf] using integrity.fullscreen v
      workspaces := fun pair member =>
        (managed _).mpr (integrity.workspaces pair (by rwa [frame] at member))
      retired := by
        rw [frame]
        exact integrity.retired }

theorem sameStructure_drawn {hidden : Bool} : SameStructure s (s.drawn w value hidden) :=
  .trans (.configure _) (.configure _)

theorem Integrity.drawn (integrity : s.Integrity) {hidden : Bool} :
    (s.drawn w value hidden).Integrity := by
  apply integrity.sameStructure sameStructure_drawn
  simpa [Model.drawn] using integrity.mru

theorem activeWindow_congr (mru : t.mruActiveWindows = s.mruActiveWindows)
    (same : ∀ v ∈ s.mruActiveWindows, t.visible v = s.visible v) :
    t.activeWindow = s.activeWindow := by
  rw [activeWindow, activeWindow, mru, ← List.head?_filter, ← List.head?_filter]
  exact congrArg List.head? (List.filter_congr fun v member => same v (List.mem_reverse.mp member))

theorem visible_drawn {hidden : Bool} (other : v ≠ w) :
    (s.drawn w value hidden).visible v = s.visible v := by
  simp [Model.visible, drawn, other]

theorem invisible_hidden : ¬(s.drawn w value true).visible w := by
  cases here : s.surface? w <;> simp [visible, Surface.visible, drawn, here]

@[simp] theorem mru_drawn {hidden : Bool} :
    (s.drawn w value hidden).mruActiveWindows = s.mruActiveWindows := by
  simp [drawn]

@[simp] theorem visible_entered : (s.entered w info value).visible v = s.visible v := by
  simp [Model.visible]

@[simp] theorem mru_entered :
    (s.entered w info value).mruActiveWindows = s.mruActiveWindows := by
  rw [entered, markFullscreen_eq]
  rfl

theorem log_entered : (s.entered w info value).log = s.log ++ [.adviseStateChange w value] := by
  rw [entered, markFullscreen_eq]
  rfl

theorem not_focusable_entered (concealed : value.concealed) :
    ¬(s.entered w info value).Focusable w := by
  rintro ⟨info', here, -, seen⟩
  rw [info?_entered, if_pos rfl] at here
  obtain rfl := Option.some.inj here
  unfold isVisible at seen
  split at seen <;> simp_all

theorem visible_of_focusable_entered (synced : s.Synced) (concealed : value.concealed)
    (focusable : (s.entered w info value).Focusable x) : x ≠ w ∧ s.visible x := by
  have other : x ≠ w := by
    rintro rfl
    exact not_focusable_entered concealed focusable
  obtain ⟨info', here, active, seen⟩ := focusable
  refine ⟨other, Focusable.visible synced ⟨info', ?_, active, ?_⟩⟩
  · simpa [other] using here
  · simpa [isVisible] using seen

theorem activeWindow_entered : (s.entered w info value).activeWindow = s.activeWindow :=
  activeWindow_congr mru_entered fun _ _ => visible_entered

theorem activeWindow_focusOn {raised : List Event} (seen : s.visible x) :
    (s.focusOn x raised).activeWindow = some x :=
  activeWindow_concat (s := s.focusOn x raised) rfl seen

end Model

open Model

variable {s : Model} {w : Window} {info : WindowInfo} {value : WindowState} {fuel : Nat}

/-- What focus moves keep, `set_state` keeps when it moves the focus. -/
theorem FocusClosed.moveFocusFrom {property : Model → Prop} (closed : FocusClosed property)
    (null : ∀ t, property t → property (t.unfocus none)) (holds : property s) (live : s.Live w) :
    (moveFocusFrom fuel w).Ensures s (fun _ t => property t) (fun _ _ => False)
      (s.Short fuel) := by
  let kept (t : Model) : Prop := property t ∧ SameStructure s t
  have framed : FocusClosed kept := closed.framed s
  have short (t : Model) (holds : kept t) (short : t.Short fuel) : s.Short fuel :=
    short.congr holds.2.parents
  suffices moves : (Miral.moveFocusFrom fuel w).Ensures s (fun _ t => kept t) (fun _ _ => False)
      (s.Short fuel) from moves.imp (fun _ _ h => h.1)
  rw [Miral.moveFocusFrom]
  have start : kept s := ⟨holds, .refl⟩
  apply (framed.select start live).bind
  intro _ t holds
  simp only [ensures_bind, ensures_state, ensures_onlyIf, ensures_pure]
  have last (t : Model) (holds : kept t) : (t.activeWindow = some w →
      (selectActiveWindow fuel none).Ensures t (fun _ t => kept t) (fun _ _ => False)
        (s.Short fuel)) ∧ (¬t.activeWindow = some w → kept t) := by
    refine ⟨fun _ => ?_, fun _ => holds⟩
    refine (ensures_selectNull (framed.integrity t holds) lock_none).mono ?_ (fun _ _ h => h)
      (short t holds)
    intro _ u after
    rcases after with ⟨-, rfl⟩
    exact ⟨null t holds.1, holds.2.trans sameStructure_unfocus⟩
  have attempt (t : Model) (admits : Model → Window → Bool) (holds : kept t)
      {post : Model → Prop} (next : ∀ u, kept u → post u) :
      (enumerateIf fuel admits).Ensures t (fun _ u => post u) (fun _ _ => False)
        (s.Short fuel) :=
    (framed.searches holds (searches_enumerateIf (framed.integrity t holds) admits)).mono
      (fun _ u h => next u h.1) (fun _ _ h => h) (short t holds)
  have second (t : Model) (holds : kept t) :
      (t.activeWindow = some w ∨ t.activeWindow = none →
        (enumerateIf fuel fun _ candidate => candidate ≠ w).Ensures t (fun _ u =>
          (u.activeWindow = some w → (selectActiveWindow fuel none).Ensures u
            (fun _ u => kept u) (fun _ _ => False) (s.Short fuel)) ∧
          (¬u.activeWindow = some w → kept u)) (fun _ _ => False) (s.Short fuel)) ∧
      (¬(t.activeWindow = some w ∨ t.activeWindow = none) →
        (t.activeWindow = some w → (selectActiveWindow fuel none).Ensures t
          (fun _ u => kept u) (fun _ _ => False) (s.Short fuel)) ∧
        (¬t.activeWindow = some w → kept t)) :=
    ⟨fun _ => attempt t _ holds last, fun _ => last t holds⟩
  exact ⟨fun _ => attempt t _ holds second, fun _ => second t holds⟩

/-- The focus moves off a window that is being hidden to the first fallback that takes it.
The record of the window already says that it is hidden, its surface does not yet. -/
theorem ensures_moveFocusFrom (integrity : s.Integrity) (active : s.activeWindow = some w)
    (unseen : ¬s.Focusable w) (shown : ∀ x, s.Focusable x → s.visible x) :
    (moveFocusFrom fuel w).Ensures s
      (fun _ t => ∃ r, s.FirstPick (s.hideFallbacks w) r ∧
        (∀ x, r = some x → s.Selected (some x) t) ∧ (r = none → t = s.unfocus none))
      (fun _ _ => False) (s.Short fuel) := by
  have moved (r : Option Window) (t : Model) (picks : s.FirstPick (s.hideFallbacks w) r)
      (selected : s.Selected r t) (x : Window) (eq : r = some x) :
      t.activeWindow = some x ∧ x ≠ w ∧ ∃ r, s.FirstPick (s.hideFallbacks w) r ∧
        (∀ x, r = some x → s.Selected (some x) t) ∧ (r = none → t = s.unfocus none) := by
    subst eq
    have focusable := picks.focusable
    obtain ⟨raised, quiet, rfl⟩ := selected
    refine ⟨activeWindow_focusOn (shown x focusable), ?_, some x, picks, ?_, by simp⟩
    · rintro rfl
      exact unseen focusable
    · rintro y ⟨rfl⟩
      exact ⟨raised, quiet, rfl⟩
  rw [moveFocusFrom]
  refine (ensures_selectActiveWindow integrity (visible_live (activeWindow_visible active))).bind
    ?_
  intro r t after
  rcases after with ⟨picks, selected⟩
  simp only [ensures_bind, ensures_state, ensures_onlyIf, ensures_pure]
  cases r with
  | some x =>
    obtain ⟨now, other, done⟩ := moved _ t (.found picks) selected x rfl
    simp [now, other, done]
  | none =>
    obtain rfl : t = s := selected
    refine ⟨fun _ => ?_, fun no => absurd (.inl active) no⟩
    refine (searches_enumerateIf integrity _).imp ?_
    intro r u after
    rcases after with ⟨first, selected⟩
    cases r with
    | some x =>
      obtain ⟨now, other, done⟩ :=
        moved _ u (.missed picks first.append_found) selected x rfl
      simp [now, other, done]
    | none =>
      obtain rfl : u = t := selected
      refine ⟨fun _ => ?_, fun no => absurd (.inl active) no⟩
      refine (searches_enumerateIf integrity _).imp ?_
      intro r v after
      rcases after with ⟨second, selected⟩
      have search : u.FirstPick (u.hideFallbacks w) r := .missed picks (first.append_missed second)
      cases r with
      | some x =>
        obtain ⟨now, other, done⟩ := moved _ v search selected x rfl
        simp [now, other, done]
      | none =>
        obtain rfl : v = u := selected
        refine ⟨fun _ => ?_, fun no => absurd active no⟩
        refine (ensures_selectNull integrity lock_none).imp ?_
        intro _ t after
        rcases after with ⟨-, rfl⟩
        exact ⟨none, search, by simp, fun _ => rfl⟩

theorem ensures_moveFocusFrom_entered (integrity : s.Integrity) (synced : s.Synced)
    (here : s.info? w = some info) (concealed : value.concealed)
    (active : s.activeWindow = some w) :
    (moveFocusFrom fuel w).Ensures (s.entered w info value)
      (fun _ t => ∃ r, (s.entered w info value).FirstPick ((s.entered w info value).hideFallbacks w) r ∧
        (∀ x, r = some x → (s.entered w info value).Selected (some x) t) ∧
        (r = none → t = (s.entered w info value).unfocus none))
      (fun _ _ => False) (s.Short fuel) := by
  refine (ensures_moveFocusFrom (integrity.entered here value) (activeWindow_entered.trans active)
    (not_focusable_entered concealed) ?_).mono (fun _ _ h => h) (fun _ _ h => h)
    (Short.congr fun _ => parentOf_entered here)
  intro x focusable
  rw [visible_entered]
  exact (visible_of_focusable_entered synced concealed focusable).2

theorem ensures_passOn {post : Unit → Model → Prop} (integrity : s.Integrity) (synced : s.Synced)
    (here : s.info? w = some info) (concealed : value.concealed)
    (active : s.activeWindow = some w)
    (found : ∀ y raised,
      (s.entered w info value).FirstPick ((s.entered w info value).hideFallbacks w) (some y) →
      (∀ event ∈ raised, event.quiet) → post () ((s.entered w info value).focusOn y raised))
    (missed : (s.entered w info value).FirstPick ((s.entered w info value).hideFallbacks w) none →
      post () ((s.entered w info value).unfocus none)) :
    (moveFocusFrom fuel w).Ensures (s.entered w info value) post (fun _ _ => False) True := by
  refine (ensures_moveFocusFrom_entered integrity synced here concealed active).mono ?_
    (fun _ _ h => h) fun _ => trivial
  intro _ t after
  rcases after with ⟨r, search, selected, unselected⟩
  cases r with
  | some y =>
    obtain ⟨raised, quiet, rfl⟩ := selected y rfl
    exact found y raised search quiet
  | none =>
    obtain rfl := unselected rfl
    exact missed search

theorem unfocus_entered (active : s.activeWindow = some w) :
    (s.entered w info value).unfocus none = { s.entered w info value with
      focus := ⟨none, none⟩
      log := (s.entered w info value).log ++ [.setFocusTo none none, .adviseFocusLost w] } :=
  unfocus_eq (activeWindow_entered.trans active)

/-- One rule for `set_state`, by what the change does to the visibility of the window. -/
theorem ensures_setState (here : s.info? w = some info) {post : Unit → Model → Prop}
    {error : Failure → Model → Prop} {short : Prop}
    (same : info.state = value → post () (s.markFullscreen w value))
    (hidden : info.state ≠ value → value.concealed →
      (onlyIf (s.activeWindow = some w) (moveFocusFrom fuel w)).Ensures (s.entered w info value)
        (fun _ t => post () (t.drawn w value true)) error short)
    (unselected : info.state ≠ value → ¬value.concealed →
      ¬(info.state.concealed ∧ s.activeWindow = none) →
      post () ((s.entered w info value).drawn w value false))
    (selected : info.state ≠ value → ¬value.concealed → info.state.concealed →
      s.activeWindow = none →
      (selectActiveWindow fuel (some w)).Ensures ((s.entered w info value).drawn w value false)
        (fun _ t => post () t) error short) :
    (setState fuel w value).Ensures s post error short := by
  have active : (s.markFullscreen w value).activeWindow = s.activeWindow := by
    rw [markFullscreen_eq]
    rfl
  have unmoved : (s.entered w info value).activeWindow = s.activeWindow := active
  rw [setState, ensures_bind, ensures_infoFor_here here]
  rw [ensures_bind, ensures_update, ensures_onlyIf]
  refine ⟨fun changed => ?_, fun unchanged => same (not_not.mp unchanged)⟩
  rw [ensures_bind, ensures_emit, ensures_ite]
  constructor
  · intro concealed
    rw [ensures_bind, ensures_setInfo, ensures_bind, ensures_state, ensures_bind]
    have moves := hidden changed concealed
    rw [← unmoved] at moves
    exact moves
  · intro visible
    simp only [ensures_bind, ensures_state, ensures_setInfo, ensures_configure, ensures_onlyIf]
    constructor
    · rintro ⟨concealed, inactive⟩
      exact selected changed visible concealed (active.symm.trans inactive)
    · intro no
      apply unselected changed visible
      intro first
      rcases first with ⟨concealed, inactive⟩
      exact no ⟨concealed, active.trans inactive⟩

theorem FocusClosed.setState {property : Model → Prop} (closed : FocusClosed property)
    (null : ∀ t, property t → property (t.unfocus none)) (here : s.info? w = some info)
    (live : s.Live w) (marked : info.state = value → property (s.markFullscreen w value))
    (entered : property (s.entered w info value))
    (drawn : ∀ t hidden, property t → property (t.drawn w value hidden)) :
    (setState fuel w value).Ensures s (fun _ t => property t) (fun _ _ => False)
      (s.Short fuel) := by
  have parents (v : Window) : (s.entered w info value).parentOf v = s.parentOf v :=
    parentOf_entered here
  have alive : (s.entered w info value).Live w := by simpa [Live] using live
  apply ensures_setState here marked
  · intro _ _
    rw [ensures_onlyIf]
    refine ⟨fun _ => ?_, fun _ => drawn _ true entered⟩
    exact (closed.moveFocusFrom null entered alive).mono (fun _ t => drawn t true)
      (fun _ _ h => h) (Short.congr parents)
  · exact fun _ _ _ => drawn _ false entered
  · intro _ _ _ _
    have same : SameStructure (s.entered w info value)
        ((s.entered w info value).drawn w value false) := sameStructure_drawn
    exact (closed.select (drawn _ false entered) ((same.live w).mpr alive)).mono (fun _ _ h => h)
      (fun _ _ h => h) (Short.congr fun v => (same.parents v).trans (parents v))

end Miral
