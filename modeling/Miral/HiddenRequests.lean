import Miral.WorkspaceVisibility

/-! A client asks for a state while its window is in a hidden workspace. The request is kept for
later, but the place that goes with it is not: the window is moved there at once, and what it
would have been restored to is forgotten. -/
namespace Miral

open Program Prog Forest Model

/-- What a window looks like to the user, and where it would go back to. -/
def Shell.appearance (s : Shell) (w : Window) : Option (WindowState × Rectangle × Rectangle) :=
  (s.manager.info? w).map fun info => (info.state, s.manager.rect w, info.restoreRect)

namespace Model

variable {s t : Model} {w : Window} {info : WindowInfo} {value : WindowState}
  {rect restoreRect : Rectangle}

def standingAt (s : Model) (w : Window) (rect : Rectangle) : Model :=
  s.configure w ({ · with topLeft := rect.topLeft, size := rect.size })

/-- Where a window ends up that stands at `rect`, would be restored to `restoreRect`, and is
given a state. -/
def rectAt (s : Model) (w : Window) (info : WindowInfo) (rect restoreRect : Rectangle)
    (value : WindowState) : Rectangle :=
  ((s.standingAt w rect).rectForState w info restoreRect value).getD rect

/-- What becomes of a window that is hidden at `rect` when it is shown. -/
def shownAs (s : Model) (w : Window) (info : WindowInfo) (rect : Rectangle) (value : WindowState) :
    WindowState × Rectangle × Rectangle :=
  if value = .hidden then (.hidden, rect, info.restoreRect)
  else (value, s.rectAt w info rect rect value, rect)

theorem shownAs_eq : s.shownAs w info rect value =
    (value, (s.shownAs w info rect value).2.1, (s.shownAs w info rect value).2.2) := by
  unfold shownAs
  split
  · rename_i stays
    rw [stays]
  · rfl

theorem shownAs_rect :
    (s.shownAs w info rect value).2.1 = s.rectAt w info rect rect value := by
  unfold shownAs
  split
  · rename_i stays
    subst stays
    rfl
  · rfl

theorem currentRestoreRect_shown (s : Model) (w : Window) (info : WindowInfo) (rect : Rectangle)
    (value : WindowState) : ({ info with
      state := value
      restoreRect := (s.shownAs w info rect value).2.2 } : WindowInfo).currentRestoreRect
      (s.rectAt w info rect rect value) = rect := by
  cases value <;> rfl

theorem rect_standingAt (live : s.Live w) : (s.standingAt w rect).rect w = rect := by
  obtain ⟨surface, here⟩ := live_iff.mp live
  simp [standingAt, Model.rect, topLeft, size, here]

@[simp] theorem displays_standingAt : (s.standingAt w rect).displays = s.displays := by
  rw [standingAt, configure_eq]

@[simp] theorem displayLayout_standingAt :
    (s.standingAt w rect).displayLayout = s.displayLayout := by
  rw [standingAt, configure_eq]

theorem rectForState_congr {info' : WindowInfo} (displays : t.displays = s.displays)
    (displayLayout : t.displayLayout = s.displayLayout) (same : t.rect w = s.rect w)
    (output : info'.outputId = info.outputId) :
    t.rectForState w info' restoreRect value = s.rectForState w info restoreRect value := by
  unfold rectForState fullscreenRectFor
  rw [displays, displayLayout, same, output]

theorem rectAt_congr {info' : WindowInfo} (displays : t.displays = s.displays)
    (displayLayout : t.displayLayout = s.displayLayout) (live : s.Live w) (live' : t.Live w)
    (output : info'.outputId = info.outputId) :
    t.rectAt w info' rect restoreRect value = s.rectAt w info rect restoreRect value := by
  refine congrArg (Option.getD · rect) (rectForState_congr ?_ ?_ ?_ output)
  · rw [displays_standingAt, displays_standingAt, displays]
  · rw [displayLayout_standingAt, displayLayout_standingAt, displayLayout]
  · rw [rect_standingAt live, rect_standingAt live']

theorem cachedInfo_hidden (hidden : info.state = .hidden) (changes : value ≠ .hidden) :
    s.cachedInfo w info (some value) = { info with restoreRect := s.rect w } := by
  have differs : info.state ≠ value := fun eq => changes (eq.symm.trans hidden)
  rw [cachedInfo, if_pos differs, WindowInfo.currentRestoreRect, hidden]

end Model

variable {s t : Model} {w : Window} {info : WindowInfo} {value : WindowState} {rect : Rectangle}

theorem Standing.stateRect (live : s.Live w) {current : WindowInfo}
    (standing : Standing s w rect current t) (changes : current.state ≠ value)
    (output : current.outputId = info.outputId) :
    t.stateRect w current value = s.rectAt w info rect (current.currentRestoreRect rect) value := by
  rw [Model.stateRect, if_neg changes, rectAt, standing.rect]
  refine congrArg (Option.getD · rect) (rectForState_congr ?_ ?_ ?_ output)
  · rw [standing.displays, displays_standingAt]
  · rw [standing.displayLayout, displayLayout_standingAt]
  · rw [standing.rect, rect_standingAt live]

theorem Standing.refl (integrity : s.Integrity) (here : s.info? w = some info) :
    Standing s w (s.rect w) info s :=
  ⟨integrity, fun _ => rfl, rfl, rfl, rfl, here⟩

theorem Standing.trans {u : Model} {rect' : Rectangle} {info' : WindowInfo}
    (first : Standing s w rect info t) (second : Standing t w rect' info' u) :
    Standing s w rect' info' u :=
  ⟨second.integrity, fun v => (second.parents v).trans (first.parents v),
    second.displays.trans first.displays, second.displayLayout.trans first.displayLayout,
    second.rect, second.record⟩

theorem Standing.appearance (standing : Standing s w rect info t) (shell : Shell) :
    (shell.setManager t).appearance w = some (info.state, rect, info.restoreRect) := by
  have record : (shell.setManager t).manager.info? w = some info := standing.record
  rw [Shell.appearance, record]
  exact congrArg (fun rect => some (info.state, rect, info.restoreRect)) standing.rect

theorem Standing.validate (integrity : s.Integrity) (here : s.info? w = some info)
    {current : WindowInfo} (standing : Standing s w rect current t) (type : current.type = info.type)
    (parent : current.parent = info.parent) :
    t.validateModificationRequest { state := some value } current =
      s.validateModificationRequest { state := some value } info := by
  have locked : t.lock info.parent = s.lock info.parent := by
    rw [integrity.lock_parent here, ← parent, standing.integrity.lock_parent standing.record]
  unfold validateModificationRequest hasParent
  simp only [Option.getD_none, type, parent, locked]

theorem Model.stateRect_hidden (integrity : s.Integrity) (here : s.info? w = some info)
    (hidden : info.state = .hidden) :
    s.stateRect w info value = s.rectAt w info (s.rect w) (s.rect w) value := by
  by_cases stays : value = .hidden
  · subst stays
    rw [stateRect, if_pos hidden]
    rfl
  · have live := integrity.live_of_info here
    have differs : info.state ≠ value := fun eq => stays (eq.symm.trans hidden)
    rw [(Standing.refl integrity here).stateRect live differs rfl, WindowInfo.currentRestoreRect,
      hidden]

theorem Model.Granted.standing {d : Window → Prop} {titlebar : Option Window}
    (placed : Granted d w titlebar info value s t) : Standing s w (s.stateRect w info value)
      { s.cachedInfo w info (some value) with state := value } t :=
  ⟨placed.furnished.coherent.integrity, placed.parents, placed.displays, placed.displayLayout,
    placed.rect, placed.record⟩

namespace TitlebarPolicy

/-- A client's request for a state. One that is refused is answered with an error. -/
def requestState (fuel : Nat) (w : Window) (value : WindowState) : TitlebarPolicy Unit :=
  Prog.attempt (modifySurface fuel w { state := some value })

def requestThenShow (fuel : Nat) (w : Window) (value : WindowState) : TitlebarPolicy Unit := do
  requestState fuel w value
  applyWorkspaceVisibleTo fuel w

def showThenRequest (fuel : Nat) (w : Window) (value : WindowState) : TitlebarPolicy Unit := do
  applyWorkspaceVisibleTo fuel w
  requestState fuel w value

variable {s : Shell} {fuel : Nat}

theorem ensures_requestState {short : Prop} {post : Unit → Shell → Prop}
    (here : s.manager.info? w = some info)
    (refused : s.manager.validateModificationRequest { state := some value } info ≠ .ok () →
      post () s)
    (accepted : s.manager.validateModificationRequest { state := some value } info = .ok () →
      (handleModifyWindow fuel w (placing (some value) (s.manager.placementFor w info value))).Ensures
        s post (fun _ _ => False) short) :
    (requestState fuel w value).Ensures s post (fun _ _ => False) short := by
  rw [requestState, ensures_attempt, modifySurface]
  change (handleRequest fuel w { state := some value }).Ensures s _ _ _
  rw [handleRequest, ensures_bind, ensures_managing, ensures_infoFor_here here, ensures_bind,
    ensures_state, ensures_bind, ensures_ofExcept]
  change (∀ a, s.manager.validateModificationRequest { state := some value } info = .ok a → _) ∧
    ∀ failure, s.manager.validateModificationRequest { state := some value } info = .error failure →
      post () s
  constructor
  · intro _ valid
    have done := accepted valid
    rw [← placeAndSizeForState_state] at done
    exact done.mono (fun _ _ h => h) (fun _ _ h => h.elim) id
  · intro failure invalid
    exact refused (by simp [invalid])

/-- While its workspace is hidden, a window is moved to where the state would have it. -/
theorem ensures_requestState_flagged (sound : s.Sound) (here : s.manager.info? w = some info)
    (flagged : (s.policyData w).inHiddenWorkspace) (hidden : info.state = .hidden)
    (valid : s.manager.validateModificationRequest { state := some value } info = .ok ()) :
    (requestState fuel w value).Ensures s
      (fun _ u => ∃ t, u = (s.setPolicyData w { s.policyData w with oldState := value }).setManager t ∧
        t.Furnished s.IsDecoration ∧ Standing s.manager w
          (s.manager.rectAt w info (s.manager.rect w) (s.manager.rect w) value) info t)
      (fun _ _ => False) (s.manager.Short fuel) := by
  have integrity := sound.furnished.coherent.integrity
  apply ensures_requestState here (fun invalid => absurd valid invalid)
  intro _
  rw [handleModifyWindow, ensures_bind, ensures_state]
  change Prog.Ensures (if (s.policyData w).inHiddenWorkspace then _ else _) s _ _ _
  rw [if_pos flagged, ensures_bind, ensures_update, modifyWindow, modifyWindowWith]
  refine ensures_place (s := s.setPolicyData w { s.policyData w with oldState := value })
    (m := s.manager) sound.titled integrity here none (s.manager.placementFor w info value)
    id fun t reshaped rect _ => ?_
  rw [← stateRect_eq, stateRect_hidden integrity here hidden] at rect
  have begun : Retouched s.manager (s.manager.setInfo w (s.manager.cachedInfo w info none)) :=
    retouched_cached here
  have touched := begun.trans reshaped.touched
  refine ⟨t, rfl, sound.furnished.retouched touched, touched.integrity integrity,
    touched.sameStructure.parents, touched.undisturbed.displays,
    touched.undisturbed.displayLayout, rect, ?_⟩
  rw [reshaped.infos]
  simp [cachedInfo]

theorem ensures_requestState_shown (sound : s.Sound) (here : s.manager.info? w = some info)
    (unflagged : (s.policyData w).inHiddenWorkspace = false)
    (valid : s.manager.validateModificationRequest { state := some value } info = .ok ()) :
    (requestState fuel w value).Ensures s (fun _ u => ∃ t, u = s.setManager t ∧
        Granted s.IsDecoration w (s.titlebar w) info value s.manager t)
      (fun _ _ => False) (s.manager.Short fuel) := by
  apply ensures_requestState here (fun invalid => absurd valid invalid)
  intro _
  have placed : (placeForState fuel w { state := some value }).Ensures s _ _ _ :=
    ensures_placeForState sound here id
  rw [placeForState, ensures_bind, ensures_managing, ensures_infoFor_here here, ensures_bind,
    ensures_state] at placed
  change Prog.Ensures (modifyWindow fuel w
    (s.manager.placeAndSizeForState { state := some value } w info)) s _ _ _ at placed
  rw [placeAndSizeForState_state] at placed
  rw [handleModifyWindow, ensures_bind, ensures_state]
  change Prog.Ensures (if (s.policyData w).inHiddenWorkspace then _ else _) s _ _ _
  rw [if_neg (by simp [unflagged])]
  exact placed

/-- Showing a window that stands hidden at `rect`. -/
theorem ensures_show {m : Model} (live : m.Live w) (sound : s.Sound)
    (standing : Standing m w rect info s.manager) (flagged : (s.policyData w).inHiddenWorkspace)
    (hidden : info.state = .hidden) :
    (applyWorkspaceVisibleTo fuel w).Ensures s (fun _ u => ∃ t,
        u = (s.setPolicyData w { s.policyData w with inHiddenWorkspace := false }).setManager t ∧
        t.Furnished s.IsDecoration ∧
        Standing m w (m.shownAs w info rect (s.policyData w).oldState).2.1
          { info with
            state := (s.policyData w).oldState
            restoreRect := (m.shownAs w info rect (s.policyData w).oldState).2.2 } t)
      (fun _ _ => False) (s.manager.Short fuel) := by
  refine (ensures_applyWorkspaceVisibleTo sound standing.record flagged).imp ?_
  intro _ _ after
  rcases after with ⟨t, rfl, placed⟩
  refine ⟨t, rfl, placed.furnished, ?_⟩
  have shown := standing.trans placed.standing
  revert shown
  generalize (s.policyData w).oldState = state
  intro shown
  by_cases stays : state = .hidden
  · subst stays
    rw [stateRect, if_pos hidden, standing.rect] at shown
    rw [shownAs, if_pos rfl]
    simpa [cachedInfo, hidden] using shown
  · have differs : info.state ≠ state := fun eq => stays (eq.symm.trans hidden)
    rw [standing.stateRect live differs rfl, cachedInfo_hidden hidden stays, standing.rect,
      WindowInfo.currentRestoreRect, hidden] at shown
    rw [shownAs, if_neg stays]
    exact shown

/-- The request comes first: a place for the state asked for is all that is left of it. -/
theorem ensures_requestThenShow (sound : s.Sound) (here : s.manager.info? w = some info)
    (flagged : (s.policyData w).inHiddenWorkspace) (hidden : info.state = .hidden) :
    (requestThenShow fuel w value).Ensures s (fun _ u =>
        (s.manager.validateModificationRequest { state := some value } info = .ok () →
          u.appearance w = some (s.manager.shownAs w info
            (s.manager.rectAt w info (s.manager.rect w) (s.manager.rect w) value) value)) ∧
        (s.manager.validateModificationRequest { state := some value } info ≠ .ok () →
          u.appearance w = some (s.manager.shownAs w info (s.manager.rect w)
            (s.policyData w).oldState)))
      (fun _ _ => False) (s.manager.Short fuel) := by
  have integrity := sound.furnished.coherent.integrity
  have live := integrity.live_of_info here
  rw [requestThenShow]
  by_cases valid : s.manager.validateModificationRequest { state := some value } info = .ok ()
  · apply (ensures_requestState_flagged sound here flagged hidden valid).bind
    intro _ _ after
    rcases after with ⟨t, rfl, furnished, standing⟩
    have sound' : ((s.setPolicyData w { s.policyData w with oldState := value }).setManager
      t).Sound := ⟨sound.titled, furnished⟩
    have data : ((s.setPolicyData w { s.policyData w with oldState := value }).setManager
        t).policyData w = { s.policyData w with oldState := value } := by
      simp [Shell.setPolicyData, Shell.setManager]
    refine (ensures_show live sound' standing (by rwa [data]) hidden).mono ?_ (fun _ _ h => h)
      (Short.congr standing.parents)
    intro _ _ after
    rcases after with ⟨u, rfl, -, shown⟩
    rw [data] at shown
    refine ⟨fun _ => ?_, fun invalid => absurd valid invalid⟩
    rw [shownAs_eq]
    exact shown.appearance _
  · have answered : (requestState fuel w value).Ensures s (fun _ u => u = s) (fun _ _ => False)
        (s.manager.Short fuel) :=
      ensures_requestState here (fun _ => rfl) fun ok => absurd ok valid
    apply answered.bind
    rintro _ _ rfl
    refine (ensures_show live sound (.refl integrity here) flagged hidden).imp ?_
    intro _ _ after
    rcases after with ⟨u, rfl, -, shown⟩
    constructor
    · intro ok
      exact absurd ok valid
    intro _
    rw [shownAs_eq]
    exact shown.appearance _

/-- The workspace is shown first: the window goes to where the state asked for puts it from
where it has been shown. -/
theorem ensures_showThenRequest (sound : s.Sound) (here : s.manager.info? w = some info)
    (flagged : (s.policyData w).inHiddenWorkspace) (hidden : info.state = .hidden) :
    (showThenRequest fuel w value).Ensures s (fun _ u =>
        (s.manager.validateModificationRequest { state := some value } info = .ok () ∧
            value ≠ (s.policyData w).oldState →
          u.appearance w = some (value, s.manager.rectAt w info
            (s.manager.rectAt w info (s.manager.rect w) (s.manager.rect w)
              (s.policyData w).oldState) (s.manager.rect w) value, s.manager.rect w)) ∧
        (¬(s.manager.validateModificationRequest { state := some value } info = .ok () ∧
            value ≠ (s.policyData w).oldState) →
          u.appearance w = some (s.manager.shownAs w info (s.manager.rect w)
            (s.policyData w).oldState)))
      (fun _ _ => False) (s.manager.Short fuel) := by
  have integrity := sound.furnished.coherent.integrity
  have live := integrity.live_of_info here
  rw [showThenRequest]
  apply (ensures_show live sound (.refl integrity here) flagged hidden).bind
  intro _ _ after
  rcases after with ⟨t, rfl, furnished, shown⟩
  have data : (((s.setPolicyData w { s.policyData w with
      inHiddenWorkspace := false }).setManager t).policyData w).inHiddenWorkspace = false := by
    simp [Shell.setPolicyData, Shell.setManager]
  have sound' : ((s.setPolicyData w { s.policyData w with
    inHiddenWorkspace := false }).setManager t).Sound := ⟨sound.titled, furnished⟩
  revert data sound'
  generalize (s.policyData w).oldState = state at shown ⊢
  generalize s.setPolicyData w { s.policyData w with inHiddenWorkspace := false } = s₁
  intro data sound'
  have back := s.manager.currentRestoreRect_shown w info (s.manager.rect w) state
  rw [← shownAs_rect] at back
  obtain ⟨current, eq⟩ : ∃ current : WindowInfo, { info with
      state := state
      restoreRect := (s.manager.shownAs w info (s.manager.rect w) state).2.2 } = current :=
    ⟨_, rfl⟩
  have now : some (current.state, (s.manager.shownAs w info (s.manager.rect w) state).2.1,
      current.restoreRect) = some (s.manager.shownAs w info (s.manager.rect w) state) := by
    rw [← eq, ← shownAs_eq]
  have kept : current.type = info.type ∧ current.parent = info.parent ∧
      current.outputId = info.outputId ∧ current.state = state := by
    rw [← eq]
    exact ⟨rfl, rfl, rfl, rfl⟩
  rw [eq] at shown back
  have same : t.validateModificationRequest { state := some value } current =
    s.manager.validateModificationRequest { state := some value } info :=
    shown.validate integrity here kept.1 kept.2.1
  have shorter (short : t.Short fuel) : s.manager.Short fuel := short.congr shown.parents
  by_cases valid : s.manager.validateModificationRequest { state := some value } info = .ok ()
  · refine (ensures_requestState_shown sound' shown.record data (same.trans valid)).mono ?_
      (fun _ _ h => h) shorter
    intro _ _ after
    rcases after with ⟨u, rfl, placed⟩
    have asked := (shown.trans placed.standing).appearance s₁
    change ((s₁.setManager t).setManager u).appearance w = some (value, t.stateRect w current value,
      (t.cachedInfo w current (some value)).restoreRect) at asked
    by_cases stays : value = state
    · constructor
      · intro changes
        exact absurd stays changes.2
      intro _
      have there : current.state = value := kept.2.2.2.trans stays.symm
      have cached : t.cachedInfo w current (some value) = current := by simp [cachedInfo, there]
      rw [asked, ← now, stateRect, if_pos there, shown.rect, cached, there]
    · refine ⟨fun _ => ?_, fun unchanged => absurd ⟨valid, stays⟩ unchanged⟩
      have differs : current.state ≠ value := fun eq => stays (eq.symm.trans kept.2.2.2)
      rw [asked, shown.stateRect live differs kept.2.2.1, cachedInfo, if_pos differs, shown.rect,
        back, shownAs_rect]
  · refine ensures_requestState shown.record (fun _ => ?_) fun ok => absurd (same.symm.trans ok) valid
    constructor
    · intro ok
      exact absurd ok.1 valid
    intro _
    exact (shown.appearance s₁).trans now

end TitlebarPolicy

/-- Where nothing is lost by moving the window before its workspace is shown. A request for
`hidden` moves nothing, but then the window is no longer where it would have been shown. -/
def Shell.Postpones (s : Shell) (w : Window) (info : WindowInfo) (value : WindowState) : Prop :=
  let rect := s.manager.rect w
  let previous := (s.policyData w).oldState
  let shown := s.manager.rectAt w info rect rect previous
  s.manager.validateModificationRequest { state := some value } info ≠ .ok () ∨
    if value = .hidden then previous = .hidden ∨ shown = rect ∧ info.restoreRect = rect
    else s.manager.rectAt w info rect rect value = rect ∧
      (value = previous ∨ s.manager.rectAt w info shown rect value = rect)

/-- The two orders end alike: on one side the place that the request left, on the other what the
request makes of the place the window was shown at. -/
theorem Model.shownAs_iff {s : Model} {w : Window} {info : WindowInfo} {rect : Rectangle}
    {value previous : WindowState} :
    (s.shownAs w info (s.rectAt w info rect rect value) value = if value = previous
      then s.shownAs w info rect previous
      else (value, s.rectAt w info (s.rectAt w info rect rect previous) rect value, rect)) ↔
    if value = .hidden
    then previous = .hidden ∨ s.rectAt w info rect rect previous = rect ∧ info.restoreRect = rect
    else s.rectAt w info rect rect value = rect ∧
      (value = previous ∨ s.rectAt w info (s.rectAt w info rect rect previous) rect value = rect) := by
  have unmoved (rect restoreRect : Rectangle) : s.rectAt w info rect restoreRect .hidden = rect := rfl
  by_cases conceals : value = .hidden
  · subst conceals
    by_cases same : previous = .hidden
    · subst same
      simp [unmoved]
    · have other : WindowState.hidden ≠ previous := fun eq => same eq.symm
      simp only [shownAs, unmoved, if_pos, if_neg other, same, false_or, Prod.mk.injEq, true_and]
      exact and_congr eq_comm Iff.rfl
  · rw [if_neg conceals, shownAs, if_neg conceals]
    by_cases same : value = previous
    · subst same
      rw [if_pos rfl, shownAs, if_neg conceals]
      simp only [Prod.mk.injEq, true_and, true_or, and_true]
      exact ⟨And.right, fun back => ⟨by rw [back, back], back⟩⟩
    · rw [if_neg same]
      simp only [Prod.mk.injEq, true_and, same, false_or]
      constructor
      · rintro ⟨alike, back⟩
        exact ⟨back, by rw [← alike, back, back]⟩
      · rintro ⟨back, there⟩
        exact ⟨by rw [back, back, there], back⟩

/-- A request for a state that is made while the window is in a hidden workspace is only
postponed if and only if it has no place to go to, neither by the state asked for nor by the one
it is shown in. -/
theorem state_requests_postponed {s : Shell} {w : Window} {info : WindowInfo} (sound : s.Sound)
    (here : s.manager.info? w = some info) (flagged : (s.policyData w).inHiddenWorkspace)
    (hidden : info.state = .hidden) (value : WindowState) :
    (∀ fuel t u, TitlebarPolicy.requestThenShow fuel w value s = .returned () t →
      TitlebarPolicy.showThenRequest fuel w value s = .returned () u →
      (t.appearance w = u.appearance w ↔ s.Postpones w info value)) ∧
    (∀ fuel failure t, TitlebarPolicy.requestThenShow fuel w value s ≠ .thrown failure t ∧
      TitlebarPolicy.showThenRequest fuel w value s ≠ .thrown failure t) ∧
    (s.manager.Acyclic → ∃ n, ∀ fuel ≥ n,
      (∃ t, TitlebarPolicy.requestThenShow fuel w value s = .returned () t) ∧
      ∃ t, TitlebarPolicy.showThenRequest fuel w value s = .returned () t) := by
  have first (fuel : Nat) :
      (TitlebarPolicy.requestThenShow fuel w value).Ensures s _ _ (s.manager.Short fuel) :=
    TitlebarPolicy.ensures_requestThenShow sound here flagged hidden
  have second (fuel : Nat) :
      (TitlebarPolicy.showThenRequest fuel w value).Ensures s _ _ (s.manager.Short fuel) :=
    TitlebarPolicy.ensures_showThenRequest sound here flagged hidden
  refine ⟨fun fuel t u early late => ?_, fun fuel failure t => ⟨fun thrown => ?_, fun thrown => ?_⟩,
    fun acyclic => ?_⟩
  · obtain ⟨moved, refused⟩ := (first fuel).returned early
    obtain ⟨asked, kept⟩ := (second fuel).returned late
    unfold Shell.Postpones
    by_cases valid : s.manager.validateModificationRequest { state := some value } info = .ok ()
    · simp only [valid, ne_eq, not_true_eq_false, false_or]
      rw [moved valid, ← shownAs_iff]
      by_cases same : value = (s.policyData w).oldState
      · rw [kept fun changes => changes.2 same, if_pos same, Option.some.injEq]
      · rw [asked ⟨valid, same⟩, if_neg same, Option.some.injEq]
    · rw [refused valid, kept fun changes => valid changes.1]
      exact iff_of_true rfl (.inl valid)
  · exact (first fuel).thrown thrown
  · exact (second fuel).thrown thrown
  · obtain ⟨n, enough⟩ := acyclic.enough
    refine ⟨n, fun fuel le => ⟨?_, ?_⟩⟩
    · obtain ⟨_, t, run, -⟩ := (first fuel).returns (enough fuel le)
      exact ⟨t, run⟩
    · obtain ⟨_, t, run, -⟩ := (second fuel).returns (enough fuel le)
      exact ⟨t, run⟩

/-- The only window, in a workspace that has been left. -/
def Shell.awayState : Shell :=
  (TitlebarPolicy.switchWorkspaceTo 12 1 none (Shell.undecorated deskState)).returned?.get
    (by decide +kernel)

theorem partitioned_awayState : Shell.awayState.Sound ∧ Shell.awayState.Partitioned :=
  partitioned_returned sound_deskState partitioned_deskState ⟨.f2, rfl⟩ (.inl rfl)
    (by decide +kernel)

theorem info_awayState : ∃ info, Shell.awayState.manager.info? ⟨1, 1⟩ = some info ∧
    info.state = .hidden := by
  have state : Shell.awayState.manager.stateOf ⟨1, 1⟩ = some .hidden := by decide +kernel
  exact Option.map_eq_some_iff.mp state

/-- A window that was restored may be asked to be restored. -/
theorem state_requests_postponed_restored : ∃ n, ∀ fuel ≥ n, ∃ t u,
    TitlebarPolicy.requestThenShow fuel ⟨1, 1⟩ .restored Shell.awayState = .returned () t ∧
    TitlebarPolicy.showThenRequest fuel ⟨1, 1⟩ .restored Shell.awayState = .returned () u ∧
    t.appearance ⟨1, 1⟩ = u.appearance ⟨1, 1⟩ := by
  obtain ⟨info, here, hidden⟩ := info_awayState
  obtain ⟨sound, parted⟩ := partitioned_awayState
  have previous : (Shell.awayState.policyData ⟨1, 1⟩).oldState = .restored := by decide +kernel
  have flagged : (Shell.awayState.policyData ⟨1, 1⟩).inHiddenWorkspace := by decide +kernel
  revert here sound parted previous flagged
  generalize Shell.awayState = s
  intro here sound parted previous flagged
  obtain ⟨agree, -, returns⟩ := state_requests_postponed sound here flagged hidden .restored
  obtain ⟨n, enough⟩ := returns parted.acyclic
  refine ⟨n, fun fuel le => ?_⟩
  obtain ⟨⟨t, early⟩, u, late⟩ := enough fuel le
  exact ⟨t, u, early, late, (agree fuel t u early late).mpr (.inr ⟨rfl, .inl previous.symm⟩)⟩

/-- A window that is asked to be maximized forgets where it was. -/
theorem state_requests_postponed_fails :
    ¬∀ (s : Shell) w info value, s.Sound → s.manager.info? w = some info →
      (s.policyData w).inHiddenWorkspace → info.state = .hidden → ∀ fuel t u,
      TitlebarPolicy.requestThenShow fuel w value s = .returned () t →
      TitlebarPolicy.showThenRequest fuel w value s = .returned () u →
      t.appearance w = u.appearance w := by
  intro claim
  obtain ⟨info, here, hidden⟩ := info_awayState
  have first : (TitlebarPolicy.requestThenShow 12 ⟨1, 1⟩ .maximized
      Shell.awayState).returned?.map (·.appearance ⟨1, 1⟩) =
        some (some (.maximized, ⟨⟨0, 0⟩, ⟨640, 480⟩⟩, ⟨⟨0, 0⟩, ⟨640, 480⟩⟩)) := by decide +kernel
  have second : (TitlebarPolicy.showThenRequest 12 ⟨1, 1⟩ .maximized
      Shell.awayState).returned?.map (·.appearance ⟨1, 1⟩) =
        some (some (.maximized, ⟨⟨0, 0⟩, ⟨640, 480⟩⟩, ⟨⟨270, 134⟩, ⟨100, 80⟩⟩)) := by decide +kernel
  obtain ⟨t, early, looks⟩ := Option.map_eq_some_iff.mp first
  obtain ⟨u, late, looks'⟩ := Option.map_eq_some_iff.mp second
  obtain ⟨_, early⟩ := Outcome.returned?_eq_some.mp early
  obtain ⟨_, late⟩ := Outcome.returned?_eq_some.mp late
  have same := claim Shell.awayState ⟨1, 1⟩ info .maximized partitioned_awayState.1 here
    (by decide +kernel)
    hidden 12 t u early late
  rw [looks, looks'] at same
  exact absurd same (by decide)

end Miral
