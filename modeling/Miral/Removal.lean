import Miral.Search

/-! What `remove_window` leaves before the focus moves: every structure lets go of the
window, its parent of a child and its children of a parent. -/
namespace Miral

open Program Prog Forest

namespace Model

/-- A record after the window `w` is gone. -/
def bereft (w : Window) (info : WindowInfo) : WindowInfo :=
  { info with
    parent := if info.parent = some w then none else info.parent
    children := info.children.erase w }

/-- `t` is `s` without the window `w`. -/
structure Dropped (w : Window) (s t : Model) : Prop where
  info : ∀ v, t.info? v = if v = w then none else (s.info? v).map (bereft w)
  surface : ∀ v, t.surface? v = if v = w then none else s.surface? v
  windows : ∀ a, t.windowsOf a = if a = w.application then (s.windowsOf a).erase w
    else s.windowsOf a
  mru : t.mruActiveWindows = s.mruActiveWindows.filter (· ≠ w)
  fullscreen : t.fullscreenSurfaces = s.fullscreenSurfaces.filter (· ≠ w)
  workspaces : t.workspacesToWindows = s.workspacesToWindows.filter (·.2 ≠ w)
  living : t.liveWorkspaces = s.liveWorkspaces
  dead : t.deadWorkspaces = s.deadWorkspaces
  focus : t.focus = s.focus
  log : ∃ events, (∀ event ∈ events, event.quiet) ∧
    t.log = s.log ++ events ++ [.adviseDeleteWindow w]

namespace Dropped

variable {s t : Model} {w v : Window} (h : Dropped w s t)

include h

theorem managed : t.Managed v ↔ v ≠ w ∧ s.Managed v := by
  by_cases eq : v = w <;> simp [Managed, h.info, eq]

theorem live : t.Live v ↔ v ≠ w ∧ s.Live v := by
  by_cases eq : v = w <;> simp [Live, h.surface, eq]

theorem parentOf :
    t.parentOf v = if v = w ∨ s.parentOf v = some w then none else s.parentOf v := by
  by_cases eq : v = w
  · simp [Model.parentOf, h.info, eq]
  · cases here : s.info? v with
    | none => simp [Model.parentOf, h.info, eq, here]
    | some info => simp [Model.parentOf, h.info, eq, here, bereft]

theorem childrenOf : t.childrenOf v = if v = w then [] else (s.childrenOf v).erase w := by
  by_cases eq : v = w
  · simp [Model.childrenOf, h.info, eq]
  · cases here : s.info? v <;> simp [Model.childrenOf, h.info, eq, here, bereft]

theorem stateOf : t.stateOf v = if v = w then none else s.stateOf v := by
  by_cases eq : v = w
  · simp [Model.stateOf, h.info, eq]
  · cases here : s.info? v <;> simp [Model.stateOf, h.info, eq, here, bereft]

theorem visible : t.visible v = (s.visible v && v ≠ w) := by
  by_cases eq : v = w <;> simp [Model.visible, h.surface, eq]

theorem workspacesContaining (ne : v ≠ w) :
    t.workspacesContaining v = s.workspacesContaining v := by
  rw [Model.workspacesContaining, Model.workspacesContaining, h.workspaces, h.living,
    List.filter_filter]
  congr 1
  apply List.filter_congr
  intro pair _
  by_cases eq : pair.2 = v
  · simp [eq, ne]
  · simp [eq]

theorem fewer : t.parentOf v = s.parentOf v ∨ t.parentOf v = none := by
  rw [h.parentOf]
  split
  · exact .inr rfl
  · exact .inl rfl

theorem synced (synced : s.Synced) : t.Synced := by
  intro v surface drawn
  rw [h.surface] at drawn
  split at drawn
  · contradiction
  · rename_i other
    rw [h.stateOf, if_neg other]
    exact synced v surface drawn

theorem integrity (integrity : s.Integrity) : t.Integrity where
  live v := by rw [h.live, h.managed, integrity.live]
  children p c := by
    have count := integrity.children p c
    rw [h.childrenOf, h.parentOf]
    by_cases parent : p = w
    · subst parent
      by_cases child : c = p ∨ s.parentOf c = some p
      · simp [child]
      · simp only [not_or] at child
        simp [child]
    · by_cases child : c = w
      · subst child
        simp only [parent, ↓reduceIte, true_or, reduceCtorEq]
        rw [List.count_erase_self, count]
        split <;> rfl
      · rw [if_neg parent, List.count_erase_of_ne child, count]
        by_cases link : s.parentOf c = some w
        · simp [link, child, Ne.symm parent]
        · simp [link, child]
  windows a v := by
    rw [h.windows]
    have count := integrity.windows a v
    by_cases own : v = w
    · subst own
      by_cases app : a = v.application
      · subst app
        have gone : ¬t.Managed v := fun managed => (h.managed.mp managed).1 rfl
        rw [if_pos rfl, List.count_erase_self, count]
        by_cases managed : s.Managed v <;> simp [gone, managed]
      · rw [if_neg app, count]
        simp [Ne.symm app]
    · have same : (t.Managed v ∧ v.application = a) ↔ s.Managed v ∧ v.application = a := by
        rw [h.managed, and_assoc]
        exact and_iff_right own
      simp only [same]
      split
      · rw [List.count_erase_of_ne own, count]
      · exact count
  mru v member := by
    rw [h.mru, List.mem_filter] at member
    exact h.managed.mpr ⟨by simpa using member.2, integrity.mru v member.1⟩
  fullscreen v := by
    rw [h.fullscreen, h.stateOf]
    by_cases eq : v = w
    · simp [eq]
    · simpa [eq] using integrity.fullscreen v
  workspaces pair member := by
    rw [h.workspaces, List.mem_filter] at member
    exact h.managed.mpr ⟨by simpa using member.2, integrity.workspaces pair member.1⟩
  retired := by
    rw [h.dead, h.living]
    exact integrity.retired

end Dropped

end Model

open Model

variable {s : Model} {w : Window} {info : WindowInfo}

private theorem ensures_free {short : Prop} (children : List Window)
    (managed : ∀ c ∈ children, s.Managed c) :
    (forEach (fun child => modifyInfo child ({ · with parent := none })) children).Ensures s
      (fun _ t => t = { s with windowInfo := t.windowInfo } ∧ ∀ v, t.info? v =
        if v ∈ children then (s.info? v).map ({ · with parent := none }) else s.info? v)
      (fun _ _ => False) short := by
  induction children generalizing s with
  | nil => exact ⟨rfl, fun v => by simp⟩
  | cons child rest ih =>
    obtain ⟨info, here⟩ := managed_iff.mp (managed child (by simp))
    rw [forEach, ensures_bind, ensures_modifyInfo_here here]
    refine (ih fun c member => ?_).imp ?_
    · rw [managed_setInfo]
      exact .inr (managed c (by simp [member]))
    · intro _ t after
      rcases after with ⟨frame, infos⟩
      refine ⟨frame, fun v => ?_⟩
      rw [infos, info?_setInfo]
      by_cases eq : v = child
      · subst eq
        by_cases again : v ∈ rest <;> simp [again, here]
      · simp [eq]

/-- `erase` takes a record out of the tree it was part of. -/
private theorem ensures_eraseRecord {base : Model} (integrity : base.Integrity)
    (record : base.info? w = some info) (infos : ∀ v, s.info? v = base.info? v)
    (lives : ∀ v, s.Live v ↔ v ≠ w ∧ base.Live v) {short : Prop} :
    (eraseRecord w).Ensures s (fun _ t => t = { s with windowInfo := t.windowInfo } ∧
        ∀ v, t.info? v = if v = w then none else (s.info? v).map (bereft w))
      (fun _ _ => False) short := by
  have here : s.info? w = some info := (infos w).trans record
  have rest (t : Model) (frame : t = { s with windowInfo := t.windowInfo })
      (removed : ∀ v, t.info? v = if info.parent = some v ∧ v ≠ w then
        (s.info? v).map (·.removeChild w) else s.info? v) :
      Ensures (do
        let info ← infoFor w
        forEach (fun child => modifyInfo child ({ · with parent := none })) info.children
        update (·.eraseInfo w)) t (fun _ t => t = { s with windowInfo := t.windowInfo } ∧
          ∀ v, t.info? v = if v = w then none else (s.info? v).map (bereft w))
        (fun _ _ => False) short := by
    have own : t.info? w = some info := by simp [removed, here]
    rw [ensures_bind, ensures_infoFor_here own]
    refine (ensures_free info.children fun c member => ?_).bind ?_
    · obtain ⟨childInfo, there⟩ := managed_iff.mp (integrity.managed_child record member)
      rw [← infos] at there
      by_cases apart : info.parent = some c ∧ c ≠ w <;> simp [Managed, removed, apart, there]
    · intro _ u after
      rcases after with ⟨frame', freed⟩
      refine ⟨by rw [frame', frame]; rfl, fun v => ?_⟩
      by_cases eq : v = w
      · subst eq
        simp [info?, eraseInfo]
      · have same : (u.eraseInfo w).info? v = u.info? v := by
          simp [info?, eraseInfo, AList.lookup_erase_ne eq]
        rw [same, freed, removed, if_neg eq]
        cases there : s.info? v with
        | none => simp
        | some vInfo =>
          have baseThere : base.info? v = some vInfo := (infos v).symm.trans there
          have child : v ∈ info.children ↔ vInfo.parent = some w := by
            rw [integrity.mem_children record, parentOf_eq baseThere]
          have known : w ∈ vInfo.children ↔ info.parent = some v := by
            rw [integrity.mem_children baseThere, parentOf_eq record]
          have kept (up : ¬info.parent = some v) : vInfo.children.erase w = vInfo.children :=
            List.erase_of_not_mem (mt known.mp up)
          by_cases down : vInfo.parent = some w <;> by_cases up : info.parent = some v
          · simp [child, down, up, eq, bereft, WindowInfo.removeChild]
          · simp [child, down, up, bereft, kept]
          · simp [child, down, up, eq, bereft, WindowInfo.removeChild]
          · simp [child, down, up, bereft, kept]
  rw [eraseRecord, ensures_bind, ensures_infoFor_here here]
  rw [ensures_bind, ensures_state, ensures_bind, ensures_whenSome]
  constructor
  · intro p locked
    obtain ⟨link, live⟩ := lock_eq_some.mp locked
    obtain ⟨apart, known⟩ := (lives p).mp live
    obtain ⟨parentInfo, there⟩ := integrity.info_of_live known
    rw [← infos] at there
    rw [ensures_modifyInfo_here there]
    apply rest _ rfl
    intro v
    by_cases eq : v = p
    · subst eq
      simp [link, apart, there]
    · simp [eq, link, Ne.symm eq]
  · intro unlocked
    apply rest s rfl
    intro v
    rw [if_neg]
    rintro ⟨link, apart⟩
    have live := (lives v).mpr ⟨apart, integrity.live_parent ((parentOf_eq record).trans link)⟩
    rw [link, lock_some live] at unlocked
    contradiction

/-- The state when `remove_window` comes to `erase`. -/
private def withdrawn (s : Model) (w : Window) (events : List Event) (app : ApplicationInfo) :
    Model :=
  { s with
    appInfo := s.appInfo.insert w.application ⟨app.windows.erase w⟩
    scene := s.scene.erase w
    mruActiveWindows := s.mruActiveWindows.filter (· ≠ w)
    fullscreenSurfaces := s.fullscreenSurfaces.filter (· ≠ w)
    workspacesToWindows := s.workspacesToWindows.filter (·.2 ≠ w)
    log := s.log ++ events ++ [.adviseDeleteWindow w] }

private theorem surface?_withdrawn {events : List Event} {app : ApplicationInfo} (v : Window) :
    (withdrawn s w events app).surface? v = if v = w then none else s.surface? v := by
  by_cases eq : v = w
  · subst eq
    simp [surface?, withdrawn]
  · simp [surface?, withdrawn, AList.lookup_erase_ne eq, eq]

/-- `remove_window` up to the refocusing. -/
theorem ensures_dropWindow (integrity : s.Integrity) (here : s.info? w = some info)
    {short : Prop} :
    (dropWindow w.application w).Ensures s (fun _ t => Dropped w s t) (fun _ _ => False)
      short := by
  have told : (forEach (fun workspace => emit (.adviseRemovingFromWorkspace workspace [w]))
      (s.workspacesContaining w)).Ensures s
      (fun _ t => ∃ events, (∀ event ∈ events, event.quiet) ∧ t = s.emits events)
      (fun _ _ => False) short := by
    refine ensures_forEach (fun t => ∃ events, (∀ event ∈ events, event.quiet) ∧
      t = s.emits events) _ _ ?_ ⟨[], by simp, ?_⟩
    rotate_left
    · simp [emits]
    rintro workspace _ t ⟨events, quiet, rfl⟩
    refine ⟨events ++ [.adviseRemovingFromWorkspace workspace [w]], ?_, ?_⟩
    · intro event member
      rcases List.mem_append.mp member with old | new
      · exact quiet event old
      · rw [List.mem_singleton.mp new]
        rfl
    · simp [emits, Model.emit]
  rw [dropWindow, ensures_bind, ensures_state]
  apply told.bind
  intro _ t after
  rcases after with ⟨events, quiet, rfl⟩
  obtain ⟨app, found⟩ := integrity.app_exists (managed_iff.mpr ⟨info, here⟩)
  simp only [ensures_bind, ensures_update, ensures_emit]
  have kept : (((s.emits events).eraseFromWorkspaces w).emit (.adviseDeleteWindow w)).app?
    w.application = some app := found
  rw [ensures_modifySession_here kept]
  have listed : s.windowsOf w.application = app.windows := windowsOf_eq found
  simp only [emits, eraseFromWorkspaces, Model.emit, setApp, eraseMru, eraseFullscreen,
    destroySurface]
  change (eraseRecord w).Ensures (withdrawn s w events app) _ _ _
  refine Ensures.mono (ensures_eraseRecord integrity here ?_ fun v => ?_) ?_ (fun _ _ h => h) id
  · exact fun _ => rfl
  · by_cases eq : v = w <;> simp [Live, surface?_withdrawn, eq]
  · intro _ t after
    rcases after with ⟨frame, infos⟩
    exact
      { info := infos
        surface := fun v => by
          have same : t.surface? v = (withdrawn s w events app).surface? v := by
            rw [frame]
            rfl
          rw [same, surface?_withdrawn]
        windows := fun a => by
          have lists : t.windowsOf a =
              (s.setApp w.application ⟨app.windows.erase w⟩).windowsOf a := by
            rw [frame]
            rfl
          rw [lists, windowsOf_setApp]
          by_cases eq : a = w.application
          · subst eq
            rw [if_pos rfl, if_pos rfl, listed]
          · rw [if_neg eq, if_neg eq]
        mru := by rw [frame]; rfl
        fullscreen := by rw [frame]; rfl
        workspaces := by rw [frame]; rfl
        living := by rw [frame]; rfl
        dead := by rw [frame]; rfl
        focus := by rw [frame]; rfl
        log := ⟨events, quiet, by rw [frame]; rfl⟩ }

end Miral
