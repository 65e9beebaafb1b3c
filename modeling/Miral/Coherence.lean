import Miral.Reachability

/-! What surfaces, records and the MRU list agree on in every reachable state, and one rule
for what operations do to the focus: what changes nothing about it is dealt with once, and
requests, removals and null selections are left to the property in question. -/
namespace Miral

open Program Prog Forest

namespace Model

variable {s t u : Model} {w v x : Window} {info tmp : WindowInfo}

/-- Surfaces have the state of their record, none is hidden but for its state, and those in
the MRU list have been posted to. -/
structure Coherent (s : Model) : Prop where
  integrity : s.Integrity
  synced : s.Synced
  hides : ∀ w surface, s.surface? w = some surface → surface.hidden → surface.state.concealed
  posted : ∀ w ∈ s.mruActiveWindows, ∀ surface, s.surface? w = some surface → surface.posted

/-- `t` differs from `s` in nothing that matters to the focus; surfaces may be new. -/
structure Still (s t : Model) : Prop where
  integrity : t.Integrity
  mru : t.mruActiveWindows = s.mruActiveWindows
  sight : ∀ v, s.Live v → (t.surface? v).map Surface.sight = (s.surface? v).map Surface.sight
  states : ∀ v, s.Live v → t.stateOf v = s.stateOf v
  types : ∀ v, s.Live v → t.typeOf v = s.typeOf v
  fresh : ∀ v surface, ¬s.Live v → t.surface? v = some surface →
    t.stateOf v = some surface.state ∧ surface.hidden = false
  quiet : ∃ events, (∀ event ∈ events, event.quiet) ∧ t.log = s.log ++ events

theorem visible_of_sight
    (same : (t.surface? v).map Surface.sight = (s.surface? v).map Surface.sight) :
    t.visible v = s.visible v := by
  unfold Model.visible
  cases here : s.surface? v <;> cases there : t.surface? v <;>
    simp_all [Surface.sight, Surface.visible]

theorem of_sight {surface : Surface}
    (same : (t.surface? v).map Surface.sight = (s.surface? v).map Surface.sight)
    (drawn : t.surface? v = some surface) : ∃ before, s.surface? v = some before ∧
      surface.state = before.state ∧ surface.hidden = before.hidden ∧
      surface.posted = before.posted := by
  rw [drawn] at same
  obtain ⟨before, there, eq⟩ := Option.map_eq_some_iff.mp same.symm
  simp only [Surface.sight, Prod.mk.injEq] at eq
  exact ⟨before, there, eq.1.symm, eq.2.1.symm, eq.2.2.symm⟩

theorem of_configure {f : Surface → Surface} {surface : Surface}
    (drawn : (s.configure w f).surface? v = some surface) :
    ∃ before, s.surface? v = some before ∧ surface = if v = w then f before else before := by
  rw [surface?_configure] at drawn
  split at drawn
  · rename_i eq
    obtain ⟨before, there, same⟩ := Option.map_eq_some_iff.mp drawn
    exact ⟨before, there, by rw [if_pos eq, same]⟩
  · rename_i ne
    exact ⟨surface, drawn, by rw [if_neg ne]⟩

theorem of_drawn {value : WindowState} {hidden : Bool} {surface : Surface}
    (drawn : (s.drawn w value hidden).surface? v = some surface) :
    ∃ before, s.surface? v = some before ∧
      surface = if v = w then { before with state := value, hidden } else before := by
  obtain ⟨middle, first, rfl⟩ := of_configure drawn
  obtain ⟨before, there, rfl⟩ := of_configure first
  refine ⟨before, there, ?_⟩
  split <;> rfl

namespace Still

theorem of_same (integrity : t.Integrity) (infos : ∀ v, t.info? v = s.info? v)
    (surfaces : ∀ v, t.surface? v = s.surface? v)
    (mru : t.mruActiveWindows = s.mruActiveWindows)
    (quiet : ∃ events, (∀ event ∈ events, event.quiet) ∧ t.log = s.log ++ events) :
    Still s t where
  integrity := integrity
  mru := mru
  sight v _ := by rw [surfaces]
  states v _ := by rw [stateOf, infos, stateOf]
  types v _ := by rw [typeOf, infos, typeOf]
  fresh v surface dead drawn := by
    rw [surfaces] at drawn
    exact absurd (live_iff.mpr ⟨surface, drawn⟩) dead
  quiet := quiet

theorem of_undisturbed (undisturbed : Undisturbed s t) (integrity : t.Integrity)
    (types : ∀ v, t.typeOf v = s.typeOf v) : Still s t where
  integrity := integrity
  mru := undisturbed.mru
  sight _ _ := undisturbed.sight _
  states _ _ := undisturbed.states _
  types _ _ := types _
  fresh _ surface dead drawn :=
    absurd (undisturbed.live.mp (live_iff.mpr ⟨surface, drawn⟩)) dead
  quiet := undisturbed.quiet

theorem of_retouched (touched : Retouched s t) (integrity : s.Integrity) : Still s t :=
  .of_undisturbed touched.undisturbed (touched.integrity integrity) touched.types

theorem of_added {parent : Option Window} (integrity : s.Integrity) (fresh : ¬s.Managed w)
    (added : Added w parent s t) : Still s t where
  integrity := added.integrity integrity fresh
  mru := added.mru
  sight v live := added.sight v fun eq => fresh ((integrity.live w).mp (eq ▸ live))
  states v live := added.states v fun eq => fresh ((integrity.live w).mp (eq ▸ live))
  types v live := added.types v fun eq => fresh ((integrity.live w).mp (eq ▸ live))
  fresh v surface dead drawn := by
    obtain rfl : v = w := by
      have live := (added.live v).mp (live_iff.mpr ⟨surface, drawn⟩)
      exact live.resolve_right dead
    obtain ⟨state, record, sight⟩ := added.unposted
    rw [drawn] at sight
    simp only [Option.map_some, Surface.sight, Option.some.injEq, Prod.mk.injEq] at sight
    exact ⟨by rw [record, sight.1], sight.2.1⟩
  quiet := added.quiet

variable (still : Still s t)

include still

theorem visible (live : s.Live v) : t.visible v = s.visible v :=
  visible_of_sight (still.sight v live)

theorem activeWindow (integrity : s.Integrity) : t.activeWindow = s.activeWindow :=
  activeWindow_congr still.mru fun _ member => still.visible (integrity.live_mru member)

theorem coherent (coherent : s.Coherent) : t.Coherent where
  integrity := still.integrity
  synced v surface drawn := by
    by_cases live : s.Live v
    · obtain ⟨before, there, state, -⟩ := of_sight (still.sight v live) drawn
      rw [still.states v live, coherent.synced v before there, state]
    · exact (still.fresh v surface live drawn).1
  hides v surface drawn hidden := by
    by_cases live : s.Live v
    · obtain ⟨before, there, state, concealment, -⟩ := of_sight (still.sight v live) drawn
      rw [state]
      exact coherent.hides v before there (concealment ▸ hidden)
    · have shown := (still.fresh v surface live drawn).2
      rw [shown] at hidden
      contradiction
  posted v member surface drawn := by
    rw [still.mru] at member
    have live := coherent.integrity.live_mru member
    obtain ⟨before, there, -, -, posted⟩ := of_sight (still.sight v live) drawn
    rw [posted]
    exact coherent.posted v member before there

end Still

namespace Coherent

theorem initial (focusController : FocusController) (displayLayout : DisplayLayout) :
    (Model.initial focusController displayLayout).Coherent where
  integrity := .initial focusController displayLayout
  synced v surface drawn := by contradiction
  hides v surface drawn := by contradiction
  posted v member := by simp [Model.initial] at member

variable (coherent : s.Coherent)

include coherent

theorem focusOn {raised : List Event} (focusable : s.Focusable x) :
    (s.focusOn x raised).Coherent where
  integrity := coherent.integrity.focusOn focusable.managed
  synced := coherent.synced
  hides := coherent.hides
  posted v member surface drawn := by
    rcases List.mem_append.mp member with kept | new
    · exact coherent.posted v (List.mem_of_mem_filter kept) surface drawn
    · obtain rfl := List.mem_singleton.mp new
      have seen := focusable.visible coherent.synced
      change s.surface? v = some surface at drawn
      simp only [Model.visible, drawn, Surface.visible, Bool.and_eq_true] at seen
      exact seen.2.1

theorem nextFocus : s.nextFocus.Coherent where
  integrity := coherent.integrity.sameStructure sameStructure_nextFocus coherent.integrity.mru
  synced := coherent.synced
  hides := coherent.hides
  posted := coherent.posted

theorem unfocus {hint : Option Window} : (s.unfocus hint).Coherent := by
  have integrity : (s.unfocus hint).Integrity := coherent.integrity.unfocus
  revert integrity
  unfold Model.unfocus
  split
  · exact fun integrity => ⟨integrity, coherent.synced, coherent.hides, coherent.posted⟩
  · exact fun _ => coherent

theorem undisturbed (undisturbed : Undisturbed s t) (integrity : t.Integrity) : t.Coherent where
  integrity := integrity
  synced v surface drawn := by
    obtain ⟨before, there, state, -⟩ := of_sight (undisturbed.sight v) drawn
    rw [undisturbed.states, coherent.synced v before there, state]
  hides v surface drawn hidden := by
    obtain ⟨before, there, state, concealment, -⟩ := of_sight (undisturbed.sight v) drawn
    rw [state]
    exact coherent.hides v before there (concealment ▸ hidden)
  posted v member surface drawn := by
    rw [undisturbed.mru] at member
    obtain ⟨before, there, -, -, posted⟩ := of_sight (undisturbed.sight v) drawn
    rw [posted]
    exact coherent.posted v member before there

theorem dropped (dropped : Dropped w s t) : t.Coherent where
  integrity := dropped.integrity coherent.integrity
  synced := dropped.synced coherent.synced
  hides v surface drawn hidden := by
    rw [dropped.surface] at drawn
    split at drawn
    · contradiction
    · exact coherent.hides v surface drawn hidden
  posted v member surface drawn := by
    rw [dropped.mru] at member
    rw [dropped.surface] at drawn
    split at drawn
    · contradiction
    · exact coherent.posted v (List.mem_of_mem_filter member) surface drawn

theorem visible_post (member : v ∈ s.mruActiveWindows) :
    (s.configure w ({ · with posted := true })).visible v = s.visible v := by
  by_cases eq : v = w
  · subst eq
    cases here : s.surface? v with
    | none => simp [Model.visible, here]
    | some surface =>
      have posted := coherent.posted v member surface here
      simp [Model.visible, Surface.visible, here, posted]
  · simp [Model.visible, eq]

theorem post : (s.configure w ({ · with posted := true })).Coherent where
  integrity := coherent.integrity.sameStructure (.configure _) (by
    simpa using coherent.integrity.mru)
  synced v surface drawn := by
    obtain ⟨before, there, rfl⟩ := of_configure drawn
    rw [(SameStructure.configure _).states v, coherent.synced v before there]
    split <;> rfl
  hides v surface drawn hidden := by
    obtain ⟨before, there, rfl⟩ := of_configure drawn
    by_cases eq : v = w
    · rw [if_pos eq] at hidden ⊢
      exact coherent.hides v before there hidden
    · rw [if_neg eq] at hidden ⊢
      exact coherent.hides v before there hidden
  posted v member surface drawn := by
    obtain ⟨before, there, rfl⟩ := of_configure drawn
    split
    · rfl
    · exact coherent.posted v (by simpa using member) before there

/-- After `set_state` has drawn a state, if the focus has at most moved to a visible window. -/
theorem drawn (here : s.info? w = some info) {value : WindowState} {hidden : Bool}
    (conceals : hidden → value.concealed)
    (infos : ∀ v, t.info? v = (s.entered w info value).info? v)
    (surfaces : ∀ v, t.surface? v = s.surface? v) (integrity : t.Integrity)
    (recent : ∀ v ∈ t.mruActiveWindows, v ∈ s.mruActiveWindows ∨ s.visible v) :
    (t.drawn w value hidden).Coherent where
  integrity := integrity.drawn
  synced v surface drawn := by
    obtain ⟨before, there, rfl⟩ := of_drawn drawn
    rw [surfaces] at there
    rw [sameStructure_drawn.states v, stateOf, infos, info?_entered]
    by_cases eq : v = w
    · simp [eq]
    · simpa [eq, stateOf] using coherent.synced v before there
  hides v surface drawn hides := by
    obtain ⟨before, there, rfl⟩ := of_drawn drawn
    rw [surfaces] at there
    by_cases eq : v = w
    · subst eq
      simp only [↓reduceIte] at hides ⊢
      exact conceals hides
    · simp only [eq, ↓reduceIte] at hides ⊢
      exact coherent.hides v before there hides
  posted v member surface drawn := by
    obtain ⟨before, there, rfl⟩ := of_drawn drawn
    rw [surfaces] at there
    have posted : before.posted := by
      rcases recent v (by simpa [Model.drawn] using member) with old | seen
      · exact coherent.posted v old before there
      · simp only [Model.visible, there, Surface.visible, Bool.and_eq_true] at seen
        exact seen.2.1
    split <;> exact posted

end Coherent

end Model

open Model

variable {s t : Model} {w : Window} {info : WindowInfo} {fuel : Nat}

/-- What hiding a window keeps while the focus moves off it. -/
structure Concealing (s : Model) (w : Window) (info : WindowInfo) (value : WindowState)
    (t : Model) : Prop where
  integrity : t.Integrity
  infos : ∀ v, t.info? v = (s.entered w info value).info? v
  surfaces : ∀ v, t.surface? v = s.surface? v
  recent : ∀ v ∈ t.mruActiveWindows, v ∈ s.mruActiveWindows ∨ s.visible v

theorem closed_concealing {value : WindowState} (coherent : s.Coherent)
    (concealed : value.concealed) : FocusClosed (Concealing s w info value) where
  integrity _ h := h.integrity
  selected t x raised h focusable _ := by
    refine ⟨h.integrity.focusOn focusable.managed, h.infos, h.surfaces, fun v member => ?_⟩
    rcases List.mem_append.mp member with kept | new
    · exact h.recent v (List.mem_of_mem_filter kept)
    · obtain rfl := List.mem_singleton.mp new
      obtain ⟨info', here, active, seen⟩ := focusable
      have entered : (s.entered w info value).Focusable v := by
        refine ⟨info', (h.infos v).symm.trans here, active, ?_⟩
        simpa [isVisible, h.surfaces] using seen
      exact .inr (visible_of_focusable_entered coherent.synced concealed entered).2
  next _ h := ⟨h.integrity.sameStructure sameStructure_nextFocus h.integrity.mru, h.infos,
    h.surfaces, h.recent⟩

theorem closed_coherent : FocusClosed Model.Coherent where
  integrity _ h := h.integrity
  selected _ _ _ h focusable _ := h.focusOn focusable
  next _ h := h.nextFocus

namespace Concealing

variable {value : WindowState}

theorem start (coherent : s.Coherent) (here : s.info? w = some info) :
    Concealing s w info value (s.entered w info value) :=
  ⟨coherent.integrity.entered here value, fun _ => rfl, fun _ => surface?_entered,
    fun v member => .inl (by simpa using member)⟩

theorem unfocus (h : Concealing s w info value t) :
    Concealing s w info value (t.unfocus none) := by
  have integrity : (t.unfocus none).Integrity := h.integrity.unfocus
  revert integrity
  unfold Model.unfocus
  split
  · exact fun integrity => ⟨integrity, h.infos, h.surfaces, h.recent⟩
  · exact fun _ => h

theorem hidden (h : Concealing s w info value t) (coherent : s.Coherent)
    (here : s.info? w = some info) (concealed : value.concealed) :
    (t.drawn w value true).Coherent :=
  coherent.drawn here (fun _ => concealed) h.infos h.surfaces h.integrity h.recent

end Concealing

theorem Model.Coherent.shown (coherent : s.Coherent) (here : s.info? w = some info)
    {value : WindowState} : ((s.entered w info value).drawn w value false).Coherent :=
  have start : Concealing s w info value (s.entered w info value) := .start coherent here
  coherent.drawn here (by simp) start.infos start.surfaces start.integrity start.recent

theorem Model.Coherent.setState (coherent : s.Coherent) (here : s.info? w = some info)
    (value : WindowState) :
    (setState fuel w value).Ensures s (fun _ t => t.Coherent) (fun _ _ => False) True := by
  have start : Concealing s w info value (s.entered w info value) := .start coherent here
  have live := coherent.integrity.live_of_info here
  apply ensures_setState here
  · rintro rfl
    have integrity := coherent.integrity.marked here
    rw [markFullscreen_eq] at integrity ⊢
    exact ⟨integrity, coherent.synced, coherent.hides, coherent.posted⟩
  · intro _ concealed
    rw [ensures_onlyIf]
    refine ⟨fun _ => ?_, fun _ => start.hidden coherent here concealed⟩
    have entered : (s.entered w info value).Live w := by simpa [Live] using live
    exact ((closed_concealing coherent concealed).moveFocusFrom (fun t h => h.unfocus) start
      entered).mono (fun _ t h => h.hidden coherent here concealed) (fun _ _ h => h)
      fun _ => trivial
  · exact fun _ _ _ => coherent.shown here
  · intro _ _ _ _
    refine (closed_coherent.select (coherent.shown here) ?_).unbounded
    rw [sameStructure_drawn.live]
    simpa [Live] using live

/-- What is asked of the operations that can upset the focus, in the state they start in. -/
structure FocusCondition where
  null : Model → Option Window → Prop
  modify : Model → Window → WindowSpecification → Prop
  remove : Model → Window → Prop

/-- Only a request that passes validation goes on to `modify_window`. -/
def FocusCondition.request (condition : FocusCondition) (s : Model) (w : Window)
    (modifications : WindowSpecification) : Prop :=
  (∃ info, s.info? w = some info ∧ s.validateModificationRequest modifications info = .ok ()) →
    condition.modify s w modifications

def Op.Meets (condition : FocusCondition) (s : Model) : Op → Prop
  | selectActiveWindow hint => condition.null s hint
  | modifySurface w modifications => condition.request s w (.ofSurfaceSpecification modifications)
  | setSurfaceAttribute w attrib => condition.request s w attrib.request
  | modifyWindow w modifications => condition.modify s w modifications
  | removeSurface _ w => condition.remove s w
  | forceClose window => ∀ w, s.lock window = some w → condition.remove s w
  | _ => True

/-- A property that the harmless changes keep, and the others under a condition on the state
`s` in which an operation starts. -/
structure Upholds (condition : FocusCondition) (s : Model) (property : Model → Prop) : Prop where
  focus : FocusClosed property
  still : ∀ t u, property t → Still t u → property u
  post : ∀ t w, property t → property (t.configure w ({ · with posted := true }))
  null : ∀ hint, condition.null s hint → s.lock hint = none → property (s.unfocus hint)
  modified : ∀ w modifications info tmp t, condition.modify s w modifications →
    s.info? w = some info → Requested s modifications info tmp →
    Prepared w modifications tmp s t → property t
  stated : ∀ w modifications info tmp t value fuel, condition.modify s w modifications →
    s.info? w = some info → Requested s modifications info tmp →
    Prepared w modifications tmp s t → modifications.state = some value →
    (setState fuel w value).Ensures t (fun _ u => property u) (fun _ _ => False) True
  removed : ∀ w info t fuel, condition.remove s w → s.info? w = some info →
    dropWindow w.application w s = .returned () t → Dropped w s t →
    (onlyIf (s.activeWindow = some w)
      (refocus fuel w.application info.parent (s.workspacesContaining w))).Ensures t
        (fun _ u => property u) (fun _ _ => False) True

namespace Upholds

variable {condition : FocusCondition} {property : Model → Prop}
  (upholds : Upholds condition s property)

include upholds

theorem modifyWindow (holds : property s) {modifications : WindowSpecification}
    (meets : condition.modify s w modifications) (topLeft : Option Point) (size : Option Size) :
    (modifyWindow fuel w { modifications with topLeft := topLeft, size := size }).Ensures s
      (fun _ t => property t) (fun _ t => property t) True := by
  by_cases managed : s.Managed w
  · obtain ⟨info, here⟩ := managed_iff.mp managed
    have integrity := upholds.focus.integrity s holds
    have modified (tmp : WindowInfo) (t : Model)
        (requested : Requested s { modifications with topLeft := topLeft, size := size } info tmp)
        (prepared : Prepared w { modifications with topLeft := topLeft, size := size } tmp s t) :
        Requested s modifications info tmp ∧ Prepared w modifications tmp s t :=
      ⟨requested_placed.mp requested, prepared.integrity, prepared.undisturbed,
        prepared.parents, prepared.types, prepared.infos, prepared.unlinked, prepared.surfaces⟩
    refine ensures_modifyWindow integrity here (fun _ _ => holds) (fun _ _ _ _ _ => trivial) ?_ ?_ ?_
    · intro tmp t failure requested prepared _
      obtain ⟨requested, prepared⟩ := modified tmp t requested prepared
      exact upholds.modified w modifications info tmp t meets here requested prepared
    · intro tmp t failure rect requested prepared _ _ _ _
      obtain ⟨requested, prepared⟩ := modified tmp t requested prepared
      exact upholds.modified w modifications info tmp t meets here requested prepared
    · intro tmp t rect requested prepared _ _ _
      obtain ⟨requested, prepared⟩ := modified tmp t requested prepared
      have holds := upholds.modified w modifications info tmp t meets here requested prepared
      have confine (u : Model) (holds : property u) :
          (whenSome modifications.confinePointer fun confinePointer =>
            configure w ({ · with confinePointer })).Ensures u
            (fun _ t => property t) (fun _ t => property t) True := by
        rw [ensures_whenSome]
        refine ⟨fun _ _ => ?_, fun _ => holds⟩
        exact upholds.still _ _ holds
          (.of_retouched (.configure fun _ => rfl) (upholds.focus.integrity u holds))
      rw [ensures_bind, ensures_whenSome]
      constructor
      · intro value asks
        exact (upholds.stated w modifications info tmp t value fuel meets here requested prepared
          asks).mono (fun _ u h => confine u h) (fun _ _ h => h.elim) id
      · exact fun _ => confine t holds
  · rw [Miral.modifyWindow, ensures_bind, requestedInfo, ensures_bind, ensures_infoFor]
    exact ⟨fun info here => absurd (managed_iff.mpr ⟨info, here⟩) managed, fun _ => holds⟩

theorem handleRequest (holds : property s) {modifications : WindowSpecification}
    (meets : condition.request s w modifications) :
    (handleRequest fuel w modifications).Ensures s
      (fun _ t => property t) (fun _ t => property t) True := by
  rw [Miral.handleRequest, ensures_bind, ensures_infoFor]
  refine ⟨fun info here => ?_, fun _ => holds⟩
  rw [ensures_bind, ensures_state, ensures_bind, ensures_ofExcept]
  refine ⟨fun _ valid => ?_, fun _ _ => holds⟩
  rw [applyRequest, ensures_bind, ensures_infoFor]
  refine ⟨fun info' here' => ?_, fun _ => holds⟩
  rw [ensures_bind, ensures_state]
  obtain ⟨topLeft, size, placed⟩ := s.placeAndSizeForState_eq modifications w info'
  rw [placed]
  exact upholds.modifyWindow holds (meets ⟨info, here, valid⟩) topLeft size

theorem removeWindow (holds : property s) (meets : condition.remove s w) :
    (removeWindow fuel w.application w).Ensures s
      (fun _ t => property t) (fun _ t => property t) True := by
  rw [Miral.removeWindow, ensures_bind, ensures_infoFor]
  refine ⟨fun info here => ?_, fun _ => holds⟩
  rw [ensures_bind, ensures_state]
  apply (ensures_dropWindow (upholds.focus.integrity s holds) here).traced.bind_throwless
  intro _ t after
  rcases after with ⟨run, dropped⟩
  exact (upholds.removed w info t fuel meets here run dropped).mono (fun _ _ h => h)
    (fun _ _ h => h.elim) id

theorem select (holds : property s) (hint : Option Window) (meets : condition.null s hint) :
    (selectActiveWindow fuel hint).Ensures s (fun _ t => property t) (fun _ _ => False) True := by
  cases locked : s.lock hint with
  | some w =>
    obtain ⟨rfl, live⟩ := lock_eq_some.mp locked
    exact (upholds.focus.select holds live).unbounded
  | none =>
    refine (ensures_selectNull (upholds.focus.integrity s holds) locked).mono ?_
      (fun _ _ h => h) fun _ => trivial
    intro _ t after
    rcases after with ⟨-, rfl⟩
    exact upholds.null hint meets locked

end Upholds

theorem Model.Still.swept (integrity : s.Integrity) : Still s s.swept :=
  .of_same integrity.swept (fun _ => rfl) (fun _ => rfl) rfl ⟨[], by simp, by simp [Model.swept]⟩

/-- An operation keeps a property that is upheld from the state in which it starts. -/
theorem Upholds.run {condition : FocusCondition} {property : Model → Prop} {op : Op}
    (upholds : Upholds condition s.swept property) (holds : property s)
    (contract : op.Contract s) (meets : op.Meets condition s.swept) :
    (op.run fuel).Ensures s (fun _ t => property t) (fun _ t => property t) True := by
  have integrity := upholds.focus.integrity s holds
  have sweptHolds : property s.swept := upholds.still _ _ holds (.swept integrity)
  have sweptIntegrity := integrity.swept
  have locked {body : Manager Unit} (kept : body.Ensures s.swept
      (fun _ t => property t) (fun _ t => property t) True) :
      (Op.locked body).Ensures s (fun _ t => property t) (fun _ t => property t) True :=
    ensures_locked.mpr kept
  have throwless {body : Manager Unit} (kept : body.Ensures s.swept (fun _ t => property t)
      (fun _ _ => False) True) :
      (Op.locked body).Ensures s (fun _ t => property t) (fun _ t => property t) True :=
    locked (kept.mono (fun _ _ h => h) (fun _ _ h => h.elim) id)
  have still (t : Model) (h : Still s.swept t) : property t := upholds.still _ _ sweptHolds h
  have grouped {body : Manager Unit} {post : Model → Prop} {links : Window → Window → Prop}
      {g : Grove Window Workspace}
      (groups : body.Ensures s.swept (fun _ t => Regrouped s.swept t ∧ post t) (fun _ _ => False)
        True)
      (kept : (Op.locked body).Ensures s (fun _ t => Follows links g t)
        (fun _ t => Follows links g t) True) :
      (Op.locked body).Ensures s (fun _ t => property t) (fun _ t => property t) True := by
    rw [ensures_locked] at kept
    refine throwless ((groups.and kept).mono ?_ (fun _ _ h => h.1) fun _ => trivial)
    intro _ t after
    rcases after with ⟨⟨h, -⟩, integrity', -⟩
    exact still t (.of_same integrity' (fun _ => h.info?) (fun _ => h.surface?) h.mru h.quiet)
  have placed {layout : DisplayLayout} {displays : List Rectangle} (order : List Window) :
      (placeFullscreen fuel order).Ensures
        { s.swept with displayLayout := layout, displays := displays }
        (fun _ t => property t) (fun _ _ => False) True := by
    have same : SameStructure s.swept
        { s.swept with displayLayout := layout, displays := displays } := .of_frame rfl
    have kept := sweptIntegrity.sameStructure same sweptIntegrity.mru
    have changed : property { s.swept with displayLayout := layout, displays := displays } :=
      still _ (.of_same kept (fun _ => rfl) (fun _ => rfl) rfl ⟨[], by simp, by simp⟩)
    refine (ensures_placeFullscreen kept order).mono ?_ (fun _ _ h => h) fun _ => trivial
    intro _ t after
    rcases after with ⟨integrity', undisturbed, -, types⟩
    exact upholds.still _ _ changed (.of_undisturbed undisturbed integrity' types)
  cases op with
  | addSession session =>
    have kept : ((s.swept.setApp session ⟨[]⟩).emit (.adviseNewApp session)).Integrity :=
      sweptIntegrity.sameStructure (sameStructure_addSession contract) sweptIntegrity.mru
    exact locked (still _ (.of_same kept (fun _ => rfl) (fun _ => rfl) rfl
      ⟨[.adviseNewApp session], by simp [Event.quiet], rfl⟩))
  | addSurface session params surface =>
    refine locked ((ensures_addSurface sweptIntegrity contract.1 contract.2.2).mono ?_ ?_ id)
    · exact fun _ t added => still t (.of_added sweptIntegrity contract.1 added)
    · rintro _ t rfl
      exact sweptHolds
  | modifySurface w modifications => exact locked (upholds.handleRequest sweptHolds meets)
  | setSurfaceAttribute w attrib => exact locked (upholds.handleRequest sweptHolds meets)
  | removeSurface session w =>
    obtain rfl : session = w.application := contract
    exact locked (upholds.removeWindow sweptHolds meets)
  | forceClose window =>
    apply locked
    rw [forceClose, ensures_bind, ensures_state, ensures_whenSome]
    exact ⟨fun w found => upholds.removeWindow sweptHolds (meets w found), fun _ => sweptHolds⟩
  | modifyWindow w modifications =>
    exact locked (upholds.modifyWindow sweptHolds meets modifications.topLeft modifications.size)
  | selectActiveWindow hint =>
    apply throwless
    rw [ensures_bind]
    exact upholds.select sweptHolds hint meets
  | handleWindowReady w => exact locked (upholds.focus.handleWindowReady sweptHolds)
  | handleRaiseSurface w timestamp =>
    exact locked (upholds.focus.handleRaiseSurface sweptHolds)
  | inputEvent timestamp cursor =>
    refine locked (still _ (.of_same ?_ (fun _ => rfl) (fun _ => rfl) rfl
      ⟨[], by simp, by simp⟩))
    exact sweptIntegrity.sameStructure (.of_frame rfl) sweptIntegrity.mru
  | focusNextApplication => exact throwless (upholds.focus.focusNextApplication sweptHolds)
  | focusNextWithinApplication =>
    exact throwless (upholds.focus.focusSibling id (fun _ => List.Subset.refl _) sweptHolds)
  | focusPrevWithinApplication =>
    exact throwless (upholds.focus.focusSibling List.reverse
      (fun _ => List.reverse_subset.mpr (List.Subset.refl _)) sweptHolds)
  | raiseTree w =>
    apply locked
    apply (ensures_raiseTree_any sweptIntegrity w).mono ?_ ?_ id
    · intro _ t after
      rcases after with ⟨raised, quiet, rfl⟩
      exact still _ (.of_same sweptIntegrity.emits (fun _ => rfl) (fun _ => rfl) rfl
        ⟨raised, quiet, rfl⟩)
    · rintro _ t rfl
      exact sweptHolds
  | dragWindow window movement =>
    refine throwless ((ensures_dragWindow sweptIntegrity window movement).mono ?_
      (fun _ _ h => h) fun _ => trivial)
    intro _ t after
    rcases after with ⟨w, moved⟩
    exact still t (.of_retouched (.of_moved moved) sweptIntegrity)
  | addDisplay area layout order => exact throwless (placed order)
  | removeDisplay area layout order => exact throwless (placed order)
  | addTreeToWorkspace w k =>
    exact grouped (ensures_addTreeToWorkspace sweptIntegrity.toLinked).unbounded
      (follows_run fuel (.addTreeToWorkspace w k) integrity contract)
  | removeTreeFromWorkspace w k =>
    exact grouped (ensures_removeTreeFromWorkspace sweptIntegrity.toLinked).unbounded
      (follows_run fuel (.removeTreeFromWorkspace w k) integrity contract)
  | moveWorkspaceContentToWorkspace k₀ k₁ =>
    exact grouped (ensures_moveWorkspaceContent k₀ k₁)
      (follows_run fuel (.moveWorkspaceContentToWorkspace k₀ k₁) integrity contract)
  | postBuffer w => exact upholds.post s w holds
  | createWorkspace k =>
    have kept := follows_run fuel (.createWorkspace k) integrity contract
    exact upholds.still _ _ holds
      (.of_same kept.1 (fun _ => rfl) (fun _ => rfl) rfl ⟨[], by simp, by simp⟩)
  | destroyWorkspace k =>
    have kept := follows_run fuel (.destroyWorkspace k) integrity contract
    exact upholds.still _ _ holds
      (.of_same kept.1 (fun _ => rfl) (fun _ => rfl) rfl ⟨[], by simp, by simp⟩)

def FocusCondition.free : FocusCondition := ⟨fun _ _ => True, fun _ _ _ => True, fun _ _ => True⟩

theorem Op.meets_free (s : Model) (op : Op) : op.Meets .free s := by
  cases op <;> simp [Op.Meets, FocusCondition.free, FocusCondition.request]

theorem upholds_coherent (coherent : s.Coherent) : Upholds .free s Model.Coherent where
  focus := closed_coherent
  still _ _ coherent still := still.coherent coherent
  post _ _ coherent := coherent.post
  null _ _ _ := coherent.unfocus
  modified _ _ _ _ _ _ _ _ prepared := coherent.undisturbed prepared.undisturbed prepared.integrity
  stated _ _ _ _ _ value _ _ _ _ prepared _ :=
    (coherent.undisturbed prepared.undisturbed prepared.integrity).setState prepared.record value
  removed _ _ _ _ _ _ _ dropped := by
    have kept := coherent.dropped dropped
    rw [ensures_onlyIf]
    exact ⟨fun _ => closed_coherent.refocus kept, fun _ => kept⟩

theorem Reachable.coherent (reachable : Reachable (fun s op => op.Contract s) s) : s.Coherent := by
  apply reachable.invariant Model.Coherent Coherent.initial
  intro s op fuel coherent contract
  exact (upholds_coherent ((Still.swept coherent.integrity).coherent coherent)).run coherent contract
    (op.meets_free _)

/-- Operations that no condition on the focus is about. -/
def Op.plain : Op → Bool
  | selectActiveWindow _ | removeSurface .. | forceClose _ => false
  | modifySurface .. | setSurfaceAttribute .. | modifyWindow .. => false
  | _ => true

theorem Op.meets_plain {op : Op} (condition : FocusCondition) (plain : op.plain) :
    op.Meets condition s := by
  cases op <;> trivial

/-- The two windows of `Op.pairRun`, the first of which is then selected. -/
def Model.turnState : Model :=
  (Op.follow 12 (fun s op => op.Contract s ∧ op.plain) (Op.pairRun ++ [.focusNextWithinApplication])
    .start).get (by decide +kernel)

theorem reachable_turnState : Reachable (fun s op => op.Contract s ∧ op.plain) turnState :=
  (Reachable.initial _ _).follow (Option.some_get _).symm

/-- A window that is active, and a null window that is then selected, twice. -/
def Op.nullRun : List Op :=
  [.addSession 1, .addSurface 1 { size := ⟨100, 80⟩ } 1, .postBuffer ⟨1, 1⟩,
    .handleWindowReady ⟨1, 1⟩, .selectActiveWindow none, .selectActiveWindow none]

def Model.nullState : Model :=
  (Op.follow 12 (fun s op => op.Contract s) Op.nullRun .start).get (by decide +kernel)

theorem reachable_nullState : Reachable (fun s op => op.Contract s) nullState :=
  (Reachable.initial _ _).follow (Option.some_get _).symm

/-- A window in the MRU list is seen unless its record says that it is hidden or minimized. -/
theorem Model.Coherent.visible_mru (coherent : s.Coherent) (member : w ∈ s.mruActiveWindows) :
    s.visible w = (s.stateOf w).any (!·.concealed) := by
  have live := (coherent.integrity.live w).mpr (coherent.integrity.mru w member)
  obtain ⟨surface, drawn⟩ := live_iff.mp live
  have posted := coherent.posted w member surface drawn
  rw [visible, drawn, coherent.synced w surface drawn, Option.any_some]
  dsimp only
  rw [Surface.visible, posted]
  cases state : surface.state.concealed with
  | true => rfl
  | false =>
    have shown : surface.hidden = false := by
      by_contra hidden
      have concealed := coherent.hides w surface drawn (by simpa using hidden)
      exact absurd (state.symm.trans concealed) (by simp)
    simp [shown]

/-- In every reachable state a managed window has a surface with the state of its record, its record
and its surface agree on whether it is seen, and the active window is the one used most recently
of those that are neither hidden nor minimized. -/
theorem records_tell_what_is_seen (reachable : Reachable (fun s op => op.Contract s) s) :
    (∀ w info, s.info? w = some info → ∃ surface, s.surface? w = some surface ∧
      surface.state = info.state ∧ (surface.hidden → info.state.concealed) ∧
      s.isVisible w info = s.visible w) ∧
    s.activeWindow =
      s.mruActiveWindows.reverse.find? fun w => (s.stateOf w).any (!·.concealed) := by
  have coherent := reachable.coherent
  constructor
  · intro w info here
    obtain ⟨surface, drawn⟩ := live_iff.mp (coherent.integrity.live_of_info here)
    have state : surface.state = info.state :=
      Option.some.inj ((coherent.synced w surface drawn).symm.trans (stateOf_eq here))
    refine ⟨surface, drawn, state, fun hidden => ?_, ?_⟩
    · rw [← state]
      exact coherent.hides w surface drawn hidden
    · rw [isVisible, visible, drawn]
      dsimp only
      rw [state]
  · rw [activeWindow, ← List.head?_filter, ← List.head?_filter]
    exact congrArg List.head? (List.filter_congr fun w member =>
      coherent.visible_mru (List.mem_reverse.mp member))

theorem records_tell_what_is_seen_turn : turnState.activeWindow =
    turnState.mruActiveWindows.reverse.find? fun w => (turnState.stateOf w).any (!·.concealed) :=
  (records_tell_what_is_seen (reachable_turnState.mono fun _ _ h => h.1)).2

end Miral
