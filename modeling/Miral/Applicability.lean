import Miral.Validation
import Miral.RelativePlacement

/-! What it takes to apply a request whose checks have passed, and what is left behind when
it cannot be applied: `constrain_resize` and `place_relative` run after the swap. -/
namespace Miral

open Program Prog Model

variable {s t u : Model} {w v : Window} {info tmp : WindowInfo} {fuel : Nat}
  {modifications : WindowSpecification}

/-- What the checks of a request do not look at. The request sets no parent that is not
managed, no division traps where it sets a constraint without a size, and it sets what a
placement needs where there is a parent to place the window against. -/
structure Applicable (s : Model) (w : Window) (info : WindowInfo)
    (modifications : WindowSpecification) : Prop where
  parent : ∀ weak, modifications.parent = some weak → ∃ p, weak = some p ∧ s.Managed p
  type : ∀ type, modifications.type = some type → type = info.type
  sized : modifications.constrains → (s.placeAndSizeForState modifications w info).size = none →
    ∃ result, (info.requestedBy modifications).constrainResize (s.rect w)
      ((s.placeAndSizeForState modifications w info).topLeft.getD (s.topLeft w)) (s.size w) =
        .ok result
  placed : modifications.placementHints.isSome → s.hasParent modifications info →
    modifications.placeable

theorem validate_ok (accepted : s.validateModificationRequest modifications info = .ok ()) :
    checkSome (checkTypeChange info.type) modifications.type = .ok () := by
  unfold validateModificationRequest at accepted
  cases first : checkSome (checkTypeChange info.type) modifications.type with
  | ok => rfl
  | error failure => simp [first, bind, Except.bind] at accepted

theorem Requested.type_of_accepted (requested : Requested s modifications info tmp)
    (accepted : s.validateModificationRequest modifications info = .ok ()) :
    ∀ type, modifications.type = some type → type = info.type := by
  intro type asks
  by_contra changes
  have checked := validate_ok accepted
  rw [asks, checkSome] at checked
  by_cases known : info.type = .types
  · have morphs := requested.checked
    have asked : (info.requestedBy modifications).type = type := by
      simp [WindowInfo.requestedBy, WindowInfo.copyIfSet, asks]
    have stuck : info.type.canMorphTo type = false := by
      rw [known]
      cases type <;> rfl
    simp [WindowInfo.checkMorph, asked, Ne.symm changes, stuck] at morphs
  · exact changes (checkTypeChange_ok checked known)

theorem requested_of_type
    (asked : ∀ weak, modifications.parent = some weak → ∃ p, weak = some p ∧ s.Managed p)
    (kept : ∀ type, modifications.type = some type → type = info.type) :
    Requested s modifications info (info.requestedBy modifications) := by
  refine ⟨asked, ?_⟩
  have same : info.type = (info.requestedBy modifications).type := by
    cases asks : modifications.type with
    | none => simp [WindowInfo.requestedBy, WindowInfo.copyIfSet, asks]
    | some type => simp [WindowInfo.requestedBy, WindowInfo.copyIfSet, asks, kept type asks]
  rw [WindowInfo.checkMorph, if_pos same]

theorem Requested.det {tmp' : WindowInfo} (requested : Requested s modifications info tmp)
    (requested' : Requested s modifications info tmp') : tmp = tmp' :=
  Except.ok.inj (requested.checked.symm.trans requested'.checked)

theorem placementRect_ok_iff : (∃ placed, s.placementRect w tmp modifications = .ok placed) ↔
    (modifications.placementHints.isSome → (s.lock tmp.parent).isSome →
      modifications.placeable) := by
  unfold placementRect
  by_cases hints : modifications.placementHints.isSome
  · cases locked : s.lock tmp.parent with
    | none => simp [hints]
    | some parent =>
      simp only [hints, ↓reduceIte, Option.isSome_some, forall_const]
      have whole : (∃ rect, placeRelative s.activeDisplay (s.rect parent) modifications
          (s.size w) = .ok rect) ↔ _ := placeRelative_ok_iff hints
      rw [← whole]
      cases placeRelative s.activeDisplay (s.rect parent) modifications (s.size w) <;>
        simp [bind, Except.bind, pure, Except.pure]
  · simp [hints]

theorem ensures_setState_ends (integrity : s.Integrity) (here : s.info? w = some info)
    (value : WindowState) :
    (setState fuel w value).Ensures s (fun _ _ => True) (fun _ _ => False) (s.Short fuel) := by
  have closed : FocusClosed Integrity :=
    { integrity := fun _ h => h
      selected := fun _ _ _ h focusable _ => h.focusOn focusable.managed
      next := fun _ h => h.sameStructure sameStructure_nextFocus h.mru }
  refine (closed.setState (fun t h => h.unfocus) here
    (integrity.live_of_info here) ?_ (integrity.entered here value)
    fun t _ h => h.drawn).imp (fun _ _ _ => trivial)
  rintro rfl
  exact integrity.marked here

theorem ensures_lastPhase (integrity : s.Integrity) (here : s.info? w = some info) :
    Ensures (do
      whenSome modifications.state (setState fuel w)
      whenSome modifications.confinePointer fun confinePointer =>
        configure w ({ · with confinePointer })) s (fun _ _ => True) (fun _ _ => False)
      (s.Short fuel) := by
  have confine (u : Model) : (whenSome modifications.confinePointer fun confinePointer =>
      configure w ({ · with confinePointer })).Ensures u (fun _ _ => True) (fun _ _ => False)
        (s.Short fuel) := by
    rw [ensures_whenSome]
    exact ⟨fun _ _ => trivial, fun _ => trivial⟩
  rw [ensures_bind, ensures_whenSome]
  refine ⟨fun value _ => ?_, fun _ => confine s⟩
  exact (ensures_setState_ends integrity here value).imp (fun _ u _ => confine u)

theorem requestedRect_ok_iff {rest : WindowSpecification} :
    (∃ rect, s.requestedRect w tmp rest = .ok rect) ↔
      (rest.constrains → rest.size = none → ∃ result, tmp.constrainResize (s.rect w)
        (rest.topLeft.getD (s.topLeft w)) (s.size w) = .ok result) := by
  unfold requestedRect
  cases sized : rest.size with
  | some size => simp
  | none =>
    by_cases constrains : rest.constrains
    · simp only [constrains, ↓reduceIte, forall_const]
      cases tmp.constrainResize (s.rect w) (rest.topLeft.getD (s.topLeft w)) (s.size w) <;>
        simp [bind, Except.bind, pure, Except.pure]
    · simp [constrains]

theorem placedRect_ok_iff : (∃ rect, s.requestedRect w tmp
      (s.placeAndSizeForState modifications w info) = .ok rect) ↔
    (modifications.constrains → (s.placeAndSizeForState modifications w info).size = none →
      ∃ result, tmp.constrainResize (s.rect w)
        ((s.placeAndSizeForState modifications w info).topLeft.getD (s.topLeft w)) (s.size w) =
          .ok result) := by
  have same : (s.placeAndSizeForState modifications w info).constrains =
      modifications.constrains := by
    obtain ⟨topLeft, size, eq⟩ := s.placeAndSizeForState_eq modifications w info
    rw [eq]
    rfl
  rw [requestedRect_ok_iff, same]

theorem ensures_applyRequest (here : s.info? w = some info) {post : Unit → Model → Prop}
    {error : Failure → Model → Prop} {short : Prop}
    (applies : ∀ topLeft size, s.placeAndSizeForState modifications w info =
        { modifications with topLeft := topLeft, size := size } →
      (modifyWindow fuel w { modifications with topLeft := topLeft, size := size }).Ensures s
        post error short) :
    (applyRequest fuel w modifications).Ensures s post error short := by
  rw [applyRequest, ensures_bind, ensures_infoFor_here here]
  rw [ensures_bind, ensures_state]
  obtain ⟨topLeft, size, eq⟩ := s.placeAndSizeForState_eq modifications w info
  rw [eq]
  exact applies topLeft size eq

theorem applicable_of_applied (integrity : s.Integrity) (here : s.info? w = some info)
    (accepted : s.validateModificationRequest modifications info = .ok ()) :
    (applyRequest fuel w modifications).Ensures s
      (fun _ _ => Applicable s w info modifications) (fun _ _ => True) True := by
  apply ensures_applyRequest here
  intro topLeft size eq
  refine ensures_modifyWindow integrity here (fun _ _ => trivial) (fun _ _ _ _ _ => trivial)
    (fun _ _ _ _ _ _ => trivial) (fun _ _ _ _ _ _ _ _ _ _ => trivial) ?_
  rintro tmp t rect requested - sized - ⟨u, placed, undisturbed, ok, -⟩
  refine ensures_always (fun _ _ => ?_) (fun _ _ => trivial) trivial
  have requested := requested_placed.mp requested
  rw [← eq] at sized
  have kept := requested.type_of_accepted accepted
  obtain rfl := requested.det (requested_of_type requested.asked kept)
  refine ⟨requested.asked, kept, ?_, ?_⟩
  · exact placedRect_ok_iff.mp ⟨rect, sized⟩
  · have places := placementRect_ok_iff.mp ⟨placed, ok⟩
    rw [undisturbed.lock] at places
    exact places

/-- An applicable request is applied to the end, if the trees it leaves are acyclic. -/
theorem Applicable.applies (applicable : Applicable s w info modifications)
    (integrity : s.Integrity) (here : s.info? w = some info) :
    (applyRequest fuel w modifications).Ensures s (fun _ _ => True) (fun _ _ => False)
      ((s.setInfo w (info.requestedBy modifications)).Short fuel) := by
  apply ensures_applyRequest here
  intro topLeft size eq
  have requested := requested_of_type applicable.parent applicable.type
  have same (tmp : WindowInfo) (requested' : Requested s
      { modifications with topLeft := topLeft, size := size } info tmp) :
      tmp = info.requestedBy modifications := (requested_placed.mp requested').det requested
  have sized := placedRect_ok_iff.mpr applicable.sized
  rw [eq] at sized
  apply ensures_modifyWindow integrity here
  · exact fun _ refused => refused _ (requested_placed.mpr requested)
  · rintro tmp t requested' prepared
    obtain rfl := same tmp requested'
    exact prepared.short
  · rintro tmp t failure requested' - unsized
    obtain rfl := same tmp requested'
    obtain ⟨rect, ok⟩ := sized
    simp [ok] at unsized
  · rintro tmp t failure rect requested' prepared - - - unplaced
    obtain rfl := same tmp requested'
    obtain ⟨placed, ok⟩ : ∃ placed, t.placementRect w (info.requestedBy modifications)
        { modifications with topLeft := topLeft, size := size } = .ok placed := by
      refine placementRect_ok_iff.mpr fun hints parent => applicable.placed hints ?_
      rw [prepared.undisturbed.lock] at parent
      exact parent
    simp [ok] at unplaced
  · rintro tmp t rect requested' prepared - - -
    obtain rfl := same tmp requested'
    exact (ensures_lastPhase prepared.integrity prepared.record).mono (fun _ _ h => h)
      (fun _ _ h => h) prepared.short

def Op.Applies (op : Op) (s : Model) : Prop := ∃ fuel t, op.run fuel s = .returned () t

theorem ensures_accepted {spec : SurfaceSpecification} {post : Unit → Model → Prop}
    {error : Failure → Model → Prop} {short : Prop} (here : s.info? w = some info)
    (accepted : s.validateModificationRequest (.ofSurfaceSpecification spec) info = .ok ())
    (applies : (applyRequest fuel w (.ofSurfaceSpecification spec)).Ensures s.swept
      post error short) :
    ((Op.modifySurface w spec).run fuel).Ensures s post error short := by
  have there : s.swept.info? w = some info := here
  have valid : s.swept.validateModificationRequest (.ofSurfaceSpecification spec) info = .ok () :=
    accepted
  rw [Op.run, ensures_locked, modifySurface, handleRequest, ensures_bind,
    ensures_infoFor_here there, ensures_bind, ensures_state, valid]
  exact applies

section Accepted

variable {spec : SurfaceSpecification} (integrity : s.Integrity) (here : s.info? w = some info)
  (accepted : s.validateModificationRequest (.ofSurfaceSpecification spec) info = .ok ())

include integrity here accepted

theorem applicable_of_applies (applies : (Op.modifySurface w spec).Applies s) :
    Applicable s w info (.ofSurfaceSpecification spec) := by
  obtain ⟨fuel, t, returned⟩ := applies
  have applied : (applyRequest fuel w (.ofSurfaceSpecification spec)).Ensures s.swept
      (fun _ _ => Applicable s.swept w info (.ofSurfaceSpecification spec)) (fun _ _ => True)
      True := applicable_of_applied integrity.swept here accepted
  have applicable := (ensures_accepted here accepted applied).returned returned
  exact ⟨applicable.parent, applicable.type, applicable.sized, applicable.placed⟩

theorem Applicable.ensures (applicable : Applicable s w info (.ofSurfaceSpecification spec)) :
    ((Op.modifySurface w spec).run fuel).Ensures s (fun _ _ => True) (fun _ _ => False)
      ((s.setInfo w (info.requestedBy (.ofSurfaceSpecification spec))).Short fuel) := by
  have applicable : Applicable s.swept w info (.ofSurfaceSpecification spec) :=
    ⟨applicable.parent, applicable.type, applicable.sized, applicable.placed⟩
  exact ensures_accepted here accepted (applicable.applies integrity.swept here)

end Accepted

/-- What a client's request has to meet beside its checks to be applied: exactly this, where
the trees are acyclic with the parent it asks for. -/
theorem accepted_requests_apply {spec : SurfaceSpecification}
    (reachable : Reachable (fun s op => op.Contract s) s) (here : s.info? w = some info)
    (accepted : s.validateModificationRequest (.ofSurfaceSpecification spec) info = .ok ()) :
    ((Op.modifySurface w spec).Applies s →
      Applicable s w info (.ofSurfaceSpecification spec)) ∧
    (Applicable s w info (.ofSurfaceSpecification spec) →
      (∀ fuel failure t, (Op.modifySurface w spec).run fuel s ≠ .thrown failure t) ∧
      ((s.setInfo w (info.requestedBy (.ofSurfaceSpecification spec))).Acyclic →
        (Op.modifySurface w spec).Applies s)) := by
  have integrity := reachable.integrity
  refine ⟨applicable_of_applies integrity here accepted, fun applicable => ⟨?_, fun acyclic => ?_⟩⟩
  · intro fuel failure t thrown
    exact (applicable.ensures integrity here accepted).thrown thrown
  · obtain ⟨n, enough⟩ := acyclic.enough
    obtain ⟨_, t, returned, -⟩ :=
      (applicable.ensures integrity here accepted).returns (enough n (Nat.le_refl n))
    exact ⟨n, t, returned⟩

/-- A request for a place at the right edge of the parent. -/
def SurfaceSpecification.beside : SurfaceSpecification where
  auxRect := some ⟨⟨0, 0⟩, ⟨10, 10⟩⟩
  edgeAttachment := some .vertical

theorem record_dialog (check : WindowInfo → Bool)
    (passes : (dialogState.info? ⟨1, 2⟩).any check) :
    ∃ info, dialogState.info? ⟨1, 2⟩ = some info ∧ check info := by
  simpa [Option.any_eq_true] using passes

theorem accepted_requests_apply_dialog : ∃ info, dialogState.info? ⟨1, 2⟩ = some info ∧
    Applicable dialogState ⟨1, 2⟩ info (.ofSurfaceSpecification .beside) ∧
    ∀ fuel failure t, (Op.modifySurface ⟨1, 2⟩ .beside).run fuel dialogState ≠
      .thrown failure t := by
  obtain ⟨info, here, accepted⟩ := record_dialog (fun info => decide
    (dialogState.validateModificationRequest (.ofSurfaceSpecification .beside) info = .ok ()))
    (by decide +kernel)
  obtain ⟨needs, enough⟩ := accepted_requests_apply (reachable_dialogState.mono fun _ _ h => h.1)
    here (of_decide_eq_true accepted)
  have ends : ((Op.modifySurface ⟨1, 2⟩ .beside).run 12 dialogState).returned?.isSome := by
    decide +kernel
  obtain ⟨t, run⟩ := Option.isSome_iff_exists.mp ends
  obtain ⟨_, returned⟩ := Outcome.returned?_eq_some.mp run
  have applicable := needs ⟨12, t, returned⟩
  exact ⟨info, here, applicable, (enough applicable).1⟩

/-- Placement hints alone pass the checks, and `place_relative` then reads unset values. -/
theorem accepted_requests_apply_fails :
    ¬∀ s w info spec, Reachable (fun s op => op.Contract s) s → s.info? w = some info →
      s.validateModificationRequest (.ofSurfaceSpecification spec) info = .ok () →
      (Op.modifySurface w spec).Applies s := by
  intro claim
  let spec : SurfaceSpecification := { placementHints := some .flipAny }
  obtain ⟨info, here, passes⟩ := record_dialog (fun info => decide
    (dialogState.validateModificationRequest (.ofSurfaceSpecification spec) info = .ok () ∧
      dialogState.hasParent (.ofSurfaceSpecification spec) info)) (by decide +kernel)
  obtain ⟨accepted, parent⟩ := of_decide_eq_true passes
  have reachable := reachable_dialogState.mono fun _ _ h => h.1
  have applies := claim dialogState ⟨1, 2⟩ info spec reachable here accepted
  have applicable := applicable_of_applies reachable.integrity here accepted applies
  have placeable := applicable.placed rfl parent
  exact absurd placeable (by decide)

end Miral
