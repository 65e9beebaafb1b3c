import Miral.Applicability

/-! What `modify_window` leaves behind when it fails. Its checks run on a copy of the record,
but `place_relative` runs after the swap: a request it fails on has been applied by half. -/
namespace Miral

open Program Prog Model

variable {s t : Model} {w v : Window} {info tmp : WindowInfo} {rect : Rectangle} {fuel : Nat}
  {modifications : WindowSpecification}

/-- What a request can change of a surface before it is placed. -/
def Surface.looks (surface : Surface) :
    Point × Size × WindowType × String × List Rectangle :=
  (surface.topLeft, surface.size, surface.type, surface.name, surface.inputRegion)

/-- Nothing that a request could have changed has changed. -/
structure Intact (s t : Model) : Prop where
  infos : ∀ v, t.info? v = s.info? v
  looks : ∀ v, (t.surface? v).map Surface.looks = (s.surface? v).map Surface.looks
  fullscreen : t.fullscreenSurfaces = s.fullscreenSurfaces
  mru : t.mruActiveWindows = s.mruActiveWindows

/-- A failure of `modify_window` leaves everything as it was. A division that traps is no
such failure, since it ends the process. -/
def AllOrNothing (s : Model) (w : Window) (modifications : WindowSpecification) : Prop :=
  ∀ fuel failure t, (Op.modifyWindow w modifications).run fuel s = .thrown failure t →
    ¬failure.Traps → Intact s t

/-- Up to the placement the request asks for what is already so. -/
structure Idle (s : Model) (w : Window) (info tmp : WindowInfo)
    (modifications : WindowSpecification) (rect : Rectangle) : Prop where
  record : s.cachedInfo w tmp modifications.state = info
  still : s.rect w = rect
  adorned : ∀ surface, s.surface? w = some surface → surface.adorned modifications = surface

/-- A request that passes its own checks, has a rectangle to ask for, and goes on to a
placement either sets what the placement needs or changes nothing before it. -/
def PlacesSafely (s : Model) (w : Window) (info : WindowInfo)
    (modifications : WindowSpecification) : Prop :=
  ∀ tmp rect, Requested s modifications info tmp →
    s.requestedRect w tmp modifications = .ok rect → modifications.placementHints.isSome →
    (s.lock tmp.parent).isSome → modifications.placeable ∨ Idle s w info tmp modifications rect

theorem Intact.refl : Intact s s := ⟨fun _ => rfl, fun _ => rfl, rfl, rfl⟩

namespace WindowInfo

variable {ratio : AspectRatio} {size : Size}

theorem roundToIncrement_divides {value least inc : Int} :
    FailsOnly Failure.Traps (roundToIncrement value least inc) := by
  unfold roundToIncrement
  dsimp only
  split
  · exact .error (.inl rfl)
  · split
    · exact .error (.inr rfl)
    · split <;> exact .ok _

theorem divideUp_divides {error : Int} {denominator : Nat} :
    FailsOnly Failure.Traps (divideUp error denominator) := by
  unfold divideUp
  split
  · exact .error (.inl rfl)
  · exact .ok _

theorem applyMinAspect_divides : FailsOnly Failure.Traps (applyMinAspect ratio size) := by
  unfold applyMinAspect
  dsimp only
  split
  · refine .bind divideUp_divides fun _ => .bind divideUp_divides fun _ => ?_
    split <;> exact .ok _
  · exact .ok _

theorem applyMaxAspect_divides : FailsOnly Failure.Traps (applyMaxAspect ratio size) := by
  unfold applyMaxAspect
  dsimp only
  split
  · refine .bind divideUp_divides fun _ => .bind divideUp_divides fun _ => ?_
    split <;> exact .ok _
  · exact .ok _

theorem constrainResize_divides {window : Rectangle} {pos : Point} :
    FailsOnly Failure.Traps (info.constrainResize window pos size) :=
  .bind roundToIncrement_divides fun _ => .bind roundToIncrement_divides fun _ =>
    .bind applyMinAspect_divides fun _ => .bind applyMaxAspect_divides fun _ => .ok _

end WindowInfo

theorem requestedRect_divides :
    FailsOnly Failure.Traps (s.requestedRect w tmp modifications) := by
  unfold requestedRect
  dsimp only
  split
  · exact .ok _
  · split
    · exact .bind WindowInfo.constrainResize_divides fun _ => .ok _
    · exact .ok _

theorem placementRect_throws :
    FailsOnly (¬·.Traps) (s.placementRect w tmp modifications) := by
  unfold placementRect
  split
  · split
    · exact .bind placeRelative_throws fun _ => .ok _
    · exact .ok _
  · exact .ok _

/-- A request that asked for nothing new has changed nothing when its placement fails. -/
theorem Prepared.intact (prepared : Prepared w modifications tmp s t)
    (here : s.info? w = some info) (idle : Idle s w info tmp modifications rect)
    (unmoved : ∀ v, t.rect v = s.rect v) : Intact s t := by
  obtain ⟨restoreRect, cached⟩ := s.cachedInfo_eq w tmp modifications.state
  have same := idle.record
  rw [cached] at same
  have parent : tmp.parent = s.parentOf w := by
    rw [parentOf_eq here, ← same]
  have type : s.typeOf w = some tmp.type := by
    rw [typeOf_eq here, ← same]
  refine ⟨fun v => ?_, fun v => ?_, prepared.undisturbed.fullscreen, prepared.undisturbed.mru⟩
  · rw [prepared.infos, idle.record, prepared.unlinked parent]
    by_cases eq : v = w
    · simp [eq, here, childrenOf_eq here]
    · cases there : s.info? v <;> simp [eq, childrenOf, there]
  · obtain ⟨placed, surfaces⟩ := prepared.surfaces v
    have kept := unmoved v
    cases drawn : s.surface? v with
    | none => simp [surfaces, drawn]
    | some surface =>
      have dressed : s.dressed w modifications tmp.type v surface = surface := by
        unfold dressed retyped
        by_cases eq : v = w
        · subst eq
          simpa [type] using idle.adorned surface drawn
        · simp [eq]
      simp only [Model.rect, topLeft, size, surfaces, drawn, Option.map_some, Rectangle.mk.injEq]
        at kept
      simp [surfaces, drawn, dressed, Surface.looks, kept]

theorem Intact.unmoved (intact : Intact s t) : t.rect v = s.rect v := by
  have looks := intact.looks v
  unfold Model.rect topLeft size
  cases drawn : s.surface? v <;> cases drawn' : t.surface? v <;>
    simp_all [Surface.looks]

theorem Intact.idle (intact : Intact s t) (here : s.info? w = some info)
    (requested : Requested s modifications info tmp)
    (prepared : Prepared w modifications tmp s t) (sized : t.rect w = rect) :
    Idle s w info tmp modifications rect := by
  have there := (intact.infos w).trans here
  obtain ⟨restoreRect, cached⟩ := s.cachedInfo_eq w tmp modifications.state
  refine ⟨?_, ?_, fun surface drawn => ?_⟩
  · have record := there.symm.trans prepared.record
    rw [childrenOf_eq there, cached, ← requested.children] at record
    rw [cached]
    exact (Option.some.inj record).symm
  · rw [← sized, intact.unmoved]
  · obtain ⟨placed, surfaces⟩ := prepared.surfaces w
    have looks := intact.looks w
    have name : (s.retyped w tmp.type w surface).name = surface.name := by
      unfold retyped
      split <;> rfl
    have region : (s.retyped w tmp.type w surface).inputRegion = surface.inputRegion := by
      unfold retyped
      split <;> rfl
    simp only [surfaces, drawn, Option.map_some, Surface.looks, dressed, ↓reduceIte,
      Surface.adorned, name, region, Option.some.injEq, Prod.mk.injEq] at looks
    simp [Surface.adorned, looks]

section Fails

variable (integrity : s.Integrity) (here : s.info? w = some info)

include integrity here

theorem ensures_allOrNothing (safe : PlacesSafely s w info modifications) :
    (modifyWindow fuel w modifications).Ensures s (fun _ _ => True)
      (fun failure t => ¬failure.Traps → Intact s t) True := by
  refine ensures_modifyWindow integrity here ?_ (fun _ _ _ _ _ => trivial) ?_ ?_ ?_
  · exact fun _ _ _ => .refl
  · exact fun _ _ failure _ _ unsized exception =>
      absurd (requestedRect_divides failure unsized) exception
  · intro tmp t failure rect requested prepared sized placed still unplaced _
    by_contra changed
    have places : ∃ placed, t.placementRect w tmp modifications = .ok placed := by
      apply placementRect_ok_iff.mpr
      intro hints parent
      rw [prepared.undisturbed.lock] at parent
      rcases safe tmp rect requested sized hints parent with placeable | idle
      · exact placeable
      · exact absurd (prepared.intact here idle (still idle.still)) changed
    obtain ⟨placed, ok⟩ := places
    rw [ok] at unplaced
    contradiction
  · intro tmp t rect requested prepared _ _ _
    exact (ensures_lastPhase prepared.integrity prepared.record).mono (fun _ _ h => h)
      (fun _ _ h => h.elim) fun _ => trivial

/-- A request that is safe only by its condition: where the trees are acyclic, there is no
other way to leave everything as it was. -/
theorem placesSafely_of_intact
    (acyclic : ∀ tmp, Requested s modifications info tmp → (s.setInfo w tmp).Acyclic)
    (atomic : ∀ fuel failure t, modifyWindow fuel w modifications s = .thrown failure t →
      ¬failure.Traps → Intact s t) :
    PlacesSafely s w info modifications := by
  intro tmp rect requested sized hints parent
  by_cases placeable : modifications.placeable
  · exact .inl placeable
  right
  obtain ⟨n, enough⟩ := (acyclic tmp requested).enough
  have fails : (modifyWindow n w modifications).Ensures s (fun _ _ => False)
      (fun failure t => ¬failure.Traps ∧ Prepared w modifications tmp s t ∧
        t.rect w = rect) ((s.setInfo w tmp).Short n) := by
    apply ensures_modifyWindow integrity here
    · exact fun _ refused => absurd requested (refused tmp)
    · rintro tmp' t requested' prepared
      obtain rfl := requested.det requested'
      exact prepared.short
    · rintro tmp' t failure requested' - unsized
      obtain rfl := requested.det requested'
      rw [sized] at unsized
      contradiction
    · rintro tmp' t failure rect' requested' prepared sized' placed - unplaced
      obtain rfl := requested.det requested'
      obtain rfl := Except.ok.inj (sized.symm.trans sized')
      exact ⟨placementRect_throws failure unplaced, prepared, placed⟩
    · rintro tmp' t rect' requested' - - - ⟨u, placed, undisturbed, ok, -⟩
      obtain rfl := requested.det requested'
      have places := placementRect_ok_iff.mp ⟨placed, ok⟩ hints
      rw [undisturbed.lock] at places
      exact absurd (places parent) placeable
  obtain ⟨failure, t, thrown, exception, prepared, placed⟩ := fails.throws (enough n (Nat.le_refl n))
  exact (atomic n failure t thrown exception).idle here requested prepared placed

end Fails

theorem idle_swept :
    Idle s.swept w info tmp modifications rect ↔ Idle s w info tmp modifications rect :=
  ⟨fun idle => ⟨idle.record, idle.still, idle.adorned⟩,
    fun idle => ⟨idle.record, idle.still, idle.adorned⟩⟩

theorem placesSafely_swept :
    PlacesSafely s.swept w info modifications ↔ PlacesSafely s w info modifications := by
  constructor
  · intro safe tmp rect requested sized hints parent
    exact (safe tmp rect (requested_swept.mpr requested) sized hints parent).imp_right idle_swept.mp
  · intro safe tmp rect requested sized hints parent
    exact (safe tmp rect (requested_swept.mp requested) sized hints parent).imp_right idle_swept.mpr

/-- Exactly when a failure of `modify_window` leaves everything as it was. -/
theorem modify_window_all_or_nothing (reachable : Reachable (fun s op => op.Contract s) s)
    (here : s.info? w = some info) :
    (PlacesSafely s w info modifications → AllOrNothing s w modifications) ∧
    ((∀ tmp, Requested s modifications info tmp → (s.setInfo w tmp).Acyclic) →
      AllOrNothing s w modifications → PlacesSafely s w info modifications) := by
  have integrity := reachable.integrity
  constructor
  · intro safe fuel failure t thrown exception
    have intact := (ensures_allOrNothing integrity.swept here
      (placesSafely_swept.mpr safe)).thrown thrown exception
    exact ⟨intact.infos, intact.looks, intact.fullscreen, intact.mru⟩
  · intro acyclic atomic
    refine placesSafely_swept.mp (placesSafely_of_intact integrity.swept here ?_ ?_)
    · intro tmp requested
      exact acyclic tmp (requested_swept.mp requested)
    · intro fuel failure t thrown exception
      have intact := atomic fuel failure t thrown exception
      exact ⟨intact.infos, intact.looks, intact.fullscreen, intact.mru⟩

/-- A request that renames a dialog and asks for a place without saying which. -/
def WindowSpecification.misplaced : WindowSpecification where
  name := some "renamed"
  placementHints := some .flipAny

theorem modify_window_all_or_nothing_dialog :
    AllOrNothing dialogState ⟨1, 2⟩ (.ofSurfaceSpecification .beside) := by
  obtain ⟨info, here⟩ : ∃ info, dialogState.info? ⟨1, 2⟩ = some info :=
    Option.isSome_iff_exists.mp (by decide +kernel)
  have placeable : (WindowSpecification.ofSurfaceSpecification .beside).placeable := by decide
  exact (modify_window_all_or_nothing (reachable_dialogState.mono fun _ _ h => h.1) here).1
    fun _ _ _ _ _ _ => .inl placeable

theorem AllOrNothing.name {failure : Failure} {name : Option String}
    (atomic : AllOrNothing s w modifications)
    (outcome : ((Op.modifyWindow w modifications).run fuel s).thrown?.map
      (fun (failure, t) => (failure, (t.info? w).map WindowInfo.name)) = some (failure, name))
    (exception : ¬failure.Traps) : (s.info? w).map WindowInfo.name = name := by
  obtain ⟨⟨_, t⟩, run, eq⟩ := Option.map_eq_some_iff.mp outcome
  obtain ⟨rfl, rfl⟩ := Prod.mk.inj eq
  rw [(atomic fuel _ t (Outcome.thrown?_eq_some.mp run) exception).infos]

/-- The dialog keeps its new name although the request has failed. -/
theorem modify_window_all_or_nothing_fails :
    ¬∀ s w info modifications, Reachable (fun s op => op.Contract s) s →
      s.info? w = some info → AllOrNothing s w modifications := by
  intro claim
  obtain ⟨info, here⟩ : ∃ info, dialogState.info? ⟨1, 2⟩ = some info :=
    Option.isSome_iff_exists.mp (by decide +kernel)
  have reachable := reachable_dialogState.mono fun _ _ h => h.1
  have outcome : ((Op.modifyWindow ⟨1, 2⟩ .misplaced).run 12 dialogState).thrown?.map
      (fun (failure, t) => (failure, (t.info? ⟨1, 2⟩).map WindowInfo.name)) =
        some (.unsetOptional, some "renamed") := by decide +kernel
  have same := (claim dialogState ⟨1, 2⟩ info .misplaced reachable here).name outcome (by decide)
  exact absurd same (by decide +kernel)

end Miral
