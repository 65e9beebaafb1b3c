import Miral.NewRecord
import Miral.InitialPlacement

/-! The rectangle of a window that becomes fullscreen, against the one `fullscreen_rect_for` has
for it from then on. A new window is placed on the output it asks for, a window that changes its
state on the output it has had before. -/
namespace Miral

open Program Prog Forest Model

/-- The outputs do not change: `place_in_output` finds those that exist, and what
`size_to_output` has made fit stays. -/
structure DisplayLayout.Fixed (layout : DisplayLayout) (outputs : Int → Option Rectangle) : Prop where
  places : ∀ id rect, layout.placeInOutput id rect = outputs id
  fits : ∀ rect, layout.sizeToOutput (layout.sizeToOutput rect) = layout.sizeToOutput rect

/-- `fullscreen_rect_for` on fixed outputs. -/
def DisplayLayout.areaFor (layout : DisplayLayout) (outputs : Int → Option Rectangle)
    (outputId : Option Int) (rect : Rectangle) : Rectangle :=
  (outputId.bind outputs).getD (layout.sizeToOutput rect)

/-- A window has the rectangle `fullscreen_rect_for` finds for its record. -/
def Model.Settled (s : Model) (w : Window) : Prop :=
  ∀ info, s.info? w = some info → s.fullscreenRectFor w info = s.rect w

/-- Where all windows are once `w` has been given a rectangle. -/
def Model.movedRect (s : Model) (depth : Nat) (w : Window) (rect : Rectangle) (v : Window) :
    Rectangle :=
  if v = w then rect
  else if (level s.parentOf depth w v).isSome then
    ⟨s.topLeft v + (rect.topLeft - s.topLeft w), s.size v⟩
  else s.rect v

section Creation

def Model.outputRect (s : Model) (outputs : Int → Option Rectangle)
    (params : SurfaceCreationParameters) : Except Failure Rectangle :=
  let base := (outputs params.outputId).getD ⟨params.topLeft, params.size⟩
  match s.lock params.parent with
  | some parent =>
    if params.auxRect.isSome ∧
        (WindowSpecification.ofCreationParameters params).placementHints.isSome then
      placeRelative s.activeDisplay (s.rect parent)
        { WindowSpecification.ofCreationParameters params with size := some base.size } base.size
    else .ok ⟨centredIn (s.rect parent) base.size params.size.height, base.size⟩
  | none => .ok base

/-- The output a new window asks for is where it ends up. -/
def Model.SettlesNew (s : Model) (outputs : Int → Option Rectangle)
    (params : SurfaceCreationParameters) : Prop :=
  ∀ rect, s.outputRect outputs params = .ok rect →
    s.displayLayout.areaFor outputs (some params.outputId) rect = rect

end Creation

/-- A window that is told to be fullscreen is already where its next output is, or is put there by
its placement hints. -/
structure SettlesAsked (outputs : Int → Option Rectangle) (s : Model) (w : Window)
    (info : WindowInfo) (modifications : WindowSpecification) : Prop where
  unhinted : s.Unhinted info modifications → ∀ id, modifications.outputId = some id →
    s.displayLayout.areaFor outputs (some id)
        (s.displayLayout.areaFor outputs info.outputId (s.rect w)) =
      s.displayLayout.areaFor outputs info.outputId (s.rect w)
  hinted : ¬s.Unhinted info modifications →
    Rooted (s.asked w info modifications).parentOf w ∧
    ∀ placed, s.placementAsked movedRect w info { modifications with
        topLeft := some (s.displayLayout.areaFor outputs info.outputId (s.rect w)).topLeft
        size := some (s.displayLayout.areaFor outputs info.outputId (s.rect w)).size }
        (s.displayLayout.areaFor outputs info.outputId (s.rect w)) = .ok (some placed) →
      s.displayLayout.areaFor outputs (modifications.outputId.or info.outputId) placed = placed

variable {s t : Model} {w v : Window} {info : WindowInfo} {fuel depth : Nat} {rect : Rectangle}
  {outputs : Int → Option Rectangle}

theorem fullscreenRectFor_fixed (fixed : s.displayLayout.Fixed outputs) :
    s.fullscreenRectFor w info = s.displayLayout.areaFor outputs info.outputId (s.rect w) := by
  unfold fullscreenRectFor DisplayLayout.areaFor
  cases info.outputId with
  | none => rfl
  | some id =>
    rw [Option.bind_some, Option.bind_some, fixed.places]
    cases outputs id <;> rfl

theorem areaFor_again {layout : DisplayLayout} (fixed : layout.Fixed outputs) {id : Option Int} :
    layout.areaFor outputs id (layout.areaFor outputs id rect) = layout.areaFor outputs id rect := by
  unfold DisplayLayout.areaFor
  cases id.bind outputs with
  | none => exact fixed.fits rect
  | some area => rfl

section Canonical

/-- Windows are placed as they are told, and take their trees along. -/
theorem places_canonical : Places (placeAndSize fuel) movedRect fun _ _ rect placed =>
    placed = rect where
  ensures s w rect integrity live := by
    have base : (placeAndSize fuel w rect.topLeft rect.size).Ensures s _ _ _ :=
      ensures_placeAndSize integrity live rect.topLeft rect.size
    refine (base.under fun rooted : Rooted s.parentOf w =>
      ensures_placeAndSize_placed integrity rooted live rect).mono ?_ (fun _ _ h => h)
      fun _ => trivial
    intro _ t after
    rcases after with ⟨⟨moved, there, -⟩, followed⟩
    refine ⟨moved, fun rooted depth bound => funext fun v => ?_, there⟩
    have placed := followed rooted
    unfold movedRect
    by_cases eq : v = w
    · rw [if_pos eq, eq, there]
    · rw [if_neg eq]
      split
      · rename_i below
        obtain ⟨n, found⟩ := Option.isSome_iff_exists.mp below
        have reached := climb_of_level found
        have alive : s.Live v := by
          cases link : s.parentOf v with
          | some p => exact (integrity.live v).mpr (managed_of_parentOf link)
          | none =>
            have same : w = v := Above.eq_of_root link ⟨n, reached⟩
            exact absurd same.symm eq
        rw [Model.rect, placed.carried v ⟨n, reached⟩ alive, placed.sizes v eq]
      · rename_i apart
        exact moved.rect_outside
          (not_above_of_level (bound v) (Option.not_isSome_iff_eq_none.mp apart))
  self _ _ _ _ := if_pos rfl
  parent s depth w rect p rooted link := by
    have apart := rooted.not_above_parent link
    unfold movedRect
    split
    · rename_i eq
      exact absurd (eq ▸ .refl) apart
    · split
      · rename_i below
        obtain ⟨n, found⟩ := Option.isSome_iff_exists.mp below
        exact absurd ⟨n, climb_of_level found⟩ apart
      · rfl
  idle s depth w := by
    funext v
    unfold movedRect
    split
    · rename_i eq
      rw [eq]
    · split
      · exact congrArg (Rectangle.mk · _)
          (Point.ext (by simp [Model.rect]) (by simp [Model.rect]))
      · rfl
  stays _ _ := rfl
  congr s t rects links _ := by
    have corner (v : Window) : t.topLeft v = s.topLeft v :=
      congrArg Rectangle.topLeft (congrFun rects v)
    have size (v : Window) : t.size v = s.size v := congrArg Rectangle.size (congrFun rects v)
    refine ⟨?_, rfl⟩
    funext depth w rect v
    simp only [movedRect, rects, links, corner, size]

end Canonical

section New

variable {app : ApplicationInfo} {params : SurfaceCreationParameters} {spec : WindowSpecification}

theorem placeOnOutput_output (app : ApplicationInfo) (parameters : WindowSpecification)
    (hasParent : Bool) {id : Int} {topLeft : Point} {size : Size}
    (fixed : s.displayLayout.Fixed outputs)
    (asks : parameters.outputId = some id) (ne : id ≠ 0) (there : parameters.topLeft = some topLeft)
    (sized : parameters.size = some size) :
    s.placeOnOutput app parameters hasParent = .ok ({ parameters with
      topLeft := some ((outputs id).getD ⟨topLeft, size⟩).topLeft
      size := some ((outputs id).getD ⟨topLeft, size⟩).size
      state := some .fullscreen }, true) := by
  unfold placeOnOutput
  dsimp only
  rw [asks, Option.getD_some, if_pos ne, there, sized]
  simp only [fixed.places, Failure.valueOf]
  rfl

/-- The second group of branches, for a window that has a size. -/
theorem placeOnParent_ok {parameters : WindowSpecification} {p : Window} {size : Size}
    {height : Int} (sized : parameters.size = some size)
    (placed : s.placeOnParent p parameters height = .ok spec) :
    ∃ rect, (if parameters.auxRect.isSome ∧ parameters.placementHints.isSome then
        placeRelative s.activeDisplay (s.rect p) parameters size
      else .ok ⟨centredIn (s.rect p) size height, size⟩) = .ok rect ∧
      spec.topLeft = some rect.topLeft ∧ spec.size = some rect.size ∧
      spec.outputId = parameters.outputId ∧ spec.state = parameters.state := by
  unfold placeOnParent at placed
  split at placed
  · contradiction
  rw [sized, Failure.valueOf] at placed
  change (if _ then _ else _ : Except Failure WindowSpecification) = _ at placed
  split at placed
  · rename_i hinted
    rw [if_pos hinted]
    cases found : placeRelative s.activeDisplay (s.rect p) parameters size with
    | error failure =>
      rw [found] at placed
      contradiction
    | ok rect =>
      rw [found] at placed
      obtain rfl := Except.ok.inj placed
      exact ⟨rect, rfl, rfl, rfl, rfl, rfl⟩
  · rename_i unhinted
    rw [if_neg unhinted]
    obtain rfl := Except.ok.inj placed
    exact ⟨_, rfl, rfl, rfl, rfl, rfl⟩

/-- A new window that asks for an output is fullscreen, and goes where that and its parent put it. -/
theorem placeNewSurface_output (fixed : s.displayLayout.Fixed outputs) (asks : params.outputId ≠ 0)
    (placed : s.placeNewSurface app (.ofCreationParameters params) = .ok spec) :
    ∃ rect, s.outputRect outputs params = .ok rect ∧ spec.topLeft = some rect.topLeft ∧
      spec.size = some rect.size ∧ spec.outputId = some params.outputId ∧
      spec.state = some .fullscreen := by
  obtain ⟨size, topLeft, output, parent, auxRect⟩ :=
    WindowSpecification.ofCreationParameters_fields params
  have value : Failure.valueOf (WindowSpecification.ofCreationParameters params).size =
      .ok params.size := by rw [size, Failure.valueOf]
  unfold placeNewSurface at placed
  dsimp only at placed
  rw [value, parent, Option.getD_some] at placed
  have first := placeOnOutput_output app { WindowSpecification.ofCreationParameters params with
    type := some ((WindowSpecification.ofCreationParameters params).type.getD .normal)
    state := some ((WindowSpecification.ofCreationParameters params).state.getD .restored) }
    (s.lock params.parent).isSome fixed output asks topLeft size
  dsimp only at first
  rw [parent] at first
  simp only [bind, Except.bind] at placed
  rw [first] at placed
  unfold outputRect
  cases locked : s.lock params.parent with
  | none =>
    rw [locked] at placed
    obtain rfl := Except.ok.inj placed
    exact ⟨_, rfl, rfl, rfl, output, rfl⟩
  | some p =>
    rw [locked] at placed
    obtain ⟨rect, found, there, sized, same, full⟩ := placeOnParent_ok rfl placed
    refine ⟨rect, ?_, there, sized, same.trans output, full⟩
    rw [← found]
    dsimp only
    rw [auxRect]
    rfl

variable {session : Application} {surface : Nat}

/-- A new window is settled if and only if it ends up on the output it asks for. -/
theorem settled_new_iff (fixed : s.displayLayout.Fixed outputs) (asks : params.outputId ≠ 0)
    (run : addSurface fuel session params surface s = .returned () t) :
    t.stateOf ⟨session, surface⟩ = some .fullscreen ∧
      (t.Settled ⟨session, surface⟩ ↔ s.SettlesNew outputs params) := by
  obtain ⟨app, spec, placed, there, layout, info, here, output, state⟩ :=
    ensures_addSurface_filed.returned run
  obtain ⟨rect, found, topLeft, size, output', state'⟩ := placeNewSurface_output fixed asks placed
  rw [topLeft, size, Option.getD_some, Option.getD_some] at there
  rw [output'] at output
  rw [state', Option.getD_some] at state
  have full : t.fullscreenRectFor ⟨session, surface⟩ info =
      s.displayLayout.areaFor outputs (some params.outputId) rect := by
    rw [fullscreenRectFor_fixed (layout ▸ fixed), output, there, layout]
  refine ⟨by rw [stateOf_eq here, state], ?_⟩
  constructor
  · intro settled rect' found'
    obtain rfl := Except.ok.inj (found.symm.trans found')
    rw [← full, settled info here, there]
  · intro settles info' here'
    obtain rfl := Option.some.inj (here.symm.trans here')
    rw [full, there]
    exact settles rect found

end New

section Request

variable {modifications : WindowSpecification}

/-- A request makes a window fullscreen, or moves a fullscreen window to another output. -/
def WindowInfo.Becomes (info : WindowInfo) (modifications : WindowSpecification) : Prop :=
  modifications.state = some .fullscreen ∧ (info.state ≠ .fullscreen ∨
    ∃ id, modifications.outputId = some id ∧ info.outputId ≠ some id)

theorem placedForState_becomes (becomes : info.Becomes modifications) :
    info.placedForState modifications .fullscreen = false := by
  obtain ⟨-, changes⟩ := becomes
  unfold WindowInfo.placedForState
  split
  · rfl
  · rename_i same
    rcases changes with other | ⟨id, asks, ne⟩
    · simpa using Ne.symm other
    · refine absurd ⟨rfl, by simp [asks], .inr ?_⟩ same
      rw [asks]
      exact Ne.symm ne

theorem placeAndSizeForState_becomes (fixed : s.displayLayout.Fixed outputs)
    (becomes : info.Becomes modifications) :
    s.placeAndSizeForState modifications w info = { modifications with
      topLeft := some (s.displayLayout.areaFor outputs info.outputId (s.rect w)).topLeft
      size := some (s.displayLayout.areaFor outputs info.outputId (s.rect w)).size } := by
  unfold placeAndSizeForState
  rw [becomes.1]
  dsimp only
  rw [if_neg (by simp [placedForState_becomes becomes])]
  simp only [rectForState, fullscreenRectFor_fixed fixed]

/-- A window that becomes fullscreen is settled as far as its outputs and hints go together. -/
theorem settled_asked_iff (integrity : s.Integrity) (fixed : s.displayLayout.Fixed outputs)
    (here : s.info? w = some info) (becomes : info.Becomes modifications)
    (run : handleRequest fuel w modifications s = .returned () t) :
    t.stateOf w = some .fullscreen ∧
      (SettlesAsked outputs s w info modifications → t.Settled w) ∧
      (Rooted (s.asked w info modifications).parentOf w → t.Settled w →
        SettlesAsked outputs s w info modifications) := by
  let now := s.displayLayout.areaFor outputs info.outputId (s.rect w)
  let request : WindowSpecification :=
    { modifications with topLeft := some now.topLeft, size := some now.size }
  have ensures : (handleRequest fuel w modifications).Ensures s
      (fun _ t => ∃ rect, Answered movedRect (fun _ _ rect placed => placed = rect) s w info request
        rect t) (fun _ _ => True) True := by
    rw [handleRequest, ensures_bind, ensures_infoFor_here here, ensures_bind, ensures_state,
      ensures_bind, ensures_ofExcept]
    refine ⟨fun _ valid => ?_, fun _ _ => trivial⟩
    rw [applyRequest, ensures_bind, ensures_infoFor_here here, ensures_bind, ensures_state,
      placeAndSizeForState_becomes fixed becomes, modifyWindow_eq]
    have alone := orphan_of_valid valid
    exact places_canonical.ensures_modifyWindow integrity here alone
  obtain ⟨rect, answered⟩ := ensures.returned run
  obtain rfl : now = rect := Except.ok.inj answered.sized
  obtain ⟨restoreRect, children, record⟩ := answered.record
  have asked : s.asked w info request = s.asked w info modifications := rfl
  have unhinted : s.Unhinted info request = s.Unhinted info modifications := rfl
  have arrives := answered.placed
  rw [asked] at arrives
  have output : (info.requestedBy request).outputId = modifications.outputId.or info.outputId := rfl
  have settled : t.Settled w ↔ s.displayLayout.areaFor outputs
      (modifications.outputId.or info.outputId) (t.rect w) = t.rect w := by
    have full (info' : WindowInfo) : t.fullscreenRectFor w info' = _ :=
      fullscreenRectFor_fixed (answered.displayLayout.symm ▸ fixed : t.displayLayout.Fixed outputs)
    simp only [Settled, full, answered.displayLayout, record, Option.some.injEq, forall_eq', output]
  refine ⟨by rw [stateOf_eq record, becomes.1]; rfl, ?_⟩
  rw [settled]
  by_cases idle : s.Unhinted info modifications
  · have there : t.rect w = now := answered.unhinted idle
    rw [there]
    constructor
    · intro settles
      cases asks : modifications.outputId with
      | some id => exact settles.unhinted idle id asks
      | none => exact areaFor_again fixed
    · intro _ same
      refine ⟨fun _ id asks => ?_, fun hinted => absurd idle hinted⟩
      rw [asks] at same
      exact same
  · constructor
    · intro settles
      obtain ⟨rooted, fits⟩ := settles.hinted idle
      obtain ⟨placed, found, there⟩ := arrives rooted
      obtain ⟨placement, rfl⟩ := placementAsked_hinted (unhinted ▸ idle) found
      rw [there]
      exact fits placement found
    · intro rooted same
      obtain ⟨placed, found, there⟩ := arrives rooted
      rw [there] at same
      refine ⟨fun unhinted => absurd unhinted idle, fun _ => ⟨rooted, fun placement ok => ?_⟩⟩
      have here := found.symm.trans ok
      obtain rfl := Except.ok.inj here
      exact same

end Request

/-- A later recomputation leaves a fullscreen window in place if and only if it is settled. -/
theorem unmoved_iff {order : List Window} {added : Bool} {area : Rectangle}
    (integrity : s.Integrity) (acyclic : s.Acyclic) (full : w ∈ s.fullscreenSurfaces)
    (alone : ∀ a ∈ s.fullscreenSurfaces, Above s.parentOf a w → a = w)
    (enumerated : s.Enumerated order)
    (run : (Op.displayChange added area s.displayLayout order).run fuel s = .returned () t) :
    t.rect w = s.rect w ↔ s.Settled w := by
  obtain ⟨displays, same⟩ := displayChange_run s added area s.displayLayout
  rw [same] at run
  have start : Placing { s.swept with displayLayout := s.displayLayout, displays } (order ++ [])
      { s.swept with displayLayout := s.displayLayout, displays } :=
    .start (integrity.relaid _ displays) fun v member => by
      simpa using (enumerated.2 v).mpr member
  have placing := (ensures_placeFullscreen_placing (integrity.relaid _ displays)
    acyclic (by simpa using enumerated.1) (fun v => (enumerated.2 v).mp) start).returned run
  obtain ⟨info, here⟩ := integrity.info_of_live (integrity.live_fullscreen full)
  have there : t.rect w = s.fullscreenRectFor w info :=
    placing.settled w full (fun a member above apart => absurd (alone a member above) apart)
      (by simp) info here
  rw [there]
  constructor
  · intro unmoved info' here'
    obtain rfl := Option.some.inj (here.symm.trans here')
    exact unmoved
  · exact fun settled => settled info here

/-- A window that becomes fullscreen is settled if and only if its parent leaves it on the output
it is created on, and the output it asks for is the one it has been placed on. -/
theorem fullscreen_geometry_settles (integrity : s.Integrity)
    (fixed : s.displayLayout.Fixed outputs) :
    (∀ session params surface fuel t, params.outputId ≠ 0 →
      addSurface fuel session params surface s = .returned () t →
      t.stateOf ⟨session, surface⟩ = some .fullscreen ∧
        (t.Settled ⟨session, surface⟩ ↔ s.SettlesNew outputs params)) ∧
    (∀ w info modifications fuel t, s.info? w = some info → info.Becomes modifications →
      handleRequest fuel w modifications s = .returned () t →
      t.stateOf w = some .fullscreen ∧
        (SettlesAsked outputs s w info modifications → t.Settled w) ∧
        (Rooted (s.asked w info modifications).parentOf w → t.Settled w →
          SettlesAsked outputs s w info modifications)) ∧
    ∀ w added area order fuel t, s.Acyclic → w ∈ s.fullscreenSurfaces →
      (∀ a ∈ s.fullscreenSurfaces, Above s.parentOf a w → a = w) → s.Enumerated order →
      (Op.displayChange added area s.displayLayout order).run fuel s = .returned () t →
      (t.rect w = s.rect w ↔ s.Settled w) := by
  refine ⟨?_, ?_, ?_⟩
  · intro _ _ _ _ _ asks run
    exact settled_new_iff fixed asks run
  · intro _ _ _ _ _ here becomes run
    exact settled_asked_iff integrity fixed here becomes run
  · intro _ _ _ _ _ _ acyclic full alone enumerated run
    exact unmoved_iff integrity acyclic full alone enumerated run

theorem DisplayLayout.fixed_two :
    (DisplayLayout.two ⟨320, 0⟩).Fixed (twoOutputs ⟨320, 0⟩) where
  places _ _ := rfl
  fits rect := by
    have known : [1, 2].filterMap (twoOutputs ⟨320, 0⟩) =
      [⟨⟨320, 0⟩, ⟨640, 480⟩⟩, ⟨⟨0, 0⟩, ⟨320, 240⟩⟩] := by decide
    simp only [two, of, known]
    cases found : List.find? (·.containsPoint rect.topLeft)
      [(⟨⟨320, 0⟩, ⟨640, 480⟩⟩ : Rectangle), ⟨⟨0, 0⟩, ⟨320, 240⟩⟩] with
    | none => rw [Option.getD_none, found, Option.getD_none]
    | some area =>
      have listed := List.mem_of_find?_eq_some found
      simp only [List.mem_cons, List.not_mem_nil, or_false] at listed
      obtain rfl | rfl := listed <;> rfl

def Op.twoOutputsRun : List Op := Op.twoDisplays ++
  [.addSession 1, .addSurface 1 { size := ⟨100, 80⟩ } 1]

def Model.twoOutputsState : Model :=
  (Op.follow 12 (fun s op => op.Contract s ∧ op.asksParent = false) Op.twoOutputsRun
    (.initial .latest (.two ⟨320, 0⟩))).get (by decide +kernel)

theorem reachable_twoOutputsState :
    Reachable (fun s op => op.Contract s ∧ op.asksParent = false) twoOutputsState :=
  (Reachable.initial _ _).follow (Option.some_get _).symm

theorem fixed_twoOutputsState : twoOutputsState.displayLayout.Fixed (twoOutputs ⟨320, 0⟩) :=
  DisplayLayout.fixed_two

theorem restored_twoOutputsState :
    ∃ info, twoOutputsState.info? ⟨1, 1⟩ = some info ∧ info.state = .restored := by
  have state : twoOutputsState.stateOf ⟨1, 1⟩ = some .restored := by decide +kernel
  exact Option.map_eq_some_iff.mp state

/-- The output that is asked for is the one the window stands on. -/
theorem fullscreen_geometry_settles_named : ∃ t,
    handleRequest 5 ⟨1, 1⟩ { state := some .fullscreen, outputId := some 1 } twoOutputsState =
      .returned () t ∧ t.Settled ⟨1, 1⟩ := by
  have integrity : twoOutputsState.Integrity :=
    (reachable_twoOutputsState.mono fun _ _ h => h.1).integrity
  obtain ⟨info, here, restored⟩ := restored_twoOutputsState
  have unplaced : (twoOutputsState.info? ⟨1, 1⟩).map WindowInfo.outputId = some (some 0) := by
    decide +kernel
  have areas : twoOutputsState.displayLayout.areaFor (twoOutputs ⟨320, 0⟩) (some 1)
      (twoOutputsState.displayLayout.areaFor (twoOutputs ⟨320, 0⟩) (some 0)
        (twoOutputsState.rect ⟨1, 1⟩)) =
      twoOutputsState.displayLayout.areaFor (twoOutputs ⟨320, 0⟩) (some 0)
        (twoOutputsState.rect ⟨1, 1⟩) := by decide +kernel
  have returns : (handleRequest 5 ⟨1, 1⟩ { state := some .fullscreen, outputId := some 1 }
      twoOutputsState).returned?.isSome := by decide +kernel
  obtain ⟨t, returned⟩ := Option.isSome_iff_exists.mp returns
  obtain ⟨_, run⟩ := Outcome.returned?_eq_some.mp returned
  obtain ⟨-, requests, -⟩ := fullscreen_geometry_settles integrity fixed_twoOutputsState
  obtain ⟨-, settles, -⟩ := requests ⟨1, 1⟩ info { state := some .fullscreen, outputId := some 1 } 5
    t here ⟨rfl, .inl (by simp [restored])⟩ run
  refine ⟨t, run, settles ⟨fun _ id asks => ?_, fun hinted => absurd (.inl rfl) hinted⟩⟩
  obtain rfl := Option.some.inj asks
  rw [here, Option.map_some, Option.some.injEq] at unplaced
  rw [unplaced]
  exact areas

/-- The output a window asks for along with its state is not the one it is placed on. -/
theorem fullscreen_geometry_settles_fails : ¬∀ (s t : Model) outputs w info modifications fuel,
    s.Integrity → s.displayLayout.Fixed outputs → s.info? w = some info →
      info.Becomes modifications → handleRequest fuel w modifications s = .returned () t →
      t.Settled w := by
  intro claim
  have integrity : twoOutputsState.Integrity :=
    (reachable_twoOutputsState.mono fun _ _ h => h.1).integrity
  obtain ⟨info, here, restored⟩ := restored_twoOutputsState
  let run := handleRequest 5 ⟨1, 1⟩ { state := some .fullscreen, outputId := some 2 } twoOutputsState
  have returns : run.returned?.isSome := by decide +kernel
  obtain ⟨t, returned⟩ := Option.isSome_iff_exists.mp returns
  obtain ⟨_, ended⟩ := Outcome.returned?_eq_some.mp returned
  have settled := claim twoOutputsState t _ ⟨1, 1⟩ info _ 5 integrity fixed_twoOutputsState here
    ⟨rfl, .inl (by simp [restored])⟩ ended
  have off : run.returned?.any fun t => (t.info? ⟨1, 1⟩).any fun info =>
      t.fullscreenRectFor ⟨1, 1⟩ info ≠ t.rect ⟨1, 1⟩ := by decide +kernel
  rw [returned, Option.any_some] at off
  obtain ⟨record, there, apart⟩ := (Option.any_eq_true _ _).mp off
  exact of_decide_eq_true apart (settled record there)

end Miral
