import Miral.Reachability

/-! Sequences of state requests. A request for `hidden` takes the rectangle it finds for the
one to restore, as if the window were restored; everything else keeps the rectangle that
`restored` goes back to. The two axes of a rectangle are lost independently. -/
namespace Miral

open Program Prog Forest Model

def requestState (fuel : Nat) (w : Window) (value : WindowState) : Manager Unit :=
  applyRequest fuel w { state := some value }

def requestStates (fuel : Nat) (w : Window) (requests : List WindowState) : Manager Unit :=
  Prog.forEach (requestState fuel w) requests

inductive Axis where
  | horizontal | vertical
  deriving DecidableEq

/-- Where a rectangle starts and how far it goes along an axis. -/
def Rectangle.extent (rect : Rectangle) : Axis → Int × Int
  | .horizontal => (rect.topLeft.x, rect.size.width)
  | .vertical => (rect.topLeft.y, rect.size.height)

theorem Rectangle.ext_extent {rect rect' : Rectangle}
    (same : ∀ axis, rect.extent axis = rect'.extent axis) : rect = rect' := by
  obtain ⟨⟨x, y⟩, ⟨width, height⟩⟩ := rect
  obtain ⟨⟨x', y'⟩, ⟨width', height'⟩⟩ := rect'
  have across := same .horizontal
  have down := same .vertical
  simp only [extent, Prod.mk.injEq] at across down
  obtain ⟨rfl, rfl⟩ := across
  obtain ⟨rfl, rfl⟩ := down
  rfl

def WindowState.shapes : WindowState → Bool
  | .restored | .maximized | .vertmaximized | .horizmaximized | .fullscreen => true
  | _ => false

def WindowState.stretches : Axis → WindowState → Bool
  | _, .maximized | _, .fullscreen => true
  | .horizontal, .horizmaximized => true
  | .vertical, .vertmaximized => true
  | _, _ => false

/-- Whether the rectangle to restore is taken from the window along an axis. -/
def WindowState.tracks : Axis → WindowState → Bool
  | _, .restored | _, .hidden => true
  | .horizontal, .vertmaximized => true
  | .vertical, .horizmaximized => true
  | _, _ => false

/-- Whether some request for `hidden` finds the window stretched along the axis; `shape` is
the state that last gave the window a rectangle. -/
def lossy (axis : Axis) : WindowState → WindowState → List WindowState → Bool
  | _, _, [] => false
  | state, shape, value :: rest =>
    (value = .hidden && state ≠ .hidden && shape.stretches axis) ||
      lossy axis value (if value.shapes then value else shape) rest

namespace Model

variable {s : Model} {w : Window} {info : WindowInfo} {value : WindowState} {axis : Axis}

def stateRect (s : Model) (w : Window) (info : WindowInfo) (value : WindowState) : Rectangle :=
  if info.state = value then s.rect w
  else (s.rectForState w info (info.currentRestoreRect (s.rect w)) value).getD (s.rect w)

theorem extent_currentRestoreRect (rect : Rectangle) :
    (info.currentRestoreRect rect).extent axis =
      if info.state.tracks axis then rect.extent axis else info.restoreRect.extent axis := by
  unfold WindowInfo.currentRestoreRect
  cases info.state <;> cases axis <;> rfl

/-- Along an axis that the new state does not stretch, the window is put where it is to be
restored to, or is left alone. -/
theorem extent_stateRect (changed : info.state ≠ value) (flat : value.stretches axis = false) :
    (s.stateRect w info value).extent axis =
      if value.shapes then (info.currentRestoreRect (s.rect w)).extent axis
      else (s.rect w).extent axis := by
  rw [stateRect, if_neg changed]
  cases value <;> cases axis <;> first | rfl | simp [WindowState.stretches] at flat

theorem stretches_shapes {state : WindowState} (stretched : state.stretches axis) :
    state.shapes := by
  cases state <;> cases axis <;> simp_all [WindowState.stretches, WindowState.shapes]

theorem tracks_of_shapes {state : WindowState} (shapes : state.shapes) :
    state.tracks axis = !state.stretches axis := by
  cases state <;> cases axis <;> simp_all [WindowState.stretches, WindowState.shapes,
    WindowState.tracks]

theorem tracks_of_not_shapes {state : WindowState} (shapeless : state.shapes = false)
    (tracked : state.tracks axis) : state = .hidden := by
  cases state <;> cases axis <;> simp_all [WindowState.shapes, WindowState.tracks]

theorem placedForState_state :
    info.placedForState { state := some value } value = decide (value = info.state) := by
  rw [WindowInfo.placedForState, if_neg (by simp)]

theorem requestedRect_placed :
    s.requestedRect w info (s.placeAndSizeForState { state := some value } w info) =
      .ok (s.stateRect w info value) := by
  unfold placeAndSizeForState stateRect
  dsimp only
  rw [placedForState_state]
  by_cases same : info.state = value
  · rw [if_pos (by simp [same]), if_pos same]
    rfl
  · rw [if_neg (by simp [Ne.symm same]), if_neg same]
    split
    · rename_i rect found
      change s.rectForState w info (info.currentRestoreRect (s.rect w)) value = some rect at found
      rw [found]
      rfl
    · rename_i missing
      change s.rectForState w info (info.currentRestoreRect (s.rect w)) value = none at missing
      rw [missing]
      rfl

end Model

variable {s : Model} {w : Window} {info : WindowInfo} {value : WindowState} {fuel : Nat}

theorem requestedBy_state {topLeft : Option Point} {size : Option Size} :
    info.requestedBy { state := some value, topLeft := topLeft, size := size } = info := rfl

theorem requested_state {topLeft : Option Point} {size : Option Size} {tmp : WindowInfo} :
    Requested s { state := some value, topLeft := topLeft, size := size } info tmp ↔
      tmp = info := by
  constructor
  · intro requested
    have ok := requested.checked
    rw [requestedBy_state, WindowInfo.checkMorph, if_pos rfl] at ok
    exact (Except.ok.inj ok).symm
  · rintro rfl
    refine ⟨fun weak asks => by simp at asks, ?_⟩
    rw [requestedBy_state, WindowInfo.checkMorph, if_pos rfl]

/-- `t` shows the window with this rectangle and this record, on the outputs and in the trees
of `s`. -/
structure Standing (s : Model) (w : Window) (rect : Rectangle) (info : WindowInfo) (t : Model) :
    Prop where
  integrity : t.Integrity
  parents : ∀ v, t.parentOf v = s.parentOf v
  displays : t.displays = s.displays
  displayLayout : t.displayLayout = s.displayLayout
  rect : t.rect w = rect
  record : t.info? w = some info

theorem closed_standing {rect : Rectangle} : FocusClosed (Standing s w rect info) where
  integrity _ h := h.integrity
  selected _ _ _ h focusable _ :=
    ⟨h.integrity.focusOn focusable.managed, h.parents, h.displays, h.displayLayout, h.rect,
      h.record⟩
  next _ h :=
    ⟨h.integrity.sameStructure sameStructure_nextFocus h.integrity.mru, h.parents, h.displays,
      h.displayLayout, h.rect, h.record⟩

namespace Standing

variable {t : Model} {rect : Rectangle}

theorem unfocus (h : Standing s w rect info t) : Standing s w rect info (t.unfocus none) := by
  have integrity : (t.unfocus none).Integrity := h.integrity.unfocus
  revert integrity
  unfold Model.unfocus
  split
  · exact fun integrity =>
      ⟨integrity, h.parents, h.displays, h.displayLayout, h.rect, h.record⟩
  · exact fun _ => h

theorem marked (h : Standing s w rect info t) :
    Standing s w rect info (t.markFullscreen w info.state) := by
  have integrity := h.integrity.marked h.record
  rw [markFullscreen_eq] at integrity ⊢
  exact ⟨integrity, h.parents, h.displays, h.displayLayout, h.rect, h.record⟩

theorem entered (h : Standing s w rect info t) :
    Standing s w rect { info with state := value } (t.entered w info value) where
  integrity := h.integrity.entered h.record value
  parents v := (parentOf_entered h.record).trans (h.parents v)
  displays := by
    rw [Model.entered, markFullscreen_eq]
    exact h.displays
  displayLayout := by
    rw [Model.entered, markFullscreen_eq]
    exact h.displayLayout
  rect := by
    rw [← h.rect]
    simp [Model.rect, Model.topLeft, Model.size]
  record := by simp

theorem drawn (h : Standing s w rect info t) {hidden : Bool} :
    Standing s w rect info (t.drawn w value hidden) where
  integrity := h.integrity.drawn
  parents v := (sameStructure_drawn.parents v).trans (h.parents v)
  displays := by
    rw [Model.drawn, configure_eq, configure_eq]
    exact h.displays
  displayLayout := by
    rw [Model.drawn, configure_eq, configure_eq]
    exact h.displayLayout
  rect := by
    rw [← h.rect]
    cases here : t.surface? w <;> simp [Model.drawn, Model.rect, Model.topLeft, Model.size, here]
  record := by simpa [Model.drawn] using h.record

theorem setState (h : Standing s w rect info t) :
    (setState fuel w value).Ensures t
      (fun _ u => Standing s w rect { info with state := value } u) (fun _ _ => False)
      (t.Short fuel) := by
  have live := (h.integrity.live w).mpr (managed_iff.mpr ⟨info, h.record⟩)
  refine closed_standing.setState (fun u h => h.unfocus) h.record live ?_ h.entered
    fun u hidden h => h.drawn
  rintro rfl
  exact h.marked

end Standing

/-- One request for a state: it never throws, and needs fuel only for the trees. -/
theorem ensures_requestState (integrity : s.Integrity) (here : s.info? w = some info)
    (value : WindowState) :
    (requestState fuel w value).Ensures s
      (fun _ t => ∃ children, Standing s w (s.stateRect w info value)
        { s.cachedInfo w info (some value) with state := value, children := children } t)
      (fun _ _ => False) (s.Short fuel) := by
  rw [requestState, applyRequest, ensures_bind, ensures_infoFor_here here,
    ensures_bind, ensures_state]
  have sized : s.requestedRect w info (s.placeAndSizeForState { state := some value } w info) =
    .ok (s.stateRect w info value) := requestedRect_placed
  revert sized
  obtain ⟨topLeft, size, placed⟩ := s.placeAndSizeForState_eq { state := some value } w info
  rw [placed]
  intro sized
  have unplaced (u : Model) : u.placementRect w info
      { state := some value, topLeft := topLeft, size := size } = .ok none := rfl
  apply ensures_modifyWindow integrity here
  · exact fun _ refused => refused info (requested_state.mpr rfl)
  · intro tmp t requested prepared
    obtain rfl := requested_state.mp requested
    exact Short.congr fun _ => prepared.parents_kept (parentOf_eq here).symm
  · intro tmp t failure requested _ unset
    obtain rfl := requested_state.mp requested
    rw [sized] at unset
    contradiction
  · intro tmp t failure rect requested _ _ _ _ unset
    obtain rfl := requested_state.mp requested
    rw [unplaced] at unset
    contradiction
  · intro tmp t rect requested prepared found placed _
    obtain rfl := requested_state.mp requested
    obtain rfl := Except.ok.inj (sized.symm.trans found)
    have parents (v : Window) : t.parentOf v = s.parentOf v :=
      prepared.parents_kept (parentOf_eq here).symm
    have standing : Standing s w (s.stateRect w tmp value) _ t :=
      ⟨prepared.integrity, parents, prepared.undisturbed.displays,
        prepared.undisturbed.displayLayout, placed rfl, prepared.record⟩
    rw [ensures_bind]
    have stated : (setState fuel w value).Ensures t _ _ _ := standing.setState
    exact stated.mono (fun _ u h => ⟨_, h⟩) (fun _ _ h => h) (Short.congr parents)

theorem ensures_requestStates (property : List WindowState → Model → WindowInfo → Prop)
    (step : ∀ t info value rest u children, property (value :: rest) t info →
      Standing t w (t.stateRect w info value)
        { t.cachedInfo w info (some value) with state := value, children := children } u →
      property rest u
        { t.cachedInfo w info (some value) with state := value, children := children })
    {requests : List WindowState} (integrity : s.Integrity) (here : s.info? w = some info)
    (initial : property requests s info) :
    (requestStates fuel w requests).Ensures s
      (fun _ t => ∃ info, t.info? w = some info ∧ property [] t info) (fun _ _ => False)
      (s.Short fuel) := by
  induction requests generalizing s info with
  | nil => exact ⟨info, here, initial⟩
  | cons value rest ih =>
    apply (ensures_requestState integrity here value).bind
    intro _ t after
    rcases after with ⟨children, standing⟩
    exact (ih standing.integrity standing.record
      (step s info value rest t children initial standing)).mono (fun _ _ h => h) (fun _ _ h => h)
      (Short.congr standing.parents)

section Axes

variable {axis : Axis} {extent : Int × Int} {shape : WindowState} {children : List Window}

theorem shape_kept (own : info.state.shapes → shape = info.state) :
    (if info.state.shapes then info.state else shape) = shape := by
  split
  · rename_i shapes
    exact (own shapes).symm
  · rfl

/-- The extent to restore is still known, and the window still has it unless it is stretched. -/
structure Keeps (axis : Axis) (extent : Int × Int) (shape : WindowState) (info : WindowInfo)
    (rect : Rectangle) : Prop where
  own : info.state.shapes → shape = info.state
  restores : (info.currentRestoreRect rect).extent axis = extent
  flat : shape.stretches axis = false → rect.extent axis = extent

theorem Keeps.step (h : Keeps axis extent shape info (s.rect w))
    (gentle : ¬(value = .hidden ∧ info.state ≠ .hidden ∧ shape.stretches axis)) :
    Keeps axis extent (if value.shapes then value else shape)
      { s.cachedInfo w info (some value) with state := value, children := children }
      (s.stateRect w info value) := by
  by_cases same : info.state = value
  · subst same
    rw [shape_kept h.own]
    simp only [cachedInfo, stateRect, ne_eq, not_true_eq_false, ↓reduceIte]
    exact ⟨h.own, h.restores, h.flat⟩
  · have flat (plain : value.stretches axis = false) :
        (s.stateRect w info value).extent axis =
          if value.shapes then extent else (s.rect w).extent axis := by
      rw [extent_stateRect same plain, h.restores]
    refine ⟨fun shapes => if_pos shapes, ?_, fun plain => ?_⟩
    · rw [extent_currentRestoreRect]
      dsimp only
      by_cases tracked : value.tracks axis
      · rw [if_pos tracked]
        by_cases shapes : value.shapes
        · rw [flat (by simpa [tracks_of_shapes shapes] using tracked), if_pos shapes]
        · obtain rfl := tracks_of_not_shapes (by simpa using shapes) tracked
          rw [flat rfl, if_neg shapes]
          exact h.flat (by simpa [same] using gentle)
      · rw [if_neg tracked, cachedInfo]
        simp only [ne_eq, same, not_false_eq_true, ↓reduceIte]
        exact h.restores
    · by_cases shapes : value.shapes
      · rw [if_pos shapes] at plain
        rw [flat plain, if_pos shapes]
      · rw [if_neg shapes] at plain
        rw [flat (by simpa using mt stretches_shapes shapes), if_neg shapes]
        exact h.flat plain

/-- The layout has one output, and `area` is it. -/
structure SingleOutput (s : Model) (area : Rectangle) : Prop where
  bounds : boundingRectangle s.displays = area
  sized : ∀ rect, s.displayLayout.sizeToOutput rect = area
  placed : ∀ id rect placement, s.displayLayout.placeInOutput id rect = some placement →
    placement = area

theorem SingleOutput.stretched {area : Rectangle} (single : SingleOutput s area)
    (changed : info.state ≠ value) (stretched : value.stretches axis) :
    (s.stateRect w info value).extent axis = area.extent axis := by
  have full : s.fullscreenRectFor w info = area := by
    unfold fullscreenRectFor
    split
    · rename_i found
      obtain ⟨id, -, placed⟩ := Option.bind_eq_some_iff.mp found
      exact single.placed _ _ _ placed
    · exact single.sized _
  rw [stateRect, if_neg changed]
  cases value <;> cases axis <;>
    simp_all [WindowState.stretches, rectForState, single.bounds, Rectangle.extent]

/-- The extent of the output has taken the place of the one to restore. -/
structure Lost (axis : Axis) (area : Rectangle) (info : WindowInfo) (rect : Rectangle) : Prop where
  restores : (info.currentRestoreRect rect).extent axis = area.extent axis
  fills : rect.extent axis = area.extent axis

theorem Lost.step {area : Rectangle} (single : SingleOutput s area)
    (h : Lost axis area info (s.rect w)) :
    Lost axis area { s.cachedInfo w info (some value) with state := value, children := children }
      (s.stateRect w info value) := by
  by_cases same : info.state = value
  · subst same
    simp only [cachedInfo, stateRect, ne_eq, not_true_eq_false, ↓reduceIte]
    exact ⟨h.restores, h.fills⟩
  · have fills : (s.stateRect w info value).extent axis = area.extent axis := by
      cases stretched : value.stretches axis with
      | true => exact single.stretched same stretched
      | false =>
        rw [extent_stateRect same stretched]
        split
        · exact h.restores
        · exact h.fills
    refine ⟨?_, fills⟩
    rw [extent_currentRestoreRect]
    split
    · exact fills
    · simp only [cachedInfo, ne_eq, same, not_false_eq_true, ↓reduceIte]
      exact h.restores

/-- Before a loss: the window fills the output as far as it is stretched. -/
structure Fills (axis : Axis) (area : Rectangle) (shape : WindowState) (info : WindowInfo)
    (rect : Rectangle) : Prop where
  own : info.state.shapes → shape = info.state
  fills : shape.stretches axis → rect.extent axis = area.extent axis

theorem Fills.step {area : Rectangle} (single : SingleOutput s area)
    (h : Fills axis area shape info (s.rect w)) :
    Fills axis area (if value.shapes then value else shape)
      { s.cachedInfo w info (some value) with state := value, children := children }
      (s.stateRect w info value) := by
  by_cases same : info.state = value
  · subst same
    rw [shape_kept h.own, stateRect, if_pos rfl]
    exact ⟨h.own, h.fills⟩
  · constructor
    · intro shapes
      exact if_pos shapes
    intro stretched
    by_cases shapes : value.shapes
    · rw [if_pos shapes] at stretched
      exact single.stretched same stretched
    · rw [if_neg shapes] at stretched
      rw [extent_stateRect same (by simpa using mt stretches_shapes shapes), if_neg shapes]
      exact h.fills stretched

theorem Fills.lost {area : Rectangle} (h : Fills axis area shape info (s.rect w))
    (shown : info.state ≠ .hidden) (stretched : shape.stretches axis) :
    Lost axis area
      { s.cachedInfo w info (some .hidden) with state := .hidden, children := children }
      (s.stateRect w info .hidden) := by
  have fills : (s.stateRect w info .hidden).extent axis = area.extent axis := by
    rw [extent_stateRect shown (by cases axis <;> rfl)]
    exact h.fills stretched
  refine ⟨?_, fills⟩
  rw [extent_currentRestoreRect]
  cases axis <;> exact fills

end Axes

/-- The sequence never fails, it ends if the trees do, and then the window is where it was. -/
def Model.RoundTrips (s : Model) (w : Window) (requests : List WindowState) : Prop :=
  (∀ fuel t, requestStates fuel w requests s = .returned () t → t.rect w = s.rect w) ∧
  (∀ fuel failure t, requestStates fuel w requests s ≠ .thrown failure t) ∧
  (s.Acyclic → ∃ n, ∀ fuel ≥ n, ∃ t, requestStates fuel w requests s = .returned () t)

section Sequences

variable {requests : List WindowState} {axis : Axis}

/-- A sequence that loses nothing along an axis gives the window its extent back. -/
theorem ensures_lossless (integrity : s.Integrity) (here : s.info? w = some info)
    (restored : info.state = .restored) (last : requests.getLast? = some .restored)
    (lossless : lossy axis .restored .restored requests = false) :
    (requestStates fuel w requests).Ensures s
      (fun _ t => (t.rect w).extent axis = (s.rect w).extent axis) (fun _ _ => False)
      (s.Short fuel) := by
  refine (ensures_requestStates (fun rest t info => ∃ shape,
    Keeps axis ((s.rect w).extent axis) shape info (t.rect w) ∧
    lossy axis info.state shape rest = false ∧ rest.getLast?.getD info.state = .restored)
    ?_ integrity here ?_).imp ?_
  · rintro t info value rest u children ⟨shape, keeps, lossless, last⟩ standing
    rw [lossy, Bool.or_eq_false_iff] at lossless
    rw [List.getLast?_cons] at last
    refine ⟨_, standing.rect ▸ keeps.step ?_, lossless.2, last⟩
    simpa using lossless.1
  · refine ⟨.restored, ⟨fun _ => restored.symm, ?_, fun _ => rfl⟩, restored ▸ lossless, ?_⟩
    · rw [extent_currentRestoreRect, restored]
      cases axis <;> rfl
    · rw [last]
      rfl
  · intro _ t after
    rcases after with ⟨info, -, shape, keeps, -, last⟩
    have restores := keeps.restores
    rw [extent_currentRestoreRect, show info.state = .restored from last] at restores
    cases axis <;> exact restores

/-- On one output, a sequence that loses an extent leaves the window with that of the output. -/
theorem ensures_lossy {area : Rectangle} (integrity : s.Integrity) (here : s.info? w = some info)
    (restored : info.state = .restored) (single : SingleOutput s area)
    (loses : lossy axis .restored .restored requests = true) :
    (requestStates fuel w requests).Ensures s
      (fun _ t => (t.rect w).extent axis = area.extent axis) (fun _ _ => False)
      (s.Short fuel) := by
  refine (ensures_requestStates (fun rest t info => SingleOutput t area ∧
    ((∃ shape, Fills axis area shape info (t.rect w) ∧ lossy axis info.state shape rest = true) ∨
      Lost axis area info (t.rect w)))
    ?_ integrity here ?_).imp ?_
  · rintro t info value rest u children ⟨single, progress⟩ standing
    have single' : SingleOutput u area := by
      refine ⟨?_, ?_, ?_⟩
      · rw [standing.displays]
        exact single.bounds
      · rw [standing.displayLayout]
        exact single.sized
      · rw [standing.displayLayout]
        exact single.placed
    refine ⟨single', ?_⟩
    rw [standing.rect]
    rcases progress with ⟨shape, fills, loses⟩ | lost
    · rw [lossy, Bool.or_eq_true] at loses
      rcases loses with now | later
      · simp only [ne_eq, Bool.and_eq_true, decide_eq_true_eq, decide_not, Bool.not_eq_true',
          decide_eq_false_iff_not] at now
        obtain ⟨⟨rfl, shown⟩, stretched⟩ := now
        exact .inr (fills.lost shown stretched)
      · exact .inl ⟨_, fills.step single, later⟩
    · exact .inr (lost.step single)
  · refine ⟨single, .inl ⟨.restored, ⟨fun _ => restored.symm, fun stretched => ?_⟩,
      restored ▸ loses⟩⟩
    cases axis <;> simp [WindowState.stretches] at stretched
  · intro _ t after
    rcases after with ⟨info, -, -, ⟨shape, -, loses⟩ | lost⟩
    · simp [lossy] at loses
    · exact lost.fills

theorem Model.RoundTrips.of_lossless (integrity : s.Integrity) (here : s.info? w = some info)
    (restored : info.state = .restored) (last : requests.getLast? = some .restored)
    (lossless : ∀ axis, lossy axis .restored .restored requests = false) :
    s.RoundTrips w requests := by
  have ensures (fuel : Nat) (axis : Axis) : (requestStates fuel w requests).Ensures s _ _ _ :=
    ensures_lossless integrity here restored last (lossless axis)
  refine ⟨fun fuel t run => ?_, fun fuel failure t run => ?_, fun acyclic => ?_⟩
  · exact Rectangle.ext_extent fun axis => (ensures fuel axis).returned run
  · exact (ensures fuel .horizontal).thrown run
  · obtain ⟨n, enough⟩ := acyclic.enough
    refine ⟨n, fun fuel le => ?_⟩
    obtain ⟨_, t, run, -⟩ := (ensures fuel .horizontal).returns (enough fuel le)
    exact ⟨t, run⟩

/-- On one output, a sequence round trips if the extents it loses are those of the output. -/
theorem Model.roundTrips_single {area : Rectangle} (integrity : s.Integrity) (acyclic : s.Acyclic)
    (single : SingleOutput s area) (here : s.info? w = some info)
    (restored : info.state = .restored) (last : requests.getLast? = some .restored) :
    s.RoundTrips w requests ↔ ∀ axis, lossy axis .restored .restored requests = true →
      area.extent axis = (s.rect w).extent axis := by
  have back (fuel : Nat) (axis : Axis) : (requestStates fuel w requests).Ensures s
      (fun _ t => (t.rect w).extent axis = if lossy axis .restored .restored requests
        then area.extent axis else (s.rect w).extent axis) (fun _ _ => False) (s.Short fuel) := by
    split
    · rename_i loses
      exact ensures_lossy integrity here restored single loses
    · rename_i lossless
      exact ensures_lossless integrity here restored last (by simpa using lossless)
  obtain ⟨n, enough⟩ := acyclic.enough
  constructor
  · rintro ⟨same, -, -⟩ axis loses
    obtain ⟨_, t, run, fills⟩ := (back n axis).returns (enough n le_rfl)
    rw [if_pos loses] at fills
    rw [← fills, same n t run]
  · intro harmless
    refine ⟨fun fuel t run => ?_, fun fuel failure t run => ?_, fun _ => ⟨n, fun fuel le => ?_⟩⟩
    · refine Rectangle.ext_extent fun axis => ((back fuel axis).returned run).trans ?_
      split
      · rename_i loses
        exact harmless axis loses
      · rfl
    · exact (back fuel .horizontal).thrown run
    · obtain ⟨_, t, run, -⟩ := (back fuel .horizontal).returns (enough fuel le)
      exact ⟨t, run⟩

end Sequences

def Op.singleRun : List Op :=
  [.addSession 1,
    .addDisplay ⟨⟨0, 0⟩, ⟨640, 480⟩⟩ (.single 1 ⟨⟨0, 0⟩, ⟨640, 480⟩⟩) [],
    .addSurface 1 { size := ⟨100, 80⟩ } 1]

def Model.singleState : Model :=
  (Op.follow 12 (fun s op => op.Contract s ∧ op.asksParent = false) Op.singleRun .start).get
    (by decide +kernel)

theorem reachable_singleState :
    Reachable (fun s op => op.Contract s ∧ op.asksParent = false) singleState :=
  (Reachable.initial _ _).follow (Option.some_get _).symm

theorem restored_singleState :
    ∃ info, singleState.info? ⟨1, 1⟩ = some info ∧ info.state = .restored := by
  have managed : singleState.Managed ⟨1, 1⟩ := by decide +kernel
  obtain ⟨info, here⟩ := managed_iff.mp managed
  have state : singleState.stateOf ⟨1, 1⟩ = some .restored := by decide +kernel
  exact ⟨info, here, by simpa [stateOf, here] using state⟩

theorem singleOutput_singleState : SingleOutput singleState ⟨⟨0, 0⟩, ⟨640, 480⟩⟩ where
  bounds := by decide +kernel
  sized _ := rfl
  placed id rect placement found := by
    change (if id = 1 then some _ else none) = _ at found
    split at found
    · exact (Option.some.inj found).symm
    · contradiction

/-- A sequence of requests that ends with `restored` gives every window its rectangle back if
and only if it never hides a stretched window. On one output it is also known which windows
get it back otherwise. -/
theorem state_requests_round_trip {requests : List WindowState}
    (last : requests.getLast? = some .restored) :
    ((∀ s w info, Reachable (fun s op => op.Contract s) s → s.info? w = some info →
      info.state = .restored → s.RoundTrips w requests) ↔
        ∀ axis, lossy axis .restored .restored requests = false) ∧
    ∀ s w info area, Reachable (fun s op => op.Contract s ∧ ¬op.ClosesLoop s) s →
      SingleOutput s area → s.info? w = some info → info.state = .restored →
      (s.RoundTrips w requests ↔ ∀ axis, lossy axis .restored .restored requests = true →
        area.extent axis = (s.rect w).extent axis) := by
  refine ⟨⟨fun always axis => ?_, fun lossless s w info reachable here restored => ?_⟩, ?_⟩
  · by_contra loses
    obtain ⟨integrity, acyclic⟩ := reachable_singleState.acyclic_of_linkless.acyclic
    obtain ⟨info, here, restored⟩ := restored_singleState
    have trips := always singleState ⟨1, 1⟩ info (reachable_singleState.mono fun _ _ h => h.1)
      here restored
    rw [roundTrips_single integrity acyclic singleOutput_singleState here restored last] at trips
    have same := trips axis (by simpa using loses)
    cases axis
    · exact absurd same (by decide +kernel)
    · exact absurd same (by decide +kernel)
  · exact .of_lossless reachable.integrity here restored last lossless
  · intro s w info area reachable single here restored
    obtain ⟨integrity, acyclic⟩ := reachable.acyclic
    exact roundTrips_single integrity acyclic single here restored last

theorem state_requests_round_trip_maximized :
    singleState.RoundTrips ⟨1, 1⟩ [.maximized, .minimized, .vertmaximized, .restored] := by
  obtain ⟨info, here, restored⟩ := restored_singleState
  exact (state_requests_round_trip (by decide)).1.mpr (fun axis => by cases axis <;> decide)
    singleState ⟨1, 1⟩ info (reachable_singleState.mono fun _ _ h => h.1) here restored

/-- A maximized window that is hidden and restored stays maximized. -/
theorem state_requests_round_trip_fails :
    ¬∀ s w info requests, Reachable (fun s op => op.Contract s) s → s.info? w = some info →
      info.state = .restored → requests.getLast? = some .restored → s.RoundTrips w requests := by
  intro claim
  obtain ⟨info, here, restored⟩ := restored_singleState
  have trips := claim singleState ⟨1, 1⟩ info [.maximized, .hidden, .restored]
    (reachable_singleState.mono fun _ _ h => h.1) here restored rfl
  have run : (requestStates 12 ⟨1, 1⟩ [.maximized, .hidden, .restored]
      singleState).returned?.map (·.rect ⟨1, 1⟩) = some ⟨⟨0, 0⟩, ⟨640, 480⟩⟩ := by decide +kernel
  obtain ⟨t, ended, rect⟩ := Option.map_eq_some_iff.mp run
  obtain ⟨_, returned⟩ := Outcome.returned?_eq_some.mp ended
  have same := trips.1 12 t returned
  rw [rect] at same
  exact absurd same (by decide +kernel)

end Miral
