import Miral.Reachability

/-! Where a window is placed that is new: next to the first one of its application, on its
parent, or where its state puts it on the active display. -/
namespace Miral

open Program Prog Model

section Arithmetic

theorem optical_of_nonneg {d : Int} (room : 0 ≤ d) :
    half d - d.tdiv 6 = d / 2 - d / 6 ∧ 0 ≤ half d ∧ half d ≤ d := by
  rw [half, Int.tdiv_eq_ediv_of_nonneg room, Int.tdiv_eq_ediv_of_nonneg room]
  omega

theorem optical_neg (d : Int) : half (-d) - (-d).tdiv 6 = -(half d - d.tdiv 6) := by
  rw [half, half, Int.neg_tdiv, Int.neg_tdiv]
  omega

variable {area : Rectangle} {size : Size}

theorem contains_centredIn (width : size.width ≤ area.size.width)
    (height : size.height ≤ area.size.height) :
    area.contains ⟨centredIn area size size.height, size⟩ := by
  obtain ⟨-, left, right⟩ := optical_of_nonneg (Int.sub_nonneg.mpr width)
  obtain ⟨lift, top, bottom⟩ := optical_of_nonneg (Int.sub_nonneg.mpr height)
  simp only [Rectangle.contains, Bool.and_eq_true, decide_eq_true_eq]
  simp only [Rectangle.left, Rectangle.right, Rectangle.top, Rectangle.bottom, centredIn]
  omega

end Arithmetic

section Displays

variable {r : Rectangle} {rs : List Rectangle}

theorem top_foldl_hull (r : Rectangle) (rs : List Rectangle) :
    (rs.foldl Rectangle.hull r).topLeft.y ≤ r.topLeft.y ∧
      ∀ d ∈ rs, (rs.foldl Rectangle.hull r).topLeft.y ≤ d.topLeft.y := by
  induction rs generalizing r with
  | nil => exact ⟨Int.le_refl _, nofun⟩
  | cons d rest ih =>
    obtain ⟨first, others⟩ := ih (r.hull d)
    have both : (r.hull d).topLeft.y = min r.topLeft.y d.topLeft.y := rfl
    rw [List.foldl_cons, List.forall_mem_cons]
    exact ⟨by omega, by omega, others⟩

theorem top_boundingRectangle (member : r ∈ rs) : (boundingRectangle rs).topLeft.y ≤ r.topLeft.y := by
  cases rs with
  | nil => contradiction
  | cons d rest =>
    obtain ⟨first, others⟩ := top_foldl_hull d rest
    rcases List.mem_cons.mp member with rfl | member
    · exact first
    · exact others r member

theorem shared_nonneg (r d : Rectangle) :
    0 ≤ (r.intersectionWith d).size.width * (r.intersectionWith d).size.height := by
  unfold Rectangle.intersectionWith
  dsimp only
  split
  · rename_i some
    exact Int.mul_nonneg (by dsimp only; omega) (by dsimp only; omega)
  · exact Int.le_refl 0

namespace Model

theorem largestOverlap_mem (surface : Rectangle) (displays : List Rectangle) (most : Int)
    (result : Rectangle) : largestOverlap surface displays most result = result ∨
      largestOverlap surface displays most result ∈ displays := by
  induction displays generalizing most result with
  | nil => exact .inl rfl
  | cons d rest ih =>
    rw [largestOverlap]
    split
    · rcases ih _ d with same | member
      · rw [same]
        exact .inr List.mem_cons_self
      · exact .inr (List.mem_cons_of_mem _ member)
    · exact (ih _ result).imp id (List.mem_cons_of_mem _)

theorem activeDisplay_mem (s : Model) :
    s.activeDisplay ∈ s.displays ∨ s.displays = [] ∧ s.activeDisplay = default := by
  unfold activeDisplay
  cases s.lock s.focus.surface with
  | some w =>
    dsimp only
    cases s.displays with
    | nil => exact .inr ⟨rfl, rfl⟩
    | cons d rest =>
      have first := shared_nonneg (s.rect w) d
      rw [largestOverlap, if_pos (by omega)]
      rcases largestOverlap_mem (s.rect w) rest _ d with same | member
      · rw [same]
        exact .inl List.mem_cons_self
      · exact .inl (List.mem_cons_of_mem _ member)
  | none =>
    dsimp only
    cases found : s.displays.find? (·.containsPoint s.cursor) with
    | some d => exact .inl (List.mem_of_find?_eq_some found)
    | none =>
      cases s.displays with
      | nil => exact .inr ⟨rfl, rfl⟩
      | cons d rest => exact .inl List.mem_cons_self

theorem top_activeDisplay (s : Model) :
    (boundingRectangle s.displays).topLeft.y ≤ s.activeDisplay.topLeft.y := by
  rcases s.activeDisplay_mem with member | ⟨none, default⟩
  · exact top_boundingRectangle member
  · rw [none, default]
    exact Int.le_refl _

end Model

end Displays

namespace Model

variable {s : Model} {app : ApplicationInfo} {parameters : WindowSpecification} {size : Size}
  {p : Window}

/-- The place next to the first window of the application, where that is on its output. -/
def cascaded (s : Model) (app : ApplicationInfo) (size : Size) : Option Rectangle :=
  (s.lock app.windows.head?).bind fun w =>
    let rect : Rectangle := ⟨s.topLeft w + Displacement.titleBar, size⟩
    if (s.displayLayout.sizeToOutput (s.rect w)).overlaps rect then some rect else none

/-- The place for a state on the active display, before the top is looked at. -/
def atState (s : Model) (state : WindowState) (size : Size) : Rectangle :=
  let area := s.activeDisplay
  let centred := centredIn area size size.height
  match state with
  | .fullscreen | .maximized => area
  | .vertmaximized => ⟨⟨centred.x, area.topLeft.y⟩, ⟨size.width, area.size.height⟩⟩
  | .horizmaximized => ⟨⟨area.topLeft.x, centred.y⟩, ⟨area.size.width, size.height⟩⟩
  | _ => ⟨centred, size⟩

def clamped (s : Model) (rect : Rectangle) : Rectangle :=
  ⟨⟨rect.topLeft.x, max rect.topLeft.y (boundingRectangle s.displays).topLeft.y⟩, rect.size⟩

theorem clamped_of_le {rect : Rectangle}
    (below : (boundingRectangle s.displays).topLeft.y ≤ rect.topLeft.y) : s.clamped rect = rect := by
  rw [clamped, Int.max_eq_left below]

def orphanRect (s : Model) (app : ApplicationInfo) (state : WindowState) (size : Size) : Rectangle :=
  (s.cascaded app size).getD (s.clamped (s.atState state size))

theorem size_cascaded {rect : Rectangle} (found : s.cascaded app size = some rect) :
    rect.size = size := by
  obtain ⟨w, -, inside⟩ := Option.bind_eq_some_iff.mp found
  dsimp only at inside
  split at inside
  · rw [← Option.some.inj inside]
  · contradiction

theorem placeByState_eq {state : WindowState} (sized : parameters.size = some size)
    (known : parameters.state = some state) :
    s.placeByState parameters size.height = .ok { parameters with
      topLeft := some (s.clamped (s.atState state size)).topLeft
      size := some (s.clamped (s.atState state size)).size } := by
  have lower (y top : Int) : (if y < top then top else y) = max y top := by
    split <;> omega
  unfold placeByState
  rw [sized, known]
  simp only [Failure.valueOf, bind, Except.bind, pure, Except.pure, lower]
  rfl

/-- The first group of branches, for a window without a parent. -/
theorem placeOnOutput_orphan (s : Model) (app : ApplicationInfo)
    (noOutput : parameters.outputId.getD 0 = 0) (sized : parameters.size = some size) :
    ∃ placed positioned, s.placeOnOutput app parameters false = .ok (placed, positioned) ∧
      placed.size = some size ∧ placed.state = parameters.state ∧
      (∀ rect, s.cascaded app size = some rect → positioned = true ∧
        placed.topLeft = some rect.topLeft) ∧
      (s.cascaded app size = none → positioned = false) := by
  unfold placeOnOutput cascaded
  rw [noOutput]
  cases s.lock app.windows.head? with
  | none => exact ⟨parameters, false, rfl, sized, rfl, nofun, fun _ => rfl⟩
  | some w =>
    simp only [sized, Failure.valueOf, bind, Except.bind, Option.bind_some, pure, Except.pure,
      ne_eq, not_true_eq_false, if_false, Bool.false_eq_true]
    refine ⟨_, _, rfl, rfl, rfl, ?_, ?_⟩
    · intro rect found
      split at found
      · rename_i inside
        exact ⟨inside, by rw [← Option.some.inj found]⟩
      · contradiction
    · intro missing
      split at missing
      · contradiction
      · rename_i outside
        simpa using outside

theorem placeNewSurface_orphan (app : ApplicationInfo) (noOutput : parameters.outputId.getD 0 = 0)
    (orphan : s.lock (parameters.parent.getD none) = none) (sized : parameters.size = some size) :
    ∃ spec, s.placeNewSurface app parameters = .ok spec ∧
      spec.topLeft = some (s.orphanRect app (parameters.state.getD .restored) size).topLeft ∧
      spec.size = some (s.orphanRect app (parameters.state.getD .restored) size).size := by
  let base : WindowSpecification := { parameters with
    type := some (parameters.type.getD .normal), state := some (parameters.state.getD .restored) }
  obtain ⟨placed, positioned, output, size', state, next, elsewhere⟩ :=
    s.placeOnOutput_orphan app (show base.outputId.getD 0 = 0 from noOutput)
      (show base.size = some size from sized)
  have start : s.placeNewSurface app parameters =
      if positioned then .ok placed else s.placeByState placed size.height := by
    have value : Failure.valueOf parameters.size = .ok size := by rw [sized, Failure.valueOf]
    unfold placeNewSurface
    dsimp only
    rw [value, orphan]
    simp only [bind, Except.bind, Option.isSome_none]
    rw [output]
    rfl
  rw [start, orphanRect]
  cases found : s.cascaded app size with
  | some rect =>
    obtain ⟨done, there⟩ := next rect found
    rw [if_pos done]
    exact ⟨placed, rfl, there, by rw [size', Option.getD_some, size_cascaded found]⟩
  | none =>
    rw [elsewhere found, if_neg Bool.false_ne_true, placeByState_eq size' state]
    exact ⟨_, rfl, rfl, rfl⟩

/-- What a state asks of the place of a new window on the active display; a restored window
asks for it only where it is `alone`. -/
def Honours (area : Rectangle) (state : WindowState) (size : Size) (alone : Prop)
    (rect : Rectangle) : Prop :=
  match state with
  | .maximized | .fullscreen => rect = area
  | .vertmaximized => rect.topLeft.y = area.topLeft.y ∧ rect.size.height = area.size.height
  | .horizmaximized => rect.topLeft.x = area.topLeft.x ∧ rect.size.width = area.size.width
  | .restored => rect.size = size ∧ (alone → area.contains rect)
  | _ => True

/-- The place 12 to the right of and below a window happens to be the one a state asks for. -/
def CascadeFits (s : Model) (w : Window) (state : WindowState) (size : Size) : Prop :=
  let area := s.activeDisplay
  match state with
  | .maximized | .fullscreen =>
    (s.topLeft w).x + 12 = area.topLeft.x ∧ (s.topLeft w).y + 12 = area.topLeft.y ∧ size = area.size
  | .vertmaximized => (s.topLeft w).y + 12 = area.topLeft.y ∧ size.height = area.size.height
  | .horizmaximized => (s.topLeft w).x + 12 = area.topLeft.x ∧ size.width = area.size.width
  | _ => True

/-- The state that is asked for decides if the window is not cascaded. -/
theorem honours_atState {state : WindowState} {alone : Prop}
    (width : size.width ≤ s.activeDisplay.size.width)
    (height : size.height ≤ s.activeDisplay.size.height) :
    Honours s.activeDisplay state size alone (s.clamped (s.atState state size)) := by
  have top := s.top_activeDisplay
  have inside := contains_centredIn width height
  have below : (boundingRectangle s.displays).topLeft.y ≤
      (centredIn s.activeDisplay size size.height).y := by
    simp only [Rectangle.contains, Bool.and_eq_true, decide_eq_true_eq] at inside
    simp only [Rectangle.left, Rectangle.right, Rectangle.top, Rectangle.bottom] at inside
    omega
  cases state with
  | maximized => exact clamped_of_le top
  | fullscreen => exact clamped_of_le top
  | vertmaximized =>
    have same : s.clamped (s.atState .vertmaximized size) = s.atState .vertmaximized size :=
      clamped_of_le top
    rw [same]
    exact ⟨rfl, rfl⟩
  | horizmaximized => exact ⟨rfl, rfl⟩
  | restored =>
    refine ⟨rfl, fun _ => ?_⟩
    have same : s.clamped (s.atState .restored size) = s.atState .restored size :=
      clamped_of_le below
    rw [same]
    exact inside
  | unknown => trivial
  | minimized => trivial
  | hidden => trivial
  | states => trivial

theorem honours_cascaded {w : Window} {state : WindowState} {alone : Prop} (other : ¬alone) :
    Honours s.activeDisplay state size alone ⟨s.topLeft w + Displacement.titleBar, size⟩ ↔
      s.CascadeFits w state size := by
  have whole : (⟨s.topLeft w + Displacement.titleBar, size⟩ : Rectangle) = s.activeDisplay ↔
      (s.topLeft w).x + 12 = s.activeDisplay.topLeft.x ∧
        (s.topLeft w).y + 12 = s.activeDisplay.topLeft.y ∧ size = s.activeDisplay.size := by
    constructor
    · intro same
      rw [← same]
      exact ⟨rfl, rfl, rfl⟩
    · intro edges
      obtain ⟨x, y, same⟩ := edges
      have corner : s.topLeft w + Displacement.titleBar = s.activeDisplay.topLeft := Point.ext x y
      rw [corner, same]
  cases state with
  | maximized => exact whole
  | fullscreen => exact whole
  | restored => exact iff_of_true ⟨rfl, fun alone => absurd alone other⟩ trivial
  | _ => exact Iff.rfl

end Model

/-- The requested state is honoured if and only if the window is not placed next to the
first one of its application, or that place is by accident where the state asks for. -/
theorem initial_state_honoured {s : Model} (app : ApplicationInfo)
    {parameters : WindowSpecification} {size : Size} (noOutput : parameters.outputId.getD 0 = 0)
    (orphan : s.lock (parameters.parent.getD none) = none) (sized : parameters.size = some size)
    (width : size.width ≤ s.activeDisplay.size.width)
    (height : size.height ≤ s.activeDisplay.size.height) :
    ∃ spec rect, s.placeNewSurface app parameters = .ok spec ∧
      spec.topLeft = some rect.topLeft ∧ spec.size = some rect.size ∧
      (Honours s.activeDisplay (parameters.state.getD .restored) size (app.windows = []) rect ↔
        ∀ w, s.lock app.windows.head? = some w →
          (s.displayLayout.sizeToOutput (s.rect w)).overlaps
            ⟨s.topLeft w + Displacement.titleBar, size⟩ →
          s.CascadeFits w (parameters.state.getD .restored) size) := by
  obtain ⟨spec, placed, topLeft, size'⟩ := s.placeNewSurface_orphan app noOutput orphan sized
  refine ⟨spec, _, placed, topLeft, size', ?_⟩
  unfold orphanRect cascaded
  cases first : s.lock app.windows.head? with
  | none => exact iff_of_true (honours_atState width height) nofun
  | some w =>
    have other : app.windows ≠ [] := by
      intro none
      simp [none, lock] at first
    rw [Option.bind_some]
    dsimp only
    split
    · rename_i inside
      rw [Option.getD_some, honours_cascaded other]
      constructor
      · rintro fits _ ⟨⟩ _
        exact fits
      · exact fun fits => fits w rfl inside
    · rename_i outside
      refine iff_of_true (honours_atState width height) ?_
      rintro _ ⟨⟩ inside
      exact absurd inside outside

/-- A window that has been dragged to the top of the only display. -/
def Op.topRun : List Op :=
  [.addSession 1,
    .addDisplay ⟨⟨0, 0⟩, ⟨640, 480⟩⟩ (.single 1 ⟨⟨0, 0⟩, ⟨640, 480⟩⟩) [],
    .addSurface 1 { size := ⟨100, 80⟩ } 1, .dragWindow (some ⟨1, 1⟩) ⟨0, -134⟩]

def Model.topState : Model :=
  (Op.follow 12 (fun s op => op.Contract s ∧ op.asksParent = false) Op.topRun .start).get
    (by decide +kernel)

theorem reachable_topState :
    Reachable (fun s op => op.Contract s ∧ op.asksParent = false) topState :=
  (Reachable.initial _ _).follow (Option.some_get _).symm

def WindowSpecification.inState (state : WindowState) (size : Size) : WindowSpecification where
  size := some size
  state := some state

theorem initial_state_honoured_top : ∃ spec rect,
    topState.placeNewSurface ⟨[⟨1, 1⟩]⟩ (.inState .restored ⟨100, 80⟩) = .ok spec ∧
      spec.topLeft = some rect.topLeft ∧ spec.size = some rect.size ∧
      Honours topState.activeDisplay .restored ⟨100, 80⟩ False rect := by
  obtain ⟨spec, rect, placed, topLeft, size, honours⟩ := initial_state_honoured (s := topState)
    ⟨[⟨1, 1⟩]⟩ (show (WindowSpecification.inState .restored ⟨100, 80⟩).outputId.getD 0 = 0 from rfl)
    rfl rfl (by decide +kernel) (by decide +kernel)
  obtain ⟨same, -⟩ := honours.mpr fun _ _ _ => trivial
  exact ⟨spec, rect, placed, topLeft, size, same, False.elim⟩

/-- A maximized window is cascaded from a window of the same application. -/
theorem initial_state_honoured_fails :
    ¬∀ (s : Model) (app : ApplicationInfo) (parameters : WindowSpecification) size,
      parameters.outputId.getD 0 = 0 → s.lock (parameters.parent.getD none) = none →
      parameters.size = some size → size.width ≤ s.activeDisplay.size.width →
      size.height ≤ s.activeDisplay.size.height →
      ∃ spec rect, s.placeNewSurface app parameters = .ok spec ∧
        spec.topLeft = some rect.topLeft ∧ spec.size = some rect.size ∧
        Honours s.activeDisplay (parameters.state.getD .restored) size (app.windows = []) rect := by
  intro claim
  obtain ⟨spec, rect, placed, -, size, honours⟩ := claim topState ⟨[⟨1, 1⟩]⟩
    (.inState .maximized ⟨100, 80⟩) ⟨100, 80⟩ rfl rfl rfl (by decide +kernel) (by decide +kernel)
  have small : (topState.placeNewSurface ⟨[⟨1, 1⟩]⟩
      (.inState .maximized ⟨100, 80⟩)).toOption.map (·.size) = some (some ⟨100, 80⟩) := by
    decide +kernel
  have whole : topState.activeDisplay.size = ⟨640, 480⟩ := by decide +kernel
  have same : rect = topState.activeDisplay := honours
  simp [placed, Except.toOption, size, same, whole] at small

namespace Model

variable {s : Model} {app : ApplicationInfo} {parameters : WindowSpecification} {size : Size}
  {p : Window}

/-- A child without placement hints is centred on its parent. -/
theorem placeNewSurface_child (app : ApplicationInfo) (noOutput : parameters.outputId.getD 0 = 0)
    (locked : s.lock (parameters.parent.getD none) = some p) (managed : s.Managed p)
    (unhinted : parameters.placementHints = none) (sized : parameters.size = some size) :
    ∃ spec, s.placeNewSurface app parameters = .ok spec ∧
      spec.topLeft = some (centredIn (s.rect p) size size.height) := by
  let base : WindowSpecification := { parameters with
    type := some (parameters.type.getD .normal), state := some (parameters.state.getD .restored) }
  have output : s.placeOnOutput app base true = .ok (base, false) := by
    have none : base.outputId.getD 0 = 0 := noOutput
    unfold placeOnOutput
    rw [none]
    rfl
  have value : Failure.valueOf parameters.size = .ok size := by rw [sized, Failure.valueOf]
  have start : s.placeNewSurface app parameters = s.placeOnParent p base size.height := by
    unfold placeNewSurface
    dsimp only
    rw [value, locked]
    simp only [bind, Except.bind, Option.isSome_some]
    rw [output]
  have centred : ¬(base.auxRect.isSome ∧ base.placementHints.isSome) := by
    rintro ⟨-, hinted⟩
    have none : base.placementHints = none := unhinted
    simp [none] at hinted
  have value' : Failure.valueOf base.size = .ok size := value
  rw [start, placeOnParent, if_neg (not_not.mpr managed), value']
  simp only [bind, Except.bind]
  rw [if_neg centred]
  exact ⟨_, rfl, rfl⟩

theorem top_orphanRect {state : WindowState}
    (firstBelow : ∀ w, s.lock app.windows.head? = some w →
      (boundingRectangle s.displays).topLeft.y ≤ (s.topLeft w).y) :
    (boundingRectangle s.displays).topLeft.y ≤ (s.orphanRect app state size).topLeft.y := by
  unfold orphanRect
  cases found : s.cascaded app size with
  | some rect =>
    obtain ⟨w, first, inside⟩ := Option.bind_eq_some_iff.mp found
    have below := firstBelow w first
    dsimp only at inside
    split at inside
    · rw [← Option.some.inj inside]
      have lower : (s.topLeft w + Displacement.titleBar).y = (s.topLeft w).y + 12 := rfl
      dsimp only [Option.getD_some]
      omega
    · contradiction
  | none => exact Int.le_max_right ..

theorem top_centredIn (area : Rectangle) (size : Size) {top : Int} (below : top ≤ area.topLeft.y) :
    top ≤ (centredIn area size size.height).y ↔
      (area.size.height < size.height → (size.height - area.size.height) / 2 -
        (size.height - area.size.height) / 6 ≤ area.topLeft.y - top) := by
  have edge : (centredIn area size size.height).y = area.topLeft.y +
      half (area.size.height - size.height) - (area.size.height - size.height).tdiv 6 := rfl
  rw [edge]
  rcases Int.lt_or_le area.size.height size.height with tall | short
  · obtain ⟨lift, -⟩ := optical_of_nonneg (Int.sub_nonneg.mpr (Int.le_of_lt tall))
    have turned := optical_neg (size.height - area.size.height)
    rw [Int.neg_sub] at turned
    omega
  · obtain ⟨lift, -⟩ := optical_of_nonneg (Int.sub_nonneg.mpr short)
    omega

end Model

/-- A new window stays below the top of the displays if and only if it is no child of a window
that is shorter than it by too much. -/
theorem top_edge_kept {s : Model} (integrity : s.Integrity) (app : ApplicationInfo)
    {parameters : WindowSpecification} {size : Size} (noOutput : parameters.outputId.getD 0 = 0)
    (unhinted : parameters.placementHints = none) (sized : parameters.size = some size)
    (parentBelow : ∀ p, s.lock (parameters.parent.getD none) = some p →
      (boundingRectangle s.displays).topLeft.y ≤ (s.topLeft p).y)
    (firstBelow : s.lock (parameters.parent.getD none) = none →
      ∀ w, s.lock app.windows.head? = some w →
        (boundingRectangle s.displays).topLeft.y ≤ (s.topLeft w).y) :
    ∃ spec topLeft, s.placeNewSurface app parameters = .ok spec ∧ spec.topLeft = some topLeft ∧
      ((boundingRectangle s.displays).topLeft.y ≤ topLeft.y ↔
        ∀ p, s.lock (parameters.parent.getD none) = some p →
          (s.size p).height < size.height →
          (size.height - (s.size p).height) / 2 - (size.height - (s.size p).height) / 6 ≤
            (s.topLeft p).y - (boundingRectangle s.displays).topLeft.y) := by
  cases parent : s.lock (parameters.parent.getD none) with
  | none =>
    obtain ⟨spec, placed, topLeft, -⟩ := s.placeNewSurface_orphan app noOutput parent sized
    exact ⟨spec, _, placed, topLeft, iff_of_true (top_orphanRect (firstBelow parent)) nofun⟩
  | some p =>
    have managed := (integrity.live p).mp (lock_eq_some.mp parent).2
    obtain ⟨spec, placed, topLeft⟩ :=
      s.placeNewSurface_child app noOutput parent managed unhinted sized
    refine ⟨spec, _, placed, topLeft, (top_centredIn (s.rect p) size (parentBelow p parent)).trans ?_⟩
    constructor
    · rintro kept _ ⟨⟩
      exact kept
    · exact fun kept => kept p rfl

def WindowSpecification.childOf (p : Window) (size : Size) : WindowSpecification where
  size := some size
  parent := some (some p)
  type := some .dialog

theorem bounds_topState : (boundingRectangle topState.displays).topLeft.y = 0 ∧
    (topState.rect ⟨1, 1⟩).topLeft.y = 0 ∧ (topState.size ⟨1, 1⟩).height = 80 := by decide +kernel

theorem top_edge_kept_top : ∃ spec topLeft,
    topState.placeNewSurface ⟨[⟨1, 1⟩]⟩ (.childOf ⟨1, 1⟩ ⟨60, 40⟩) = .ok spec ∧
      spec.topLeft = some topLeft ∧ 0 ≤ topLeft.y := by
  have integrity : topState.Integrity := (reachable_topState.mono fun _ _ h => h.1).integrity
  obtain ⟨top, edge, height⟩ := bounds_topState
  have locked : topState.lock ((WindowSpecification.childOf ⟨1, 1⟩ ⟨60, 40⟩).parent.getD none) =
      some ⟨1, 1⟩ := by decide +kernel
  obtain ⟨spec, topLeft, placed, there, kept⟩ := top_edge_kept integrity ⟨[⟨1, 1⟩]⟩
    (show (WindowSpecification.childOf ⟨1, 1⟩ ⟨60, 40⟩).outputId.getD 0 = 0 from rfl) rfl rfl
    (by
      intro p parent
      obtain rfl := Option.some.inj (locked.symm.trans parent)
      rw [top]
      exact Int.le_of_eq edge.symm)
    (by
      intro none
      rw [locked] at none
      contradiction)
  refine ⟨spec, topLeft, placed, there, top ▸ kept.mpr ?_⟩
  intro p parent tall
  obtain rfl := Option.some.inj (locked.symm.trans parent)
  rw [height] at tall
  exact absurd tall (by decide)

/-- A dialog that is taller than its parent at the top of the display. -/
theorem top_edge_kept_fails :
    ¬∀ (s : Model) (app : ApplicationInfo) (parameters : WindowSpecification) size,
      s.Integrity → parameters.outputId.getD 0 = 0 → parameters.placementHints = none →
      parameters.size = some size → 0 < size.width → 0 < size.height →
      (∀ p, s.lock (parameters.parent.getD none) = some p →
        (boundingRectangle s.displays).topLeft.y ≤ (s.topLeft p).y) →
      (s.lock (parameters.parent.getD none) = none → ∀ w, s.lock app.windows.head? = some w →
        (boundingRectangle s.displays).topLeft.y ≤ (s.topLeft w).y) →
      ∃ spec topLeft, s.placeNewSurface app parameters = .ok spec ∧ spec.topLeft = some topLeft ∧
        (boundingRectangle s.displays).topLeft.y ≤ topLeft.y := by
  intro claim
  have integrity : topState.Integrity := (reachable_topState.mono fun _ _ h => h.1).integrity
  obtain ⟨top, edge, height⟩ := bounds_topState
  have locked : topState.lock ((WindowSpecification.childOf ⟨1, 1⟩ ⟨60, 200⟩).parent.getD none) =
      some ⟨1, 1⟩ := by decide +kernel
  obtain ⟨spec, topLeft, placed, there, kept⟩ := claim topState ⟨[⟨1, 1⟩]⟩
    (.childOf ⟨1, 1⟩ ⟨60, 200⟩) ⟨60, 200⟩ integrity rfl rfl rfl (by decide) (by decide)
    (by
      intro p parent
      obtain rfl := Option.some.inj (locked.symm.trans parent)
      rw [top]
      exact Int.le_of_eq edge.symm)
    (by
      intro none
      rw [locked] at none
      contradiction)
  have above : (topState.placeNewSurface ⟨[⟨1, 1⟩]⟩
      (.childOf ⟨1, 1⟩ ⟨60, 200⟩)).toOption.map (·.topLeft.map (·.y)) = some (some (-40)) := by
    decide +kernel
  rw [top] at kept
  simp [placed, Except.toOption, there] at above
  omega

end Miral
