import Mathlib.Algebra.Order.Group.Abs
import Mathlib.Algebra.Order.Ring.Int
import Miral.PlacementCandidates

/-! What `place_relative` returns, for every parent, aux rect, gravity, offset, hint, size and
display. -/
namespace Miral

/-- The specification asks for a placement by gravities that are known. -/
structure WindowSpecification.Places (parameters : WindowSpecification)
    (request : PlacementRequest) (gravity : PlacementGravity) : Prop where
  hints : parameters.placementHints = some request.hints
  winGravity : parameters.windowPlacementGravity = some request.winGravity
  rectGravity : parameters.auxRectPlacementGravity = some gravity
  offset : parameters.auxRectPlacementOffset.getD ⟨0, 0⟩ = request.offset
  auxRect : ∃ auxRect, parameters.auxRect = some auxRect ∧ request.auxRect =
    ⟨auxRect.topLeft + Displacement.mk request.parent.topLeft.x request.parent.topLeft.y,
      auxRect.size⟩
  winKnown : request.winGravity ≠ .other
  rectKnown : gravity ≠ .other

variable {parameters : WindowSpecification} {request : PlacementRequest}
  {gravity : PlacementGravity} {size : Size}

theorem WindowSpecification.Places.placeRelative (places : parameters.Places request gravity)
    (size : Size) : placeRelative request.display request.parent parameters size =
      request.search (parameters.size.getD size) gravity := by
  obtain ⟨auxRect, asks, moved⟩ := places.auxRect
  rw [Miral.placeRelative, places.hints, places.winGravity, places.rectGravity, asks, places.offset]
  simp only [Failure.valueOf, bind, Except.bind, ← moved]

namespace PlacementRequest

/-- Where the third phase looks for the antipode after a size has been cut down. -/
def again (request : PlacementRequest) (size : Size) (gravity : PlacementGravity) : Rectangle :=
  ⟨request.spot (request.resized size (request.spot size gravity)).size gravity.antipodes,
    (request.resized size (request.spot size gravity)).size⟩

/-- The third phase is not reached, ends with the first gravity, or makes the same of the second
with the size it has cut down and with the requested one. -/
def Independent (request : PlacementRequest) (size : Size) (gravity : PlacementGravity) : Prop :=
  (∃ rect ∈ request.unresized size gravity, request.display.contains rect) ∨
  request.display.contains (request.resized size (request.spot size gravity)) ∨
  ¬request.hints.antipodes ∨
  let fresh := request.resized size (request.spot size gravity.antipodes)
  let again := request.resized (request.again size gravity).size (request.again size gravity).topLeft
  again = fresh ∨ ¬request.display.contains again ∧ ¬request.display.contains fresh

theorem spot_mem_unresized : ⟨request.spot size gravity, size⟩ ∈ request.unresized size gravity :=
  List.mem_append_left _ (List.mem_flatMap.mpr ⟨gravity, PlacementHints.mem_gravities.mpr (.inl rfl),
    List.mem_map.mpr ⟨(false, false), PlacementHints.straight_mem_flips, rfl⟩⟩)

theorem cutDown_eq : request.cutDown size (request.hints.gravities gravity) =
    if request.display.contains (request.resized size (request.spot size gravity)) then
      some (request.resized size (request.spot size gravity))
    else if request.hints.antipodes ∧ request.display.contains
        (request.resized (request.again size gravity).size (request.again size gravity).topLeft) then
      some (request.resized (request.again size gravity).size (request.again size gravity).topLeft)
    else none := by
  unfold PlacementHints.gravities
  rw [List.singleton_append, cutDown]
  apply if_congr Iff.rfl rfl
  cases request.hints.antipodes with
  | false => simp [cutDown]
  | true =>
    simp only [if_true, cutDown, true_and]
    rfl

theorem find_resized_eq : ((request.hints.gravities gravity).map fun g =>
      request.resized size (request.spot size g)).find? request.display.contains =
    if request.display.contains (request.resized size (request.spot size gravity)) then
      some (request.resized size (request.spot size gravity))
    else if request.hints.antipodes ∧ request.display.contains
        (request.resized size (request.spot size gravity.antipodes)) then
      some (request.resized size (request.spot size gravity.antipodes))
    else none := by
  unfold PlacementHints.gravities
  cases request.hints.antipodes <;> grind

theorem search_eq_firstChoice (winKnown : request.winGravity ≠ .other)
    (rectKnown : gravity ≠ .other) :
    request.search size gravity = .ok (request.firstChoice size gravity) ↔
      request.Independent size gravity := by
  rw [search_eq winKnown rectKnown, Except.ok.injEq, firstChoice, candidates, List.find?_append,
    Independent]
  cases kept : (request.unresized size gravity).find? request.display.contains with
  | some rect =>
    exact iff_of_true rfl (.inl ⟨rect, List.mem_of_find?_eq_some kept, List.find?_some kept⟩)
  | none =>
    have outside := List.find?_eq_none.mp kept
    have default : ¬request.display.contains ⟨request.spot size gravity, size⟩ :=
      outside _ spot_mem_unresized
    have nowhere : ¬∃ rect ∈ request.unresized size gravity, request.display.contains rect :=
      fun ⟨rect, member, inside⟩ => outside rect member inside
    rw [Option.none_or, Option.none_or, cutDown_eq, find_resized_eq]
    simp only [nowhere, false_or]
    by_cases first : request.display.contains (request.resized size (request.spot size gravity))
    · simp [first]
    by_cases opposite : request.hints.antipodes
    swap
    · simp [first, opposite]
    simp only [first, opposite, Bool.false_eq_true, if_false, true_and, not_true_eq_false, false_or]
    generalize request.resized (request.again size gravity).size
      (request.again size gravity).topLeft = again
    generalize request.resized size (request.spot size gravity.antipodes) = fresh
    by_cases inAgain : request.display.contains again <;>
      by_cases inFresh : request.display.contains fresh <;> simp only [inAgain, inFresh, if_true,
        Bool.false_eq_true, if_false, Option.getD_some, Option.getD_none, not_true_eq_false,
        not_false_eq_true, and_true, and_false, or_false, and_self, or_true]
    · exact iff_of_false (fun eq => default (eq ▸ inAgain)) fun eq => inFresh (eq ▸ inAgain)
    · exact iff_of_false (fun eq => default (eq ▸ inFresh)) fun eq => inAgain (eq ▸ inFresh)

end PlacementRequest

/-- The result is the first candidate inside the display if and only if the third phase does not
carry over a size from one gravity to the next, or it makes no difference. -/
theorem place_relative_first_fit (places : parameters.Places request gravity) (size : Size) :
    placeRelative request.display request.parent parameters size =
        .ok (request.firstChoice (parameters.size.getD size) gravity) ↔
      request.Independent (parameters.size.getD size) gravity := by
  rw [places.placeRelative, PlacementRequest.search_eq_firstChoice places.winKnown places.rectKnown]

/-- Next to a field near the lower left corner of a window that fills the display, by its left
edge. -/
def PlacementRequest.cornered (hints : PlacementHints) : PlacementRequest where
  parent := ⟨⟨0, 0⟩, ⟨640, 480⟩⟩
  auxRect := ⟨⟨30, 400⟩, ⟨30, 80⟩⟩
  display := ⟨⟨0, 0⟩, ⟨640, 480⟩⟩
  hints := hints
  winGravity := .northeast
  offset := ⟨0, 0⟩

def WindowSpecification.cornered (hints : PlacementHints)
    (rectGravity : PlacementGravity) : WindowSpecification where
  auxRect := some ⟨⟨30, 400⟩, ⟨30, 80⟩⟩
  placementHints := some hints
  windowPlacementGravity := some .northeast
  auxRectPlacementGravity := some rectGravity

theorem places_cornered (hints : PlacementHints) (rectGravity : PlacementGravity)
    (known : rectGravity ≠ .other) : (WindowSpecification.cornered hints rectGravity).Places
      (PlacementRequest.cornered hints) rectGravity where
  hints := rfl
  winGravity := rfl
  rectGravity := rfl
  offset := rfl
  auxRect := ⟨_, rfl, rfl⟩
  winKnown := nofun
  rectKnown := known

/-- The width may be cut down, at either end of the field. -/
def PlacementHints.cutting : PlacementHints :=
  { PlacementHints.none with resizeX := true, antipodes := true }

/-- By the upper edge of the field the width is cut down; by the lower one a window that is too high
fits at neither end. -/
theorem place_relative_first_fit_cornered :
    placeRelative ⟨⟨0, 0⟩, ⟨640, 480⟩⟩ ⟨⟨0, 0⟩, ⟨640, 480⟩⟩ (.cornered .cutting .northwest)
        ⟨100, 80⟩ =
      .ok ((PlacementRequest.cornered .cutting).firstChoice ⟨100, 80⟩ .northwest) ∧
    placeRelative ⟨⟨0, 0⟩, ⟨640, 480⟩⟩ ⟨⟨0, 0⟩, ⟨640, 480⟩⟩ (.cornered .cutting .southwest) ⟨100, 100⟩ =
      .ok ((PlacementRequest.cornered .cutting).firstChoice ⟨100, 100⟩ .southwest) := by
  constructor
  · exact (place_relative_first_fit (places_cornered .cutting .northwest nofun) ⟨100, 80⟩).mpr
      (.inr (.inl (by decide)))
  · exact (place_relative_first_fit (places_cornered .cutting .southwest nofun) ⟨100, 100⟩).mpr
      (.inr (.inr (.inr (.inr (by decide)))))

/-- Below the field, 30 of the 100 columns are left, but nothing of the height; above it there
would be 60 columns, and the 30 are taken from there. -/
theorem place_relative_first_fit_fails :
    ¬∀ (parameters : WindowSpecification) request gravity, parameters.Places request gravity →
      ∀ size, placeRelative request.display request.parent parameters size =
        .ok (request.firstChoice (parameters.size.getD size) gravity) := by
  intro claim
  have first := claim _ _ _ (places_cornered .cutting .southwest nofun) ⟨100, 80⟩
  have result : placeRelative ⟨⟨0, 0⟩, ⟨640, 480⟩⟩ ⟨⟨0, 0⟩, ⟨640, 480⟩⟩ (.cornered .cutting .southwest)
      ⟨100, 80⟩ = .ok ⟨⟨30, 400⟩, ⟨30, 80⟩⟩ := by rfl
  have choice : (PlacementRequest.cornered .cutting).firstChoice ⟨100, 80⟩ .southwest =
      ⟨⟨0, 400⟩, ⟨60, 80⟩⟩ := by rfl
  have same := Except.ok.inj (result.symm.trans first)
  exact absurd (same.trans choice) (by decide)

namespace PlacementRequest

theorem contains_slid (slideX : request.hints.slideX) (slideY : request.hints.slideY)
    (width : size.width ≤ request.display.size.width)
    (height : size.height ≤ request.display.size.height) (p : Point) :
    request.display.contains ⟨request.slid size p, size⟩ := by
  have axis (position extent low high : Int) (fits : extent ≤ high - low) :
      low ≤ slide position extent low high ∧ slide position extent low high + extent ≤ high := by
    unfold slide
    split
    · omega
    · split <;> omega
  have across := axis p.x size.width request.display.left request.display.right
    (by unfold Rectangle.right Rectangle.left; omega)
  have down := axis p.y size.height request.display.top request.display.bottom
    (by unfold Rectangle.bottom Rectangle.top; omega)
  unfold Rectangle.contains slid
  rw [if_pos slideX, if_pos slideY]
  simp only [Bool.and_eq_true, decide_eq_true_eq]
  exact ⟨⟨⟨across.1, across.2⟩, down.1⟩, down.2⟩

theorem size_of_mem_unresized {rect : Rectangle} (member : rect ∈ request.unresized size gravity) :
    rect.size = size := by
  rcases List.mem_append.mp member with mirrored | slid
  · obtain ⟨g, -, flip, -, rfl⟩ := mem_mirrors.mp mirrored
    rfl
  · obtain ⟨g, -, rfl⟩ := List.mem_map.mp slid
    rfl

end PlacementRequest

/-- A window that is no larger than the display and may be slid both ways is placed inside it
at the size asked for. -/
theorem place_relative_slides (places : parameters.Places request gravity)
    (slideX : request.hints.slideX) (slideY : request.hints.slideY) (size : Size)
    (width : (parameters.size.getD size).width ≤ request.display.size.width)
    (height : (parameters.size.getD size).height ≤ request.display.size.height) :
    ∃ rect, placeRelative request.display request.parent parameters size = .ok rect ∧
      rect.size = parameters.size.getD size ∧ request.display.contains rect := by
  rw [places.placeRelative, PlacementRequest.search_eq places.winKnown places.rectKnown]
  generalize parameters.size.getD size = size at width height
  cases found : (request.unresized size gravity).find? request.display.contains with
  | some rect =>
    exact ⟨rect, rfl, PlacementRequest.size_of_mem_unresized (List.mem_of_find?_eq_some found),
      List.find?_some found⟩
  | none =>
    have member : ⟨request.slid size (request.spot size gravity), size⟩ ∈
        request.unresized size gravity :=
      List.mem_append_right _ (List.mem_map.mpr
        ⟨gravity, PlacementHints.mem_gravities.mpr (.inl rfl), rfl⟩)
    exact absurd (PlacementRequest.contains_slid slideX slideY width height _)
      (List.find?_eq_none.mp found _ member)

theorem place_relative_slides_cornered : ∃ rect,
    placeRelative ⟨⟨0, 0⟩, ⟨640, 480⟩⟩ ⟨⟨0, 0⟩, ⟨640, 480⟩⟩
      (.cornered { PlacementHints.none with slideX := true, slideY := true } .southwest)
      ⟨100, 80⟩ = .ok rect ∧
      rect.size = ⟨100, 80⟩ ∧ Rectangle.contains ⟨⟨0, 0⟩, ⟨640, 480⟩⟩ rect :=
  place_relative_slides (places_cornered _ .southwest nofun) rfl rfl ⟨100, 80⟩ (by decide) (by decide)

/-- Something of the second rectangle is inside the first. -/
def Rectangle.Shows (r other : Rectangle) : Prop :=
  max r.left other.left < min r.right other.right ∧ max r.top other.top < min r.bottom other.bottom

instance (r other : Rectangle) : Decidable (r.Shows other) := inferInstanceAs (Decidable (_ ∧ _))

namespace PlacementRequest

theorem shrink_eq (position extent low high : Int) : shrink position extent low high =
    (max low position, min high (position + extent) - max low position) := by
  unfold shrink
  grind

theorem resized_width (p : Point) : (request.resized size p).size.width =
    if request.hints.resizeX then
      min request.display.right (p.x + size.width) - max request.display.left p.x
    else size.width := by
  unfold resized
  simp only [shrink_eq]
  split <;> rfl

theorem resized_height (p : Point) : (request.resized size p).size.height =
    if request.hints.resizeY then
      min request.display.bottom (p.y + size.height) - max request.display.top p.y
    else size.height := by
  unfold resized
  simp only [shrink_eq]
  split <;> rfl

theorem resized_le (p : Point) : (request.resized size p).size.width ≤ size.width ∧
    (request.resized size p).size.height ≤ size.height := by
  rw [resized_width, resized_height]
  constructor
  · split <;> omega
  · split <;> omega

/-- A resized window inside the display has something left if and only if the window showed
before it was resized. -/
theorem resized_pos {p : Point} (inside : request.display.contains (request.resized size p)) :
    (0 < (request.resized size p).size.width ∧ 0 < (request.resized size p).size.height) ↔
      request.display.Shows ⟨p, size⟩ := by
  have across : ¬request.hints.resizeX → request.display.left ≤ p.x ∧
      p.x + size.width ≤ request.display.right := by
    intro fixed
    unfold resized at inside
    rw [if_neg fixed] at inside
    simp only [Rectangle.contains, Bool.and_eq_true, decide_eq_true_eq] at inside
    exact ⟨inside.1.1.1, inside.1.1.2⟩
  have down : ¬request.hints.resizeY → request.display.top ≤ p.y ∧
      p.y + size.height ≤ request.display.bottom := by
    intro fixed
    unfold resized at inside
    rw [if_neg fixed] at inside
    simp only [Rectangle.contains, Bool.and_eq_true, decide_eq_true_eq] at inside
    exact ⟨inside.1.2, inside.2⟩
  have whole : request.display.Shows ⟨p, size⟩ ↔
      max request.display.left p.x < min request.display.right (p.x + size.width) ∧
        max request.display.top p.y < min request.display.bottom (p.y + size.height) := Iff.rfl
  rw [whole, resized_width, resized_height]
  refine and_congr ?_ ?_
  · split
    · omega
    next fixed =>
      have := across fixed
      omega
  · split
    · omega
    next fixed =>
      have := down fixed
      omega

/-- The third phase is not reached, or the placement it takes shows something of the window. -/
def StaysInView (request : PlacementRequest) (size : Size) (gravity : PlacementGravity) : Prop :=
  (∃ rect ∈ request.unresized size gravity, request.display.contains rect) ∨
  if request.display.contains (request.resized size (request.spot size gravity)) then
    request.display.Shows ⟨request.spot size gravity, size⟩
  else request.hints.antipodes → request.display.contains
      (request.resized (request.again size gravity).size (request.again size gravity).topLeft) →
    request.display.Shows (request.again size gravity)

theorem again_le : (request.again size gravity).size.width ≤ size.width ∧
    (request.again size gravity).size.height ≤ size.height :=
  resized_le _

end PlacementRequest

/-- The result is never larger than asked for, and not degenerate if and only if no placement out
of view is resized into the display. -/
theorem place_relative_positive (places : parameters.Places request gravity) (size : Size)
    (width : 0 < (parameters.size.getD size).width)
    (height : 0 < (parameters.size.getD size).height) :
    ∃ rect, placeRelative request.display request.parent parameters size = .ok rect ∧
      (rect.size.width ≤ (parameters.size.getD size).width ∧
        rect.size.height ≤ (parameters.size.getD size).height) ∧
      ((0 < rect.size.width ∧ 0 < rect.size.height) ↔
        request.StaysInView (parameters.size.getD size) gravity) := by
  rw [places.placeRelative, PlacementRequest.search_eq places.winKnown places.rectKnown]
  generalize parameters.size.getD size = size at width height
  refine ⟨_, rfl, ?_⟩
  unfold PlacementRequest.StaysInView
  cases found : (request.unresized size gravity).find? request.display.contains with
  | some rect =>
    have member := List.mem_of_find?_eq_some found
    rw [Option.some_or, Option.getD_some, PlacementRequest.size_of_mem_unresized member]
    exact ⟨⟨Int.le_refl _, Int.le_refl _⟩,
      iff_of_true ⟨width, height⟩ (.inl ⟨rect, member, List.find?_some found⟩)⟩
  | none =>
    have nowhere : ¬∃ rect ∈ request.unresized size gravity, request.display.contains rect :=
      fun ⟨rect, member, inside⟩ => List.find?_eq_none.mp found rect member inside
    rw [Option.none_or, PlacementRequest.cutDown_eq]
    simp only [nowhere, false_or]
    by_cases first : request.display.contains (request.resized size (request.spot size gravity))
    · rw [if_pos first, if_pos first]
      exact ⟨PlacementRequest.resized_le _, PlacementRequest.resized_pos first⟩
    rw [if_neg first, if_neg first]
    split
    next second =>
      have less : (request.again size gravity).size.width ≤ size.width ∧ _ :=
        PlacementRequest.again_le
      have least : (request.resized (request.again size gravity).size
        (request.again size gravity).topLeft).size.width ≤ _ ∧ _ := PlacementRequest.resized_le _
      refine ⟨⟨Int.le_trans least.1 less.1, Int.le_trans least.2 less.2⟩, ?_⟩
      rw [Option.getD_some, PlacementRequest.resized_pos second.2]
      exact ⟨fun shows _ _ => shows, fun shows => shows second.1 second.2⟩
    next second =>
      refine ⟨⟨Int.le_refl _, Int.le_refl _⟩, iff_of_true ⟨width, height⟩ fun opposite inside => ?_⟩
      exact absurd ⟨opposite, inside⟩ second

/-- The width is cut down by the upper edge of the field, and twice by the lower one. -/
theorem place_relative_positive_cornered :
    (∃ rect, placeRelative ⟨⟨0, 0⟩, ⟨640, 480⟩⟩ ⟨⟨0, 0⟩, ⟨640, 480⟩⟩
        (.cornered .cutting .northwest) ⟨100, 80⟩ = .ok rect ∧
      0 < rect.size.width ∧ 0 < rect.size.height) ∧
    ∃ rect, placeRelative ⟨⟨0, 0⟩, ⟨640, 480⟩⟩ ⟨⟨0, 0⟩, ⟨640, 480⟩⟩ (.cornered .cutting .southwest)
        ⟨100, 80⟩ = .ok rect ∧ 0 < rect.size.width ∧ 0 < rect.size.height := by
  constructor
  · obtain ⟨rect, ok, -, positive⟩ := place_relative_positive
      (places_cornered .cutting .northwest nofun) ⟨100, 80⟩ (by decide) (by decide)
    exact ⟨rect, ok, positive.mpr (.inr (by decide))⟩
  · obtain ⟨rect, ok, -, positive⟩ := place_relative_positive
      (places_cornered .cutting .southwest nofun) ⟨100, 80⟩ (by decide) (by decide)
    exact ⟨rect, ok, positive.mpr (.inr (by decide))⟩

/-- A parent to the left of the display: the width goes down to -30. -/
def PlacementRequest.outside : PlacementRequest where
  parent := ⟨⟨-200, 0⟩, ⟨100, 100⟩⟩
  auxRect := ⟨⟨-200, 0⟩, ⟨100, 100⟩⟩
  display := ⟨⟨0, 0⟩, ⟨640, 480⟩⟩
  hints := { PlacementHints.none with resizeX := true }
  winGravity := .northwest
  offset := ⟨0, 0⟩

theorem place_relative_positive_fails :
    ¬∀ (parameters : WindowSpecification) request gravity, parameters.Places request gravity →
      0 ≤ request.parent.size.width → 0 ≤ request.parent.size.height →
      0 < request.display.size.width → 0 < request.display.size.height → ∀ size rect,
      0 < (parameters.size.getD size).width → 0 < (parameters.size.getD size).height →
      placeRelative request.display request.parent parameters size = .ok rect →
      0 < rect.size.width ∧ 0 < rect.size.height := by
  intro claim
  let parameters : WindowSpecification :=
    { auxRect := some ⟨⟨0, 0⟩, ⟨100, 100⟩⟩
      placementHints := some PlacementRequest.outside.hints
      windowPlacementGravity := some .northwest
      auxRectPlacementGravity := some .northeast }
  have places : parameters.Places .outside .northeast :=
    ⟨rfl, rfl, rfl, rfl, ⟨_, rfl, rfl⟩, nofun, nofun⟩
  have positive := claim _ _ _ places (by decide) (by decide) (by decide) (by decide) ⟨70, 50⟩
    ⟨⟨0, 0⟩, ⟨-30, 50⟩⟩ (by decide) (by decide) (by rfl)
  exact absurd positive.1 (by decide)

def Rectangle.Holds (r : Rectangle) (p : Point) : Prop :=
  (r.left ≤ p.x ∧ p.x ≤ r.right) ∧ r.top ≤ p.y ∧ p.y ≤ r.bottom

/-- The point of a rectangle that is reached from another point by the least movement. -/
structure Rectangle.Nearest (r : Rectangle) (a p : Point) : Prop where
  holds : r.Holds p
  across : ∀ q, r.Holds q → |p.x - a.x| ≤ |q.x - a.x|
  down : ∀ q, r.Holds q → |p.y - a.y| ≤ |q.y - a.y|

theorem nearest_constrainTo {r : Rectangle} (width : 0 ≤ r.size.width) (height : 0 ≤ r.size.height)
    (a : Point) : r.Nearest a (constrainTo r a) := by
  have clamp (low high x : Int) (le : low ≤ high) :
      let raised := if x < low then low else x
      let clamped := if raised > high then high else raised
      (low ≤ clamped ∧ clamped ≤ high) ∧
        ∀ y, low ≤ y ∧ y ≤ high → |clamped - x| ≤ |y - x| := by
    intro raised clamped
    have cases : x < low ∧ clamped = low ∨ low ≤ x ∧ x ≤ high ∧ clamped = x ∨
        high < x ∧ clamped = high := by grind
    rcases cases with ⟨less, eq⟩ | ⟨least, most, eq⟩ | ⟨more, eq⟩
    · refine ⟨by omega, fun y bounds => ?_⟩
      rw [eq, abs_of_nonneg (by omega), abs_of_nonneg (by omega)]
      omega
    · refine ⟨by omega, fun y bounds => ?_⟩
      rw [eq, sub_self, abs_zero]
      exact abs_nonneg _
    · refine ⟨by omega, fun y bounds => ?_⟩
      rw [eq, abs_of_nonpos (by omega), abs_of_nonpos (by omega)]
      omega
  obtain ⟨inX, leastX⟩ := clamp r.left r.right a.x (by unfold Rectangle.right Rectangle.left; omega)
  obtain ⟨inY, leastY⟩ := clamp r.top r.bottom a.y (by unfold Rectangle.bottom Rectangle.top; omega)
  exact ⟨⟨inX, inY⟩, fun q held => leastX q.x held.1, fun q held => leastY q.y held.2⟩

theorem anchorAt_offsetAt {p : Point} (known : gravity ≠ .other) :
    anchorAt ⟨p + offsetAt size gravity, size⟩ gravity = p := by
  have halves (value : Int) : half (-value) = -half value := Int.neg_tdiv value 2
  cases gravity <;>
    simp_all [anchorAt, offsetAt, anchorFor, offsetFor, Except.toOption, Rectangle.topRight,
      Rectangle.bottomLeft, Rectangle.bottomRight, Rectangle.right, Rectangle.bottom, Rectangle.left,
      Rectangle.top, asDisplacement, Displacement.half] <;>
    apply Point.ext <;> simp

/-- The window hangs on its parent by the point its gravity stands for, in one of the mirrors that
are allowed. -/
def PlacementRequest.Anchored (request : PlacementRequest) (gravity : PlacementGravity)
    (rect : Rectangle) : Prop :=
  ∃ (x y : Bool) (g : PlacementGravity), (x → request.hints.flipX) ∧ (y → request.hints.flipY) ∧
    (g = gravity ∨ request.hints.antipodes ∧ g = gravity.antipodes) ∧
    request.parent.Nearest (anchorAt request.auxRect (g.flip x y) + request.offset.flip x y)
      (anchorAt rect (request.winGravity.flip x y))

namespace PlacementRequest

/-- Without slides and resizes there is only the first phase. -/
theorem search_mirrored (winKnown : request.winGravity ≠ .other) (rectKnown : gravity ≠ .other)
    (slides : ¬request.hints.slideX ∧ ¬request.hints.slideY)
    (resizes : ¬request.hints.resizeX ∧ ¬request.hints.resizeY) : request.search size gravity =
      .ok (((request.mirrors size gravity).find? request.display.contains).getD
        (request.mirrored size gravity (false, false))) := by
  rw [search_eq winKnown rectKnown, unresized, List.find?_append]
  cases found : (request.mirrors size gravity).find? request.display.contains with
  | some rect => rfl
  | none =>
    have outside {g : PlacementGravity} (member : g ∈ request.hints.gravities gravity) :
        ¬request.display.contains ⟨request.spot size g, size⟩ :=
      List.find?_eq_none.mp found _ (mem_mirrors.mpr
        ⟨g, member, (false, false), PlacementHints.straight_mem_flips, rfl⟩)
    have still (p : Point) : request.slid size p = p := by simp [slid, slides]
    have kept (s : Size) (p : Point) : request.resized s p = ⟨p, s⟩ := by simp [resized, resizes]
    have again : request.again size gravity = ⟨request.spot size gravity.antipodes, size⟩ := by
      rw [PlacementRequest.again, kept]
    have first := outside (PlacementHints.mem_gravities.mpr (.inl rfl))
    have second : ¬(request.hints.antipodes ∧
        request.display.contains ⟨request.spot size gravity.antipodes, size⟩) :=
      fun both => outside (PlacementHints.mem_gravities.mpr (.inr ⟨both.1, rfl⟩)) both.2
    have slid : ((request.hints.gravities gravity).map fun g => Rectangle.mk
        (request.slid size (request.spot size g)) size).find? request.display.contains = none := by
      refine List.find?_eq_none.mpr fun rect member => ?_
      obtain ⟨g, g_mem, rfl⟩ := List.mem_map.mp member
      rw [still]
      exact outside g_mem
    rw [Option.none_or, slid, Option.none_or, cutDown_eq, again, kept, kept, if_neg first,
      if_neg second]
    rfl

theorem anchored_mirrored (known : request.winGravity ≠ .other)
    (width : 0 ≤ request.parent.size.width) (height : 0 ≤ request.parent.size.height)
    {g : PlacementGravity} (g_mem : g ∈ request.hints.gravities gravity) {flip : Bool × Bool}
    (flip_mem : flip ∈ request.hints.flips) :
    request.Anchored gravity (request.mirrored size g flip) := by
  obtain ⟨allowsX, allowsY⟩ := PlacementHints.mem_flips.mp flip_mem
  refine ⟨flip.1, flip.2, g, allowsX, allowsY, PlacementHints.mem_gravities.mp g_mem, ?_⟩
  rw [mirrored, anchorAt_offsetAt (PlacementGravity.flip_known known)]
  exact nearest_constrainTo width height _

end PlacementRequest

/-- Without slides and resizes the window keeps the size asked for and stays anchored to its
parent. -/
theorem place_relative_anchored (places : parameters.Places request gravity)
    (slides : ¬request.hints.slideX ∧ ¬request.hints.slideY)
    (resizes : ¬request.hints.resizeX ∧ ¬request.hints.resizeY)
    (width : 0 ≤ request.parent.size.width) (height : 0 ≤ request.parent.size.height) (size : Size) :
    ∃ rect, placeRelative request.display request.parent parameters size = .ok rect ∧
      rect.size = parameters.size.getD size ∧ request.Anchored gravity rect := by
  rw [places.placeRelative, PlacementRequest.search_mirrored places.winKnown places.rectKnown slides
    resizes]
  generalize parameters.size.getD size = size
  refine ⟨_, rfl, ?_⟩
  cases found : (request.mirrors size gravity).find? request.display.contains with
  | some rect =>
    obtain ⟨g, g_mem, flip, flip_mem, rfl⟩ := PlacementRequest.mem_mirrors.mp
      (List.mem_of_find?_eq_some found)
    exact ⟨rfl, PlacementRequest.anchored_mirrored places.winKnown width height g_mem flip_mem⟩
  | none =>
    exact ⟨rfl, PlacementRequest.anchored_mirrored places.winKnown width height
      (PlacementHints.mem_gravities.mpr (.inl rfl)) PlacementHints.straight_mem_flips⟩

theorem place_relative_anchored_cornered : ∃ rect,
    placeRelative ⟨⟨0, 0⟩, ⟨640, 480⟩⟩ ⟨⟨0, 0⟩, ⟨640, 480⟩⟩ (.cornered .flipAny .southwest) ⟨101, 81⟩ =
      .ok rect ∧ rect.size = ⟨101, 81⟩ ∧
      (PlacementRequest.cornered .flipAny).Anchored .southwest rect :=
  place_relative_anchored (places_cornered .flipAny .southwest nofun) (by decide) (by decide) (by decide) (by decide)
    ⟨101, 81⟩

end Miral
