import Miral.RelativePlacement

/-! The placements `place_relative` considers, as one list: what it returns is the first of them
inside the display, as long as the third phase does not start from a size it has cut down. -/
namespace Miral

/-- The gravity seen in a mirror, from left to right and from top to bottom. -/
def PlacementGravity.flip (x y : Bool) (gravity : PlacementGravity) : PlacementGravity :=
  let gravity := if y then gravity.flipY else gravity
  if x then gravity.flipX else gravity

def Displacement.flip (x y : Bool) (d : Displacement) : Displacement :=
  let d := if y then d.flipY else d
  if x then d.flipX else d

/-- The mirrors the hints allow, in the order of the first phase. -/
def PlacementHints.flips (hints : PlacementHints) : List (Bool × Bool) :=
  [(false, false)] ++ (if hints.flipX then [(true, false)] else []) ++
    (if hints.flipY then [(false, true)] else []) ++
    (if hints.flipX ∧ hints.flipY then [(true, true)] else [])

/-- The gravity of the parent, then its antipode if it may be tried. -/
def PlacementHints.gravities (hints : PlacementHints) (gravity : PlacementGravity) :
    List PlacementGravity :=
  [gravity] ++ (if hints.antipodes then [gravity.antipodes] else [])

/-- The point of a rectangle a gravity stands for. -/
def anchorAt (rect : Rectangle) (gravity : PlacementGravity) : Point :=
  (anchorFor rect gravity).toOption.getD rect.topLeft

/-- From the point a gravity stands for to the top left corner. -/
def offsetAt (size : Size) (gravity : PlacementGravity) : Displacement :=
  (offsetFor size gravity).toOption.getD ⟨0, 0⟩

theorem anchorFor_eq {rect : Rectangle} {gravity : PlacementGravity} (known : gravity ≠ .other) :
    anchorFor rect gravity = .ok (anchorAt rect gravity) := by
  cases gravity <;> first | rfl | contradiction

theorem offsetFor_eq {size : Size} {gravity : PlacementGravity} (known : gravity ≠ .other) :
    offsetFor size gravity = .ok (offsetAt size gravity) := by
  cases gravity <;> first | rfl | contradiction

theorem PlacementGravity.flip_known {gravity : PlacementGravity} {x y : Bool}
    (known : gravity ≠ .other) : gravity.flip x y ≠ .other := by
  cases x <;> cases y
  · exact known
  · exact flipY_known known
  · exact flipX_known known
  · exact flipX_known (flipY_known known)

theorem PlacementHints.mem_flips {hints : PlacementHints} {x y : Bool} :
    (x, y) ∈ hints.flips ↔ (x → hints.flipX) ∧ (y → hints.flipY) := by
  unfold flips
  cases x <;> cases y <;> cases hints.flipX <;> cases hints.flipY <;> simp

theorem PlacementHints.straight_mem_flips {hints : PlacementHints} : (false, false) ∈ hints.flips :=
  mem_flips.mpr ⟨by simp, by simp⟩

theorem PlacementHints.mem_gravities {hints : PlacementHints} {gravity g : PlacementGravity} :
    g ∈ hints.gravities gravity ↔ g = gravity ∨ hints.antipodes ∧ g = gravity.antipodes := by
  unfold gravities
  cases hints.antipodes <;> simp

theorem PlacementHints.gravities_known {hints : PlacementHints} {gravity g : PlacementGravity}
    (known : gravity ≠ .other) (member : g ∈ hints.gravities gravity) : g ≠ .other := by
  rcases mem_gravities.mp member with rfl | ⟨-, rfl⟩
  · exact known
  · exact PlacementGravity.antipodes_known known

namespace PlacementRequest

variable (request : PlacementRequest) (size : Size) (gravity : PlacementGravity)

def anchor (gravity : PlacementGravity) (offset : Displacement) : Point :=
  constrainTo request.parent (anchorAt request.auxRect gravity + offset)

def mirrored (flip : Bool × Bool) : Rectangle :=
  ⟨request.anchor (gravity.flip flip.1 flip.2) (request.offset.flip flip.1 flip.2) +
    offsetAt size (request.winGravity.flip flip.1 flip.2), size⟩

def spot : Point := request.anchor gravity request.offset + offsetAt size request.winGravity

def mirrors : List Rectangle :=
  (request.hints.gravities gravity).flatMap fun g =>
    request.hints.flips.map (request.mirrored size g)

def unresized : List Rectangle :=
  request.mirrors size gravity ++ (request.hints.gravities gravity).map fun g =>
      ⟨request.slid size (request.spot size g), size⟩

def candidates : List Rectangle :=
  request.unresized size gravity ++
    (request.hints.gravities gravity).map fun g => request.resized size (request.spot size g)

/-- What the search is for: the first candidate inside the display, else the first of all. -/
def firstChoice : Rectangle :=
  ((request.candidates size gravity).find? request.display.contains).getD
    ⟨request.spot size gravity, size⟩

/-- The third phase, each size starting from the one before. -/
def cutDown (size : Size) : List PlacementGravity → Option Rectangle
  | [] => none
  | g :: rest =>
    let rect := request.resized size (request.spot size g)
    if request.display.contains rect then some rect else cutDown rect.size rest

variable {request size gravity} {rectGravity winGravity : PlacementGravity} {offset : Displacement}

theorem mem_mirrors {rect : Rectangle} : rect ∈ request.mirrors size gravity ↔
    ∃ g ∈ request.hints.gravities gravity, ∃ flip ∈ request.hints.flips,
      request.mirrored size g flip = rect := by
  simp only [mirrors, List.mem_flatMap, List.mem_map]

theorem position_eq (rectKnown : rectGravity ≠ .other) (winKnown : winGravity ≠ .other) :
    request.position size rectGravity winGravity offset =
      .ok (request.anchor rectGravity offset + offsetAt size winGravity) := by
  rw [position, anchorFor_eq rectKnown, offsetFor_eq winKnown]
  rfl

theorem firstFit_eq (points : List Point) : request.firstFit size (points.map .ok) =
    .ok ((points.map (Rectangle.mk · size)).find? request.display.contains) := by
  induction points with
  | nil => rfl
  | cons p rest ih =>
    change (if request.display.contains ⟨p, size⟩ then _ else _) = _
    by_cases inside : request.display.contains ⟨p, size⟩
    · simp [inside, pure, Except.pure]
    · simp [inside, ih]

section Known

variable (known : request.winGravity ≠ .other)

include known

theorem direct_eq (gravityKnown : gravity ≠ .other) :
    request.direct size gravity = .ok (request.spot size gravity) :=
  position_eq gravityKnown known

theorem flips_eq (gravityKnown : gravity ≠ .other) : request.flips size gravity =
    (request.hints.flips.map fun flip => (request.mirrored size gravity flip).topLeft).map .ok := by
  have mirror (x y : Bool) : request.position size (gravity.flip x y) (request.winGravity.flip x y)
      (request.offset.flip x y) = .ok (request.mirrored size gravity (x, y)).topLeft :=
    position_eq (PlacementGravity.flip_known gravityKnown) (PlacementGravity.flip_known known)
  have none := mirror false false
  have across := mirror true false
  have down := mirror false true
  have both := mirror true true
  simp only [PlacementGravity.flip, Displacement.flip, if_true, Bool.false_eq_true, if_false] at *
  unfold flips PlacementHints.flips direct
  simp only [none, across, down, both]
  cases request.hints.flipX <;> cases request.hints.flipY <;> simp

theorem firstResized_eq {gravities : List PlacementGravity}
    (all : ∀ g ∈ gravities, g ≠ .other) :
    request.firstResized size gravities = .ok (request.cutDown size gravities) := by
  induction gravities generalizing size with
  | nil => rfl
  | cons g rest ih =>
    have rest_known (size : Size) : request.firstResized size rest = .ok (request.cutDown size rest) :=
      ih fun g member => all g (List.mem_cons_of_mem _ member)
    rw [firstResized, direct_eq known (all g List.mem_cons_self)]
    change (if request.display.contains (request.resized size (request.spot size g)) then _ else _) = _
    rw [cutDown]
    split
    · rfl
    · exact rest_known _

/-- The search as it is: the candidates that keep the size, then those of the third phase. -/
theorem search_eq (gravityKnown : gravity ≠ .other) : request.search size gravity =
    .ok ((((request.unresized size gravity).find? request.display.contains).or
      (request.cutDown size (request.hints.gravities gravity))).getD
        ⟨request.spot size gravity, size⟩) := by
  have among (g : PlacementGravity) (member : g ∈ request.hints.gravities gravity) : g ≠ .other :=
    PlacementHints.gravities_known gravityKnown member
  have first : (request.hints.gravities gravity).flatMap (request.flips size) =
      ((request.hints.gravities gravity).flatMap fun g =>
        request.hints.flips.map fun flip => (request.mirrored size g flip).topLeft).map .ok := by
    rw [List.map_flatMap]
    exact List.flatMap_congr fun g member => flips_eq known (among g member)
  have second : request.slides size (request.hints.gravities gravity) =
      ((request.hints.gravities gravity).map fun g =>
        request.slid size (request.spot size g)).map .ok := by
    rw [slides, List.map_map]
    apply List.map_congr_left
    intro g member
    rw [direct_eq known (among g member)]
    rfl
  have gravities : [gravity] ++ (if request.hints.antipodes then [gravity.antipodes] else []) =
    request.hints.gravities gravity := rfl
  dsimp only [search]
  rw [gravities, first, second, firstFit_eq, firstFit_eq, direct_eq known gravityKnown,
    firstResized_eq known among, unresized, mirrors, List.find?_append, List.map_flatMap]
  simp only [List.map_map, Function.comp_def]
  change (do
    let flipped ← Except.ok (ε := Failure) (List.find? request.display.contains
      ((request.hints.gravities gravity).flatMap fun g =>
        request.hints.flips.map (request.mirrored size g)))
    _) = _
  cases List.find? request.display.contains ((request.hints.gravities gravity).flatMap fun g =>
    request.hints.flips.map (request.mirrored size g)) with
  | some rect => rfl
  | none =>
    change (do
      let slid ← Except.ok (ε := Failure) (List.find? request.display.contains
        ((request.hints.gravities gravity).map fun g =>
          Rectangle.mk (request.slid size (request.spot size g)) size))
      _) = _
    cases List.find? request.display.contains ((request.hints.gravities gravity).map fun g =>
      Rectangle.mk (request.slid size (request.spot size g)) size) with
    | some rect => rfl
    | none => cases request.cutDown size (request.hints.gravities gravity) <;> rfl

end Known

end PlacementRequest

end Miral
