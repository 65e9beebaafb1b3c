import Miral.Library.Program
import Miral.Placement

/-! When `place_relative` has a rectangle: it fails on the values it needs and on gravities
it does not know, never on the rectangles it is given. -/
namespace Miral

open Program

namespace PlacementGravity

variable {gravity : PlacementGravity}

theorem flipX_known (known : gravity ≠ .other) : gravity.flipX ≠ .other := by
  cases gravity <;> simp_all [flipX]

theorem flipY_known (known : gravity ≠ .other) : gravity.flipY ≠ .other := by
  cases gravity <;> simp_all [flipY]

theorem antipodes_known (known : gravity ≠ .other) : gravity.antipodes ≠ .other := by
  cases gravity <;> simp_all [antipodes]

end PlacementGravity

namespace PlacementRequest

variable {request : PlacementRequest} {size : Size} {rectGravity winGravity : PlacementGravity}
  {offset : Displacement}

theorem position_ok_iff : (∃ p, request.position size rectGravity winGravity offset = .ok p) ↔
    rectGravity ≠ .other ∧ winGravity ≠ .other := by
  cases rectGravity <;> cases winGravity <;>
    simp [position, anchorFor, offsetFor, badGravity, bind, Except.bind, pure, Except.pure]

theorem firstFit_ok {candidates : List (Except Failure Point)}
    (all : ∀ candidate ∈ candidates, ∃ p, candidate = .ok p) :
    ∃ found, request.firstFit size candidates = .ok found := by
  induction candidates with
  | nil => exact ⟨none, rfl⟩
  | cons candidate rest ih =>
    obtain ⟨p, rfl⟩ := all candidate (by simp)
    change ∃ found, (if request.display.contains ⟨p, size⟩ then _ else _) = Except.ok found
    split
    · exact ⟨_, rfl⟩
    · exact ih fun candidate member => all candidate (by simp [member])

theorem mem_flips {candidate : Except Failure Point}
    (member : candidate ∈ request.flips size rectGravity) : ∃ rg wg offset,
      candidate = request.position size rg wg offset ∧ (rectGravity ≠ .other → rg ≠ .other) ∧
        (request.winGravity ≠ .other → wg ≠ .other) := by
  simp only [flips, List.mem_append] at member
  rcases member with ((first | x) | y) | both
  · exact ⟨_, _, _, List.mem_singleton.mp first, id, id⟩
  · split at x
    · exact ⟨_, _, _, List.mem_singleton.mp x, PlacementGravity.flipX_known,
        PlacementGravity.flipX_known⟩
    · contradiction
  · split at y
    · exact ⟨_, _, _, List.mem_singleton.mp y, PlacementGravity.flipY_known,
        PlacementGravity.flipY_known⟩
    · contradiction
  · split at both
    · exact ⟨_, _, _, List.mem_singleton.mp both,
        fun known => PlacementGravity.flipX_known (PlacementGravity.flipY_known known),
        fun known => PlacementGravity.flipX_known (PlacementGravity.flipY_known known)⟩
    · contradiction

section Known

variable (known : request.winGravity ≠ .other)

include known

theorem direct_ok (gravity : rectGravity ≠ .other) :
    ∃ p, request.direct size rectGravity = .ok p :=
  position_ok_iff.mpr ⟨gravity, known⟩

theorem flips_ok (gravity : rectGravity ≠ .other) :
    ∀ candidate ∈ request.flips size rectGravity, ∃ p, candidate = .ok p := by
  intro candidate member
  obtain ⟨rg, wg, offset, rfl, rectKnown, winKnown⟩ := mem_flips member
  exact position_ok_iff.mpr ⟨rectKnown gravity, winKnown known⟩

theorem firstResized_ok {gravities : List PlacementGravity}
    (all : ∀ gravity ∈ gravities, gravity ≠ .other) :
    ∃ found, request.firstResized size gravities = .ok found := by
  induction gravities generalizing size with
  | nil => exact ⟨none, rfl⟩
  | cons gravity rest ih =>
    obtain ⟨p, direct⟩ : ∃ p, request.direct size gravity = .ok p :=
      direct_ok known (all gravity (by simp))
    rw [firstResized, direct]
    change ∃ found, (if request.display.contains (request.resized size p) then _ else _) =
      Except.ok found
    split
    · exact ⟨_, rfl⟩
    · exact ih fun gravity member => all gravity (by simp [member])

theorem search_ok (gravity : rectGravity ≠ .other) :
    ∃ rect, request.search size rectGravity = .ok rect := by
  have gravities : ∀ g ∈ [rectGravity] ++
      (if request.hints.antipodes then [rectGravity.antipodes] else []), g ≠ .other := by
    intro g member
    rcases List.mem_append.mp member with own | opposite
    · obtain rfl := List.mem_singleton.mp own
      exact gravity
    · split at opposite
      · obtain rfl := List.mem_singleton.mp opposite
        exact PlacementGravity.antipodes_known gravity
      · contradiction
  have fits (candidates : List (Except Failure Point))
      (all : ∀ candidate ∈ candidates, ∃ p, candidate = .ok p) :
      ∃ found, request.firstFit size candidates = .ok found := firstFit_ok all
  have direct (g : PlacementGravity) (gKnown : g ≠ .other) :
      ∃ p, request.direct size g = .ok p := direct_ok known gKnown
  obtain ⟨flipped, flips⟩ := fits (List.flatMap (request.flips size) _) fun candidate member => by
    obtain ⟨g, among, one⟩ := List.mem_flatMap.mp member
    exact flips_ok known (gravities g among) candidate one
  obtain ⟨p, default⟩ := direct rectGravity gravity
  obtain ⟨slid, slides⟩ := fits (request.slides size _) fun candidate member => by
    obtain ⟨g, among, rfl⟩ := List.mem_map.mp member
    obtain ⟨q, eq⟩ := direct g (gravities g among)
    exact ⟨_, by rw [eq]; rfl⟩
  obtain ⟨resized, resizes⟩ : ∃ found, request.firstResized size _ = .ok found :=
    firstResized_ok known gravities
  rw [search, flips, default, slides, resizes]
  cases flipped with
  | some rect => exact ⟨rect, rfl⟩
  | none =>
    cases slid with
    | some rect => exact ⟨rect, rfl⟩
    | none =>
      cases resized with
      | some rect => exact ⟨rect, rfl⟩
      | none => exact ⟨_, rfl⟩

end Known

theorem search_known {rect : Rectangle} (ok : request.search size rectGravity = .ok rect) :
    rectGravity ≠ .other ∧ request.winGravity ≠ .other := by
  cases first : request.direct size rectGravity with
  | ok p => exact position_ok_iff.mp ⟨p, first⟩
  | error failure =>
    simp [search, flips, first, firstFit, bind, Except.bind] at ok

section Failures

theorem position_throws :
    FailsOnly (¬·.Traps) (request.position size rectGravity winGravity offset) := by
  refine .bind ?_ fun _ => .bind ?_ fun _ => .ok _
  · cases rectGravity <;> first | exact .ok _ | exact .error (by simp [badGravity, Failure.Traps])
  · cases winGravity <;> first | exact .ok _ | exact .error (by simp [badGravity, Failure.Traps])

theorem firstFit_throws {candidates : List (Except Failure Point)}
    (all : ∀ candidate ∈ candidates, FailsOnly (¬·.Traps) candidate) :
    FailsOnly (¬·.Traps) (request.firstFit size candidates) := by
  induction candidates with
  | nil => exact .ok _
  | cons candidate rest ih =>
    refine .bind (all candidate (by simp)) fun result => ?_
    split
    · exact .ok _
    · exact ih fun candidate member => all candidate (by simp [member])

theorem flips_throws : ∀ candidate ∈ request.flips size rectGravity,
    FailsOnly (¬·.Traps) candidate := by
  intro candidate member
  obtain ⟨rg, wg, offset, rfl, -⟩ := mem_flips member
  exact position_throws

theorem firstResized_throws {gravities : List PlacementGravity} :
    FailsOnly (¬·.Traps) (request.firstResized size gravities) := by
  induction gravities generalizing size with
  | nil => exact .ok _
  | cons gravity rest ih =>
    refine .bind position_throws fun result => ?_
    dsimp only
    split
    · exact .ok _
    · exact ih

theorem search_throws : FailsOnly (¬·.Traps) (request.search size rectGravity) := by
  refine .bind (firstFit_throws ?_) fun flipped => ?_
  · intro candidate member
    obtain ⟨g, -, one⟩ := List.mem_flatMap.mp member
    exact flips_throws candidate one
  cases flipped with
  | some rect => exact .ok _
  | none =>
    refine .bind position_throws fun result => .bind (firstFit_throws ?_) fun slid => ?_
    · intro candidate member
      obtain ⟨g, -, rfl⟩ := List.mem_map.mp member
      exact .map position_throws
    cases slid with
    | some rect => exact .ok _
    | none =>
      refine .bind firstResized_throws fun resized => ?_
      cases resized with
      | some rect => exact .ok _
      | none => exact .ok _

end Failures

end PlacementRequest

/-- The request sets what `place_relative` reads beside the hints, to gravities it knows. -/
def WindowSpecification.placeable (modifications : WindowSpecification) : Bool :=
  modifications.auxRect.isSome && modifications.windowPlacementGravity.any (· ≠ .other) &&
    modifications.auxRectPlacementGravity.any (· ≠ .other)

theorem placeRelative_ok_iff {display parent : Rectangle} {modifications : WindowSpecification}
    {size : Size} (hints : modifications.placementHints.isSome) :
    (∃ rect, placeRelative display parent modifications size = .ok rect) ↔
      modifications.placeable := by
  obtain ⟨hints, asks⟩ := Option.isSome_iff_exists.mp hints
  rw [placeRelative, asks, WindowSpecification.placeable]
  cases win : modifications.windowPlacementGravity with
  | none => simp [Failure.valueOf, bind, Except.bind]
  | some winGravity =>
    cases aux : modifications.auxRect with
    | none => simp [Failure.valueOf, bind, Except.bind]
    | some auxRect =>
      cases rect : modifications.auxRectPlacementGravity with
      | none => simp [Failure.valueOf, bind, Except.bind]
      | some rectGravity =>
        simp only [Failure.valueOf, bind, Except.bind, Option.isSome_some, Option.any_some,
          Bool.true_and, Bool.and_eq_true, decide_eq_true_eq]
        constructor
        · rintro ⟨rect, ok⟩
          exact (PlacementRequest.search_known ok).symm
        · rintro ⟨winKnown, rectKnown⟩
          exact PlacementRequest.search_ok winKnown rectKnown

theorem placeRelative_throws {display parent : Rectangle} {modifications : WindowSpecification}
    {size : Size} :
    FailsOnly (¬·.Traps) (placeRelative display parent modifications size) := by
  have value {α : Type} (o : Option α) : FailsOnly (¬·.Traps) (Failure.valueOf o) := by
    cases o with
    | some a => exact .ok a
    | none => exact .error (by decide)
  exact .bind (value _) fun _ => .bind (value _) fun _ => .bind (value _) fun _ =>
    .bind (value _) fun _ => PlacementRequest.search_throws

end Miral
