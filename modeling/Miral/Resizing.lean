import Miral.SizeLimits
import Miral.WorkspaceVisibility

/-! What a resize makes of the size a client or a user asks for: when it divides by zero, when
the result satisfies the constraints, and when the edge that is not dragged stays. -/
namespace Miral

open Rounding Machine Model

namespace AspectRatio

variable {ratio : AspectRatio} {size : Size}

theorem zero_terms {a b : Nat} {x y : Int} : ¬(x * b < y * a ∧ (a = 0 ∨ b = 0)) ↔
    (a = 0 → b = 0 ∨ 0 ≤ x) ∧ (b = 0 → a = 0 ∨ y ≤ 0) := by
  rcases Nat.eq_zero_or_pos a with rfl | a_pos <;> rcases Nat.eq_zero_or_pos b with rfl | b_pos
  · simp
  · have sign : x * b < 0 ↔ x < 0 := ⟨fun neg => by nlinarith, fun neg => by nlinarith⟩
    simp [sign, b_pos.ne']
  · have sign : 0 < y * a ↔ 0 < y := mul_pos_iff_of_pos_right (by omega)
    simp [sign, a_pos.ne']
  · simp [a_pos.ne', b_pos.ne']

theorem widens_of_empty (width : 0 < ratio.width) (height : 0 < ratio.height)
    (empty : size.width = 0) :
    ratio.widthFrom size.height - size.width < size.height - ratio.heightUpTo size.width ↔
      size.height * ratio.width ≤ (size.height - 1) * ratio.height := by
  have flat : ratio.heightUpTo size.width = 0 := by
    have least := (le_heightUpTo_iff (w := size.width) (h := 0) width).mpr (by simp [empty])
    have most : ¬1 ≤ ratio.heightUpTo size.width := by
      rw [le_heightUpTo_iff width, empty]
      omega
    omega
  rw [← widthFrom_le_iff height]
  omega

/-- What keeps the corrections of the two aspect ratios from dividing by a term that is zero. A
ratio of zero to something is about widths below zero, a ratio of something to zero about
heights above it; the second ratio is for what the first has made of the size. -/
structure Divisible (least greatest : AspectRatio) (grid corrected : Size) : Prop where
  leastWidth : least.width = 0 → least.height = 0 ∨ 0 ≤ grid.width
  leastHeight : least.height = 0 → least.width = 0 ∨ grid.height ≤ 0
  greatestHeight : greatest.height = 0 → greatest.width = 0 ∨ 0 ≤ corrected.height
  greatestWidth : greatest.width = 0 → greatest.height = 0 ∨ corrected.width ≤ 0

/-- The width of a size that has been made wide enough is zero only if it was zero before and it
took no less to widen the size than to lower it. -/
theorem widened_width_nonpos (nonneg : size.Nonneg)
    (terms : ¬(ratio.Narrow size ∧ (ratio.width = 0 ∨ ratio.height = 0))) :
    (ratio.widened size).width ≤ 0 ↔ size.width = 0 ∧ (0 < size.height → 0 < ratio.width →
      (size.height - 1) * ratio.height < size.height * ratio.width) := by
  have left := nonneg.1
  by_cases narrow : ratio.Narrow size
  · have some : 0 < ratio.width ∧ 0 < ratio.height := by
      have := not_and.mp terms narrow
      omega
    have tall : 0 < size.height := by
      unfold Narrow at narrow
      have := nonneg.2
      nlinarith
    rcases widens_or_lowers narrow with less | less
    · rw [widened_eq.1 less]
      have wider : size.width < ratio.widthFrom size.height :=
        Int.not_le.mp fun enough => Int.not_le.mpr narrow ((widthFrom_le_iff some.2).mp enough)
      refine iff_of_false (by simp only; omega) fun ⟨empty, square⟩ => ?_
      exact Int.not_lt.mpr ((widens_of_empty some.1 some.2 empty).mp less.2) (square tall some.1)
    · rw [widened_eq.2.1 less]
      refine ⟨fun nonpos => ⟨by simp only at nonpos; omega, fun _ _ => ?_⟩, fun both => both.1.le⟩
      by_contra square
      have empty : size.width = 0 := by simp only at nonpos; omega
      have := (widens_of_empty some.1 some.2 empty).mpr (Int.not_lt.mp square)
      exact Int.not_lt.mpr less.2 this
  · rw [widened_eq.2.2 narrow]
    refine ⟨fun nonpos => ⟨by omega, fun tall some => ?_⟩, fun both => both.1.le⟩
    unfold Narrow at narrow
    have empty : size.width = 0 := by omega
    rw [empty] at narrow
    nlinarith

end AspectRatio

namespace WindowInfo

variable {info : WindowInfo} {ratio : AspectRatio} {size grid : Size}

theorem minCorrected_ofInts (ints : size.OfInts) : (minCorrected ratio size).OfInts := by
  unfold minCorrected
  dsimp only
  split
  · split
    · exact ⟨holds_wrap _ (by decide), ints.2⟩
    · exact ⟨ints.1, holds_wrap _ (by decide)⟩
  · exact ints

theorem maxCorrected_ofInts (ints : size.OfInts) : (maxCorrected ratio size).OfInts := by
  unfold maxCorrected
  dsimp only
  split
  · split
    · exact ⟨holds_wrap _ (by decide), ints.2⟩
    · exact ⟨ints.1, holds_wrap _ (by decide)⟩
  · exact ints

section Zero

variable (terms : ratio.OfUnsigned) (ints : size.OfInts)

theorem long_product {a : Int} {b : Nat} (int : IsInt a) (term : b ≤ unsignedMax) :
    long (a * b) = a * b ∧ long (-(a * b)) = -(a * b) := by
  obtain ⟨least, most⟩ := int
  unfold unsignedMax at term
  have low : -(2147483648 * 4294967295) ≤ a * b := by nlinarith
  have high : a * b ≤ 2147483648 * 4294967295 := by nlinarith
  exact ⟨wrap_of_holds ⟨by omega, by omega⟩, wrap_of_holds ⟨by omega, by omega⟩⟩

include terms ints

theorem minError_of_zero (zero : ratio.width = 0 ∨ ratio.height = 0) :
    minError ratio size = size.height * ratio.width - size.width * ratio.height := by
  rcases zero with zero | zero
  · simpa [minError, zero] using (long_product ints.1 terms.2).2
  · simpa [minError, zero] using (long_product ints.2 terms.1).1

theorem maxError_of_zero (zero : ratio.width = 0 ∨ ratio.height = 0) :
    maxError ratio size = size.width * ratio.height - size.height * ratio.width := by
  rcases zero with zero | zero
  · simpa [maxError, zero] using (long_product ints.1 terms.2).1
  · simpa [maxError, zero] using (long_product ints.2 terms.1).2

end Zero

/-- After a quotient has overflowed there is no division any more. -/
theorem fit_divides_iff : info.fit size ≠ .error .divisionByZero ↔
    info.widthInc ≠ 0 ∧ (info.WidthOverflows size ∨
      info.heightInc ≠ 0 ∧ (info.HeightOverflows size ∨ info.Divisible (info.gridSize size))) := by
  rw [fit_eq]
  by_cases width : info.widthInc = 0
  · simp [width]
  by_cases across : info.WidthOverflows size
  · simp [width, across]
  by_cases height : info.heightInc = 0
  · simp [width, across, height]
  by_cases down : info.HeightOverflows size
  · simp [width, across, height, down]
  by_cases divisible : info.Divisible (info.gridSize size)
  · simp [width, across, height, down, divisible]
  · simp [width, across, height, down, divisible]

theorem divisible_iff (ints : info.OfInts) (gridInts : grid.OfInts) : info.Divisible grid ↔
    AspectRatio.Divisible info.minAspect info.maxAspect grid (minCorrected info.minAspect grid) := by
  have first : ¬(0 < minError info.minAspect grid ∧
      (info.minAspect.width = 0 ∨ info.minAspect.height = 0)) ↔ _ :=
    (not_congr (and_congr_left fun zero => by
      rw [minError_of_zero ints.minAspect gridInts zero, Int.sub_pos])).trans
      AspectRatio.zero_terms
  have second : ¬(0 < maxError info.maxAspect (minCorrected info.minAspect grid) ∧
      (info.maxAspect.width = 0 ∨ info.maxAspect.height = 0)) ↔ _ :=
    (not_congr ((and_congr_left fun zero => by
      rw [maxError_of_zero ints.maxAspect (minCorrected_ofInts gridInts) zero, Int.sub_pos]).trans
        (and_congr_right' or_comm))).trans AspectRatio.zero_terms
  rw [Divisible, first, second]
  exact ⟨fun ⟨⟨a, b⟩, c, d⟩ => ⟨a, b, c, d⟩, fun ⟨a, b, c, d⟩ => ⟨⟨a, b⟩, c, d⟩⟩

end WindowInfo

/-- A resize divides by zero unless both increments and the terms of the aspect ratios allow it
for the size the limits and the increments make of the requested one, or an increment of -1 ends
it first. For a size that is not negative, what the first ratio makes of it needs no computing. -/
theorem constrain_resize_divides {info : WindowInfo} (ints : info.OfInts) (window : Rectangle)
    (pos : Point) {size : Size} (sizeInts : size.OfInts) :
    (info.constrainResize window pos size ≠ .error .divisionByZero ↔
      info.widthInc ≠ 0 ∧ (info.WidthOverflows size ∨
        info.heightInc ≠ 0 ∧ (info.HeightOverflows size ∨
          AspectRatio.Divisible info.minAspect info.maxAspect (info.gridSize size)
            (WindowInfo.minCorrected info.minAspect (info.gridSize size))))) ∧
    ((info.gridSize size).Nonneg →
      (AspectRatio.Divisible info.minAspect info.maxAspect (info.gridSize size)
          (WindowInfo.minCorrected info.minAspect (info.gridSize size)) ↔
        (info.minAspect.height = 0 → info.minAspect.width = 0 ∨ (info.gridSize size).height = 0) ∧
        (info.maxAspect.width = 0 → info.maxAspect.height = 0 ∨ (info.gridSize size).width = 0 ∧
          (0 < (info.gridSize size).height → 0 < info.minAspect.width →
            ((info.gridSize size).height - 1) * info.minAspect.height <
              (info.gridSize size).height * info.minAspect.width)))) := by
  have gridInts := ints.gridSize sizeInts
  constructor
  · rw [← WindowInfo.divisible_iff ints gridInts, ← WindowInfo.fit_divides_iff,
      WindowInfo.constrainResize_eq]
    cases info.fit size with
    | error failure => simp [Except.map]
    | ok newSize => simp [Except.map]
  · intro nonneg
    generalize info.gridSize size = grid at gridInts nonneg ⊢
    obtain ⟨left, top⟩ := nonneg
    by_cases first : info.minAspect.height = 0 → info.minAspect.width = 0 ∨ grid.height = 0
    · have terms : ¬(info.minAspect.Narrow grid ∧
          (info.minAspect.width = 0 ∨ info.minAspect.height = 0)) :=
        AspectRatio.zero_terms.mpr ⟨fun _ => .inr left, fun zero => (first zero).imp_right Eq.le⟩
      have ordinary := WindowInfo.widened_ordinary gridInts ⟨left, top⟩ terms
      rw [WindowInfo.minCorrected_eq ints.minAspect gridInts ⟨left, top⟩ terms, and_iff_right first,
        ← AspectRatio.widened_width_nonpos ⟨left, top⟩ terms]
      exact ⟨fun divisible => divisible.greatestWidth, fun last =>
        ⟨fun _ => .inr left, fun zero => (first zero).imp_right Eq.le, fun _ => .inr ordinary.2.2,
          last⟩⟩
    · refine iff_of_false (fun divisible => first fun zero => ?_) fun both => first both.1
      exact (divisible.leastHeight zero).imp_right fun nonpos => le_antisymm nonpos top

/-- A window whose client does not let its width change. -/
def Op.fixedRun : List Op :=
  [.addSession 1,
    .addDisplay ⟨⟨0, 0⟩, ⟨640, 480⟩⟩ (.single 1 ⟨⟨0, 0⟩, ⟨640, 480⟩⟩) [],
    .addSurface 1 { size := ⟨100, 80⟩ } 1,
    .modifySurface ⟨1, 1⟩ { widthInc := some 0 }]

def Model.fixedState : Model :=
  (Op.follow 12 (fun s op => op.Contract s ∧ op.asksParent = false) Op.fixedRun .start).get
    (by decide +kernel)

theorem constrain_resize_divides_fails :
    ¬∀ (s : Model) w info, Reachable (fun s op => op.Contract s) s → s.info? w = some info →
      ∀ pos size, 0 < size.width → 0 < size.height →
        info.constrainResize (s.rect w) pos size ≠ .error .divisionByZero := by
  intro claim
  have reachable : Reachable (fun s op => op.Contract s ∧ op.asksParent = false) fixedState :=
    (Reachable.initial _ _).follow (Option.some_get _).symm
  have inc : (fixedState.info? ⟨1, 1⟩).map (·.widthInc) = some 0 := by decide +kernel
  obtain ⟨info, here, zero⟩ := Option.map_eq_some_iff.mp inc
  have fine := claim fixedState ⟨1, 1⟩ info (reachable.mono fun _ _ h => h.1) here ⟨0, 0⟩ ⟨1, 1⟩
    (by decide) (by decide)
  rw [WindowInfo.constrainResize_eq] at fine
  apply fine
  rw [WindowInfo.fit, if_pos zero]
  rfl

namespace WindowInfo

/-- The size is one that the constraints allow. -/
structure Satisfies (info : WindowInfo) (size : Size) : Prop where
  width : OnGrid info.minWidth info.widthInc size.width
  height : OnGrid info.minHeight info.heightInc size.height
  maxWidth : size.width ≤ info.maxWidth
  maxHeight : size.height ≤ info.maxHeight
  wide : ¬info.minAspect.Narrow size
  narrow : ¬info.maxAspect.Wide size

/-- Limits in order, increments, and aspect ratios that are left at their defaults or are ratios. -/
structure Regular (info : WindowInfo) : Prop where
  width : info.minWidth ≤ info.maxWidth
  height : info.minHeight ≤ info.maxHeight
  widthInc : 0 < info.widthInc
  heightInc : 0 < info.heightInc
  minAspect : info.minAspect = ⟨0, unsignedMax⟩ ∨ 0 < info.minAspect.width ∧ 0 < info.minAspect.height
  maxAspect : info.maxAspect = ⟨unsignedMax, 0⟩ ∨ 0 < info.maxAspect.width ∧ 0 < info.maxAspect.height

/-- When a size on the grid ends within all constraints. Nothing is left to correct and rounding
did not exceed the limits; or one ratio is broken, and the border that the shorter way to it
reaches is on the grid, within the limits and within the other ratio; or the second ratio is
broken by the first correction, and the way back from there happens to end well. -/
inductive Settles (info : WindowInfo) (grid : Size) : Prop
  | kept (wide : ¬info.minAspect.Narrow grid) (narrow : ¬info.maxAspect.Wide grid)
    (width : grid.width ≤ info.maxWidth) (height : grid.height ≤ info.maxHeight)
  | widened (less : info.minAspect.Widens grid) (terms : 0 < info.minAspect.width)
    (step : OnGrid info.minWidth info.widthInc (info.minAspect.widthFrom grid.height))
    (width : info.minAspect.widthFrom grid.height ≤ info.maxWidth)
    (height : grid.height ≤ info.maxHeight)
    (other : ¬info.maxAspect.Wide ⟨info.minAspect.widthFrom grid.height, grid.height⟩)
  | lowered (less : info.minAspect.Lowers grid) (terms : 0 < info.minAspect.width)
    (step : OnGrid info.minHeight info.heightInc (info.minAspect.heightUpTo grid.width))
    (width : grid.width ≤ info.maxWidth)
    (height : info.minAspect.heightUpTo grid.width ≤ info.maxHeight)
    (other : ¬info.maxAspect.Wide ⟨grid.width, info.minAspect.heightUpTo grid.width⟩)
  | narrowed (enough : ¬info.minAspect.Narrow grid) (less : info.maxAspect.Narrows grid)
    (terms : 0 < info.maxAspect.height)
    (step : OnGrid info.minWidth info.widthInc (info.maxAspect.widthUpTo grid.height))
    (width : info.maxAspect.widthUpTo grid.height ≤ info.maxWidth)
    (height : grid.height ≤ info.maxHeight)
    (other : ¬info.minAspect.Narrow ⟨info.maxAspect.widthUpTo grid.height, grid.height⟩)
  | heightened (enough : ¬info.minAspect.Narrow grid) (less : info.maxAspect.Heightens grid)
    (terms : 0 < info.maxAspect.height)
    (step : OnGrid info.minHeight info.heightInc (info.maxAspect.heightFrom grid.width))
    (width : grid.width ≤ info.maxWidth)
    (height : info.maxAspect.heightFrom grid.width ≤ info.maxHeight)
    (other : ¬info.minAspect.Narrow ⟨grid.width, info.maxAspect.heightFrom grid.width⟩)
  | twice (narrow : info.minAspect.Narrow grid) (terms : 0 < info.minAspect.width)
    (wide : info.maxAspect.Wide (info.minAspect.atLeast grid)) (terms' : 0 < info.maxAspect.height)
    (ends : info.Satisfies (info.maxAspect.atMost (info.minAspect.atLeast grid)))

/-- The nearest size on the grid to the one that is asked for, within the limits. -/
def nearestSize (info : WindowInfo) (size : Size) : Size :=
  ⟨nearest info.minWidth info.widthInc (info.clamp size).width,
    nearest info.minHeight info.heightInc (info.clamp size).height⟩

/-- Rounding stays within the sizes that an `int` has. -/
structure InRange (info : WindowInfo) (size : Size) : Prop where
  width : IsInt ((info.clamp size).width - info.minWidth)
  height : IsInt ((info.clamp size).height - info.minHeight)
  ints : (info.nearestSize size).OfInts
  nonneg : (info.nearestSize size).Nonneg

/-- When the arithmetic of the source leads a size that rounding has taken out of range back within
all constraints: by no correction, by one of the four, or by two. -/
inductive Recovers (info : WindowInfo) (grid : Size) : Prop
  | kept (wide : ¬0 < minError info.minAspect grid) (narrow : ¬0 < maxError info.maxAspect grid)
    (ends : info.Satisfies grid)
  | widened {width : Int} (less : TakesWidth info.minAspect (minError info.minAspect grid))
    (terms : 0 < info.minAspect.width)
    (border : int (grid.width + correction (minError info.minAspect grid) info.minAspect.height) =
      width)
    (narrow : ¬0 < maxError info.maxAspect ⟨width, grid.height⟩)
    (ends : info.Satisfies ⟨width, grid.height⟩)
  | lowered {height : Int} (less : TakesHeight info.minAspect (minError info.minAspect grid))
    (terms : 0 < info.minAspect.width)
    (border : int (grid.height - correction (minError info.minAspect grid) info.minAspect.width) =
      height)
    (narrow : ¬0 < maxError info.maxAspect ⟨grid.width, height⟩)
    (ends : info.Satisfies ⟨grid.width, height⟩)
  | narrowed {width : Int} (wide : ¬0 < minError info.minAspect grid)
    (less : TakesWidth info.maxAspect (maxError info.maxAspect grid))
    (terms : 0 < info.maxAspect.height)
    (border : int (grid.width - correction (maxError info.maxAspect grid) info.maxAspect.height) =
      width)
    (ends : info.Satisfies ⟨width, grid.height⟩)
  | heightened {height : Int} (wide : ¬0 < minError info.minAspect grid)
    (less : TakesHeight info.maxAspect (maxError info.maxAspect grid))
    (terms : 0 < info.maxAspect.height)
    (border : int (grid.height + correction (maxError info.maxAspect grid) info.maxAspect.width) =
      height)
    (ends : info.Satisfies ⟨grid.width, height⟩)
  | twice (short : 0 < minError info.minAspect grid) (terms : 0 < info.minAspect.width)
    (long : 0 < maxError info.maxAspect (minCorrected info.minAspect grid))
    (terms' : 0 < info.maxAspect.height)
    (ends : info.Satisfies (maxCorrected info.maxAspect (minCorrected info.minAspect grid)))

namespace Regular

variable {info : WindowInfo} {size : Size} (regular : info.Regular)

include regular

theorem minTerms : info.minAspect.width = 0 ∨ info.minAspect.height = 0 ↔
    ¬0 < info.minAspect.width := by
  rcases regular.minAspect with eq | ⟨width, height⟩
  · simp [eq]
  · omega

theorem maxTerms : info.maxAspect.width = 0 ∨ info.maxAspect.height = 0 ↔
    ¬0 < info.maxAspect.height := by
  rcases regular.maxAspect with eq | ⟨width, height⟩
  · simp [eq]
  · omega

theorem minHeight_pos (terms : 0 < info.minAspect.width) : 0 < info.minAspect.height := by
  have := regular.minTerms
  omega

theorem maxWidth_pos (terms : 0 < info.maxAspect.height) : 0 < info.maxAspect.width := by
  have := regular.maxTerms
  omega

theorem clamped : info.minWidth ≤ (info.clamp size).width ∧
    info.minHeight ≤ (info.clamp size).height := by
  have := regular.width
  have := regular.height
  unfold clamp
  grind

theorem gridSize_eq (inRange : info.InRange size) : info.gridSize size = info.nearestSize size :=
  congrArg₂ Size.mk
    (snap_eq_nearest regular.widthInc regular.clamped.1 inRange.width inRange.ints.1)
    (snap_eq_nearest regular.heightInc regular.clamped.2 inRange.height inRange.ints.2)

theorem onGrid : OnGrid info.minWidth info.widthInc (info.nearestSize size).width ∧
    OnGrid info.minHeight info.heightInc (info.nearestSize size).height :=
  ⟨onGrid_nearest regular.widthInc regular.clamped.1,
    onGrid_nearest regular.heightInc regular.clamped.2⟩

/-- The corrections of a size on the grid, in integers. -/
theorem settles_iff {grid : Size} (onWidth : OnGrid info.minWidth info.widthInc grid.width)
    (onHeight : OnGrid info.minHeight info.heightInc grid.height) :
    ((info.minAspect.Narrow grid → 0 < info.minAspect.width) ∧
      (info.maxAspect.Wide (info.minAspect.widened grid) → 0 < info.maxAspect.height) ∧
      info.Satisfies (info.maxAspect.narrowed (info.minAspect.widened grid))) ↔
    info.Settles grid := by
  constructor
  · rintro ⟨first, second, ends⟩
    by_cases narrow : info.minAspect.Narrow grid
    · have terms := first narrow
      by_cases wide : info.maxAspect.Wide (info.minAspect.atLeast grid)
      · rw [AspectRatio.widened, if_pos narrow, AspectRatio.narrowed, if_pos wide] at ends
        rw [AspectRatio.widened, if_pos narrow] at second
        exact .twice narrow terms wide (second wide) ends
      · rcases AspectRatio.widens_or_lowers narrow with less | less
        · rw [AspectRatio.atLeast, if_pos less.2] at wide
          rw [AspectRatio.widened_eq.1 less, AspectRatio.narrowed_eq.2.2 wide] at ends
          exact .widened less terms ends.width ends.maxWidth ends.maxHeight wide
        · rw [AspectRatio.atLeast, if_neg (Int.not_lt.mpr less.2)] at wide
          rw [AspectRatio.widened_eq.2.1 less, AspectRatio.narrowed_eq.2.2 wide] at ends
          exact .lowered less terms ends.height ends.maxWidth ends.maxHeight wide
    · rw [AspectRatio.widened_eq.2.2 narrow] at second ends
      by_cases wide : info.maxAspect.Wide grid
      · rcases AspectRatio.narrows_or_heightens wide with less | less
        · rw [AspectRatio.narrowed_eq.1 less] at ends
          exact .narrowed narrow less (second wide) ends.width ends.maxWidth ends.maxHeight ends.wide
        · rw [AspectRatio.narrowed_eq.2.1 less] at ends
          exact .heightened narrow less (second wide) ends.height ends.maxWidth ends.maxHeight ends.wide
      · rw [AspectRatio.narrowed_eq.2.2 wide] at ends
        exact .kept narrow wide ends.maxWidth ends.maxHeight
  · intro settles
    cases settles with
    | kept wide narrow width height =>
      rw [AspectRatio.widened_eq.2.2 wide, AspectRatio.narrowed_eq.2.2 narrow]
      exact ⟨fun broken => absurd broken wide, fun broken => absurd broken narrow,
        onWidth, onHeight, width, height, wide, narrow⟩
    | widened less terms step width height other =>
      have border : ¬info.minAspect.Narrow (info.minAspect.atLeast grid) :=
        AspectRatio.atLeast_wide terms (regular.minHeight_pos terms)
      rw [AspectRatio.atLeast, if_pos less.2] at border
      rw [AspectRatio.widened_eq.1 less, AspectRatio.narrowed_eq.2.2 other]
      exact ⟨fun _ => terms, fun broken => absurd broken other,
        step, onHeight, width, height, border, other⟩
    | lowered less terms step width height other =>
      have border : ¬info.minAspect.Narrow (info.minAspect.atLeast grid) :=
        AspectRatio.atLeast_wide terms (regular.minHeight_pos terms)
      rw [AspectRatio.atLeast, if_neg (Int.not_lt.mpr less.2)] at border
      rw [AspectRatio.widened_eq.2.1 less, AspectRatio.narrowed_eq.2.2 other]
      exact ⟨fun _ => terms, fun broken => absurd broken other,
        onWidth, step, width, height, border, other⟩
    | narrowed enough less terms step width height other =>
      have border : ¬info.maxAspect.Wide (info.maxAspect.atMost grid) :=
        AspectRatio.atMost_narrow (regular.maxWidth_pos terms) terms
      rw [AspectRatio.atMost, if_pos less.2] at border
      rw [AspectRatio.widened_eq.2.2 enough, AspectRatio.narrowed_eq.1 less]
      exact ⟨fun broken => absurd broken enough, fun _ => terms,
        step, onHeight, width, height, other, border⟩
    | heightened enough less terms step width height other =>
      have border : ¬info.maxAspect.Wide (info.maxAspect.atMost grid) :=
        AspectRatio.atMost_narrow (regular.maxWidth_pos terms) terms
      rw [AspectRatio.atMost, if_neg (Int.not_lt.mpr less.2)] at border
      rw [AspectRatio.widened_eq.2.2 enough, AspectRatio.narrowed_eq.2.1 less]
      exact ⟨fun broken => absurd broken enough, fun _ => terms,
        onWidth, step, width, height, other, border⟩
    | twice narrow terms wide terms' ends =>
      rw [AspectRatio.widened, if_pos narrow, AspectRatio.narrowed, if_pos wide]
      exact ⟨fun _ => terms, fun _ => terms', ends⟩

theorem recovers_iff {grid : Size} :
    info.Divisible grid ∧ info.Satisfies (info.corrected grid) ↔ info.Recovers grid := by
  have divisible : info.Divisible grid ↔
      (0 < minError info.minAspect grid → 0 < info.minAspect.width) ∧
        (0 < maxError info.maxAspect (minCorrected info.minAspect grid) →
          0 < info.maxAspect.height) := by
    rw [Divisible, regular.minTerms, regular.maxTerms]
    simp only [not_and, not_not]
  rw [divisible, corrected]
  constructor
  · rintro ⟨⟨first, second⟩, ends⟩
    by_cases short : 0 < minError info.minAspect grid
    · by_cases long : 0 < maxError info.maxAspect (minCorrected info.minAspect grid)
      · exact .twice short (first short) long (second long) ends
      · rw [maxCorrected_cases.2.2 long] at ends
        rcases takes_width_or_height short with less | less
        · rw [minCorrected_cases.1 less] at long ends
          exact .widened less (first short) rfl long ends
        · rw [minCorrected_cases.2.1 less] at long ends
          exact .lowered less (first short) rfl long ends
    · rw [minCorrected_cases.2.2 short] at second ends
      by_cases long : 0 < maxError info.maxAspect grid
      · rcases takes_width_or_height long with less | less
        · rw [maxCorrected_cases.1 less] at ends
          exact .narrowed short less (second long) rfl ends
        · rw [maxCorrected_cases.2.1 less] at ends
          exact .heightened short less (second long) rfl ends
      · rw [maxCorrected_cases.2.2 long] at ends
        exact .kept short long ends
  · intro recovers
    cases recovers with
    | kept wide narrow ends =>
      rw [minCorrected_cases.2.2 wide, maxCorrected_cases.2.2 narrow]
      exact ⟨⟨fun short => absurd short wide, fun long => absurd long narrow⟩, ends⟩
    | widened less terms border narrow ends =>
      rw [minCorrected_cases.1 less, border, maxCorrected_cases.2.2 narrow]
      exact ⟨⟨fun _ => terms, fun long => absurd long narrow⟩, ends⟩
    | lowered less terms border narrow ends =>
      rw [minCorrected_cases.2.1 less, border, maxCorrected_cases.2.2 narrow]
      exact ⟨⟨fun _ => terms, fun long => absurd long narrow⟩, ends⟩
    | narrowed wide less terms border ends =>
      rw [minCorrected_cases.2.2 wide, maxCorrected_cases.1 less, border]
      exact ⟨⟨fun short => absurd short wide, fun _ => terms⟩, ends⟩
    | heightened wide less terms border ends =>
      rw [minCorrected_cases.2.2 wide, maxCorrected_cases.2.1 less, border]
      exact ⟨⟨fun short => absurd short wide, fun _ => terms⟩, ends⟩
    | twice short terms long terms' ends => exact ⟨⟨fun _ => terms, fun _ => terms'⟩, ends⟩

/-- What the corrections make of a size that is in range satisfies the constraints as it does in
integers: a height that gets out of range does not satisfy them either way. -/
theorem corrected_iff {grid : Size} (ints : info.OfInts) (gridInts : grid.OfInts)
    (nonneg : grid.Nonneg) : info.Divisible grid ∧ info.Satisfies (info.corrected grid) ↔
      (info.minAspect.Narrow grid → 0 < info.minAspect.width) ∧
        (info.maxAspect.Wide (info.minAspect.widened grid) → 0 < info.maxAspect.height) ∧
        info.Satisfies (info.maxAspect.narrowed (info.minAspect.widened grid)) := by
  have first : ¬(0 < minError info.minAspect grid ∧
      (info.minAspect.width = 0 ∨ info.minAspect.height = 0)) ↔
      (info.minAspect.Narrow grid → 0 < info.minAspect.width) := by
    rw [minError_eq ints.minAspect gridInts nonneg, Int.sub_pos, regular.minTerms, not_and, not_not]
    rfl
  unfold Divisible corrected
  rw [first]
  by_cases terms : info.minAspect.Narrow grid → 0 < info.minAspect.width
  · have divides : ¬(info.minAspect.Narrow grid ∧
        (info.minAspect.width = 0 ∨ info.minAspect.height = 0)) := by
      rwa [regular.minTerms, not_and, not_not]
    obtain ⟨widenedInts, widenedNonneg⟩ := widened_ordinary gridInts nonneg divides
    rw [minCorrected_eq ints.minAspect gridInts nonneg divides,
      maxError_eq ints.maxAspect widenedInts widenedNonneg, Int.sub_pos, regular.maxTerms, not_and,
      not_not, and_iff_right terms, and_iff_right terms]
    generalize info.minAspect.widened grid = size at widenedInts widenedNonneg
    refine and_congr_right fun terms => ?_
    have divides : ¬(info.maxAspect.Wide size ∧
        (info.maxAspect.width = 0 ∨ info.maxAspect.height = 0)) := by
      rwa [regular.maxTerms, not_and, not_not]
    by_cases fits : IsInt (info.maxAspect.narrowed size).height
    · rw [maxCorrected_eq ints.maxAspect widenedInts widenedNonneg divides, int, wrap_of_holds fits]
    · refine iff_of_false (fun ends => ?_) fun ends => fits ?_
      · exact ends.narrow (maxCorrected_wide ints.maxAspect widenedInts widenedNonneg divides fits)
      · have most := ints.maxHeight.2
        have least := ints.minHeight.1
        have := ends.maxHeight
        have := ends.height.1
        exact ⟨by omega, by omega⟩
  · exact iff_of_false (fun both => terms both.1.1) fun both => terms both.1

end Regular

end WindowInfo

/-- The size a resize gives satisfies the constraints if and only if the nearest size on the grid
settles there; if rounding gets out of range, if and only if what it leads to recovers. -/
theorem constrain_resize_satisfies {info : WindowInfo} (regular : info.Regular)
    (ints : info.OfInts) (restored : info.state = .restored) (window : Rectangle) (pos : Point)
    (size : Size) :
    (∃ newPos newSize, info.constrainResize window pos size = .ok (newPos, newSize) ∧
      info.Satisfies newSize) ↔
    info.InRange size ∧ info.Settles (info.nearestSize size) ∨
      ¬info.InRange size ∧ info.Recovers (info.gridSize size) := by
  have recovers : (∃ newPos newSize, info.constrainResize window pos size = .ok (newPos, newSize) ∧
      info.Satisfies newSize) ↔
      info.Divisible (info.gridSize size) ∧ info.Satisfies (info.corrected (info.gridSize size)) := by
    have across : ¬info.WidthOverflows size := fun large => by
      have := regular.widthInc
      have := large.1
      omega
    have down : ¬info.HeightOverflows size := fun large => by
      have := regular.heightInc
      have := large.1
      omega
    rw [WindowInfo.constrainResize_eq, WindowInfo.fit_eq, if_neg regular.widthInc.ne',
      if_neg across, if_neg regular.heightInc.ne', if_neg down]
    simp only [WindowInfo.anchorToState, restored]
    by_cases divisible : info.Divisible (info.gridSize size)
    · simp [divisible, Except.map]
    · simp [divisible, Except.map]
  rw [recovers]
  by_cases inRange : info.InRange size
  · rw [regular.gridSize_eq inRange, regular.corrected_iff ints inRange.ints inRange.nonneg,
      regular.settles_iff regular.onGrid.1 regular.onGrid.2]
    simp [inRange]
  · rw [regular.recovers_iff]
    simp [inRange]

/-- Widths up to 10 in steps of 6. -/
def WindowInfo.stepped : WindowInfo where
  name := ""
  type := .normal
  state := .restored
  restoreRect := default
  parent := none
  children := []
  minWidth := 0
  minHeight := 0
  maxWidth := 10
  maxHeight := 10
  preferredOrientation := .any
  confinePointer := .unconfined
  widthInc := 6
  heightInc := 1
  minAspect := ⟨0, unsignedMax⟩
  maxAspect := ⟨unsignedMax, 0⟩
  outputId := none
  shellChrome := .normal
  userdata := none

theorem WindowInfo.regular_stepped : WindowInfo.stepped.Regular where
  width := by decide
  height := by decide
  widthInc := by decide
  heightInc := by decide
  minAspect := .inl rfl
  maxAspect := .inl rfl

theorem WindowInfo.ofInts_stepped : WindowInfo.stepped.OfInts :=
  ⟨by decide, by decide, by decide, by decide, by decide, by decide⟩

theorem constrain_resize_divides_stepped :
    WindowInfo.stepped.constrainResize default ⟨0, 0⟩ ⟨10, 5⟩ ≠ .error .divisionByZero := by
  have sizeInts : Size.OfInts ⟨10, 5⟩ := by decide
  obtain ⟨divides, closed⟩ :=
    constrain_resize_divides WindowInfo.ofInts_stepped default ⟨0, 0⟩ sizeInts
  exact divides.mpr
    ⟨by decide, .inr ⟨by decide, .inr ((closed (by decide)).mpr ⟨by decide, by decide⟩)⟩⟩

/-- Widths from 40 on in steps so wide that the first one is beyond what an `int` has. -/
def WindowInfo.wide : WindowInfo :=
  { WindowInfo.stepped with
    minWidth := 40, maxWidth := intMax, widthInc := 1400000000, minAspect := ⟨1, 2⟩
    maxHeight := intMax }

theorem constrain_resize_satisfies_stepped :
    (∃ newPos newSize,
      WindowInfo.stepped.constrainResize default ⟨0, 0⟩ ⟨5, 5⟩ = .ok (newPos, newSize) ∧
        WindowInfo.stepped.Satisfies newSize) ∧
    (∃ newPos newSize,
      WindowInfo.wide.constrainResize default ⟨0, 0⟩ ⟨2147483647, 80⟩ = .ok (newPos, newSize) ∧
        WindowInfo.wide.Satisfies newSize) := by
  have kept : WindowInfo.stepped.Settles (WindowInfo.stepped.nearestSize ⟨5, 5⟩) :=
    .kept (by decide) (by decide) (by decide) (by decide)
  have regular : WindowInfo.wide.Regular :=
    ⟨by decide, by decide, by decide, by decide, .inr (by decide), .inl rfl⟩
  have ints : WindowInfo.wide.OfInts :=
    ⟨by decide, by decide, by decide, by decide, by decide, by decide⟩
  have border : int ((WindowInfo.wide.gridSize ⟨2147483647, 80⟩).width + WindowInfo.correction
      (WindowInfo.minError WindowInfo.wide.minAspect (WindowInfo.wide.gridSize ⟨2147483647, 80⟩))
      WindowInfo.wide.minAspect.height) = 40 := by
    decide
  have recovers : WindowInfo.wide.Recovers (WindowInfo.wide.gridSize ⟨2147483647, 80⟩) :=
    .widened (by decide) (by decide) border (by decide)
      ⟨by decide, by decide, by decide, by decide, by decide, by decide⟩
  exact ⟨(constrain_resize_satisfies WindowInfo.regular_stepped WindowInfo.ofInts_stepped rfl default
      ⟨0, 0⟩ ⟨5, 5⟩).mpr (.inl ⟨⟨by decide, by decide, by decide, by decide⟩, kept⟩),
    (constrain_resize_satisfies regular ints rfl default ⟨0, 0⟩ ⟨2147483647, 80⟩).mpr
      (.inr ⟨fun inRange => absurd inRange.ints (by decide), recovers⟩)⟩

/-- Rounding to the nearest step exceeds the greatest width. -/
theorem constrain_resize_satisfies_fails :
    ¬∀ info : WindowInfo, info.Regular → info.state = .restored → (∃ size, info.Satisfies size) →
      ∀ window pos size, 0 < size.width → 0 < size.height → ∃ newPos newSize,
        info.constrainResize window pos size = .ok (newPos, newSize) ∧ info.Satisfies newSize := by
  intro claim
  have six : WindowInfo.stepped.Satisfies ⟨6, 5⟩ :=
    ⟨by decide, by decide, by decide, by decide, by decide, by decide⟩
  obtain ⟨newPos, newSize, ok, ends⟩ := claim WindowInfo.stepped WindowInfo.regular_stepped rfl
    ⟨_, six⟩ default ⟨0, 0⟩ ⟨10, 5⟩ (by decide) (by decide)
  have result : WindowInfo.stepped.constrainResize default ⟨0, 0⟩ ⟨10, 5⟩ =
      .ok (⟨0, 0⟩, ⟨12, 5⟩) := by rfl
  rw [result, Except.ok.injEq, Prod.mk.injEq] at ok
  exact absurd (ok.2 ▸ ends.maxWidth) (by decide)

namespace WindowInfo

/-- A value that two corrections may change, one after the other: what the last change makes it. -/
inductive LastChange (first second : Prop) (own once twice value : Int) : Prop
  | none (kept : ¬first) (kept' : ¬second) (same : own = value)
  | first (changed : first) (kept : ¬second) (same : once = value)
  | second (changed : second) (same : twice = value)

/-- The width a size on the grid gets: its own, if no ratio is restored by changing it, or the one
that the last such change leads to. -/
def GivesWidth (info : WindowInfo) (grid : Size) (width : Int) : Prop :=
  LastChange (info.minAspect.Widens grid) (info.maxAspect.Narrows (info.minAspect.widened grid))
    grid.width (info.minAspect.widthFrom grid.height)
    (info.maxAspect.widthUpTo (info.minAspect.widened grid).height) width

/-- A height that is corrected for the second ratio may be too large for an `int`. -/
def GivesHeight (info : WindowInfo) (grid : Size) (height : Int) : Prop :=
  LastChange (info.minAspect.Lowers grid) (info.maxAspect.Heightens (info.minAspect.widened grid))
    grid.height (info.minAspect.heightUpTo grid.width)
    (int (info.maxAspect.heightFrom (info.minAspect.widened grid).width)) height

/-- The width a size that is negative gets, in the arithmetic of the source. -/
def WrapsToWidth (info : WindowInfo) (grid : Size) (width : Int) : Prop :=
  let corrected := minCorrected info.minAspect grid
  let error := minError info.minAspect grid
  let error' := maxError info.maxAspect corrected
  LastChange (TakesWidth info.minAspect error) (TakesWidth info.maxAspect error') grid.width
    (int (grid.width + correction error info.minAspect.height))
    (int (corrected.width - correction error' info.maxAspect.height)) width

/-- The height a size that is negative gets, in the arithmetic of the source. -/
def WrapsToHeight (info : WindowInfo) (grid : Size) (height : Int) : Prop :=
  let corrected := minCorrected info.minAspect grid
  let error := minError info.minAspect grid
  let error' := maxError info.maxAspect corrected
  LastChange (TakesHeight info.minAspect error) (TakesHeight info.maxAspect error') grid.height
    (int (grid.height - correction error info.minAspect.width))
    (int (corrected.height + correction error' info.maxAspect.width)) height

/-- The constraints leave a size on the grid, which rounding may have made negative, this width. -/
def LeavesWidth (info : WindowInfo) (grid : Size) (width : Int) : Prop :=
  grid.Nonneg ∧ info.GivesWidth grid width ∨ ¬grid.Nonneg ∧ info.WrapsToWidth grid width

def LeavesHeight (info : WindowInfo) (grid : Size) (height : Int) : Prop :=
  grid.Nonneg ∧ info.GivesHeight grid height ∨ ¬grid.Nonneg ∧ info.WrapsToHeight grid height

variable {info : WindowInfo} {grid : Size}

theorem lastChange_iff {first second : Prop} [Decidable first] [Decidable second]
    {own once twice value : Int} : LastChange first second own once twice value ↔
      (if second then twice else if first then once else own) = value := by
  constructor
  · intro change
    cases change with
    | none kept kept' same => rwa [if_neg kept', if_neg kept]
    | first changed kept same => rwa [if_neg kept, if_pos changed]
    | second changed same => rwa [if_pos changed]
  · intro same
    split at same
    next changed => exact .second changed same
    next kept' =>
      split at same
      next changed => exact .first changed kept' same
      next kept => exact .none kept kept' same

theorem givesWidth_iff {width : Int} : info.GivesWidth grid width ↔
    (info.maxAspect.narrowed (info.minAspect.widened grid)).width = width := by
  rw [GivesWidth, lastChange_iff, AspectRatio.narrowed_width, AspectRatio.widened_width]

theorem givesHeight_iff {height : Int} (held : IsInt (info.minAspect.widened grid).height) :
    info.GivesHeight grid height ↔
      int (info.maxAspect.narrowed (info.minAspect.widened grid)).height = height := by
  have first : int (info.minAspect.widened grid).height =
      if info.minAspect.Lowers grid then info.minAspect.heightUpTo grid.width else grid.height := by
    rw [int, wrap_of_holds held, AspectRatio.widened_height]
  rw [GivesHeight, lastChange_iff, AspectRatio.narrowed_height, apply_ite int, first]

theorem wrapsToWidth_iff {width : Int} :
    info.WrapsToWidth grid width ↔ (info.corrected grid).width = width := by
  rw [WrapsToWidth, lastChange_iff, corrected, maxCorrected_width, ← minCorrected_width]

theorem wrapsToHeight_iff {height : Int} :
    info.WrapsToHeight grid height ↔ (info.corrected grid).height = height := by
  rw [WrapsToHeight, lastChange_iff, corrected, maxCorrected_height, ← minCorrected_height]

theorem leaves_iff (width height : Int) (ints : info.OfInts) (gridInts : grid.OfInts)
    (divisible : info.Divisible grid) :
    (info.LeavesWidth grid width ↔ (info.corrected grid).width = width) ∧
      (info.LeavesHeight grid height ↔ (info.corrected grid).height = height) := by
  unfold LeavesWidth LeavesHeight
  by_cases nonneg : grid.Nonneg
  · have divides : ¬(info.minAspect.Narrow grid ∧
        (info.minAspect.width = 0 ∨ info.minAspect.height = 0)) := by
      have first := divisible.1
      rwa [minError_eq ints.minAspect gridInts nonneg, Int.sub_pos] at first
    obtain ⟨widenedInts, widenedNonneg⟩ := widened_ordinary gridInts nonneg divides
    have second := divisible.2
    rw [minCorrected_eq ints.minAspect gridInts nonneg divides,
      maxError_eq ints.maxAspect widenedInts widenedNonneg, Int.sub_pos] at second
    rw [givesWidth_iff, givesHeight_iff widenedInts.2, corrected,
      minCorrected_eq ints.minAspect gridInts nonneg divides,
      maxCorrected_eq ints.maxAspect widenedInts widenedNonneg second]
    simp [nonneg]
  · rw [wrapsToWidth_iff, wrapsToHeight_iff]
    simp [nonneg]

end WindowInfo

/-- Along one axis, the edge that is not dragged stays: the far one if the near one is dragged,
else the near one. -/
def KeepsEdge (current requested extent newPosition newExtent : Int) : Prop :=
  if requested ≠ current then newPosition + newExtent = requested + extent
  else newPosition = current

/-- An extent that keeps the far edge although the position is corrected the wrong way: the one
asked for, or one so far off that the position wraps around to where it should be. -/
def KeepsFar (leaves : Int → Prop) (position extent : Int) : Prop :=
  leaves extent ∨ 0 ≤ position ∧ leaves (extent + 2 ^ 31) ∨ position < 0 ∧ leaves (extent - 2 ^ 31)

theorem keepsEdge_iff {leaves : Int → Prop} {current requested extent newExtent : Int}
    (leaves_iff : ∀ extent, leaves extent ↔ newExtent = extent) (holds : IsInt requested)
    (extentHolds : IsInt extent) (newHolds : IsInt newExtent) :
    KeepsEdge current requested extent
      (if requested ≠ current then int (requested + (newExtent - extent)) else requested) newExtent ↔
      requested = current ∨ KeepsFar leaves requested extent := by
  unfold KeepsEdge KeepsFar
  by_cases dragged : requested = current
  · simp [dragged]
  · obtain ⟨turns, eq⟩ := exists_wrap 32 (requested + (newExtent - extent))
    have held : Holds 32 (wrap 32 (requested + (newExtent - extent))) := holds_wrap _ (by decide)
    unfold IsInt Holds at *
    simp only [dragged, ne_eq, not_false_eq_true, if_true, false_or, leaves_iff, int]
    rw [eq] at held ⊢
    omega

/-- The position is corrected the wrong way: with a left or top edge dragged, the other edge stays
only if the constraints leave the width or height asked for, or one that is half a turn off. -/
theorem constrain_resize_keeps_edge {info : WindowInfo} (ints : info.OfInts)
    (restored : info.state = .restored) {window : Rectangle} {pos newPos : Point}
    {size newSize : Size} (posInts : IsInt pos.x ∧ IsInt pos.y) (sizeInts : size.OfInts)
    (ok : info.constrainResize window pos size = .ok (newPos, newSize)) :
    (KeepsEdge window.left pos.x size.width newPos.x newSize.width ↔ pos.x = window.left ∨
      KeepsFar (info.LeavesWidth (info.gridSize size)) pos.x size.width) ∧
    (KeepsEdge window.top pos.y size.height newPos.y newSize.height ↔ pos.y = window.top ∨
      KeepsFar (info.LeavesHeight (info.gridSize size)) pos.y size.height) := by
  have gridInts := ints.gridSize sizeInts
  rw [WindowInfo.constrainResize_eq] at ok
  cases fitted : info.fit size with
  | error failure =>
    rw [fitted] at ok
    contradiction
  | ok corrected =>
    obtain ⟨fits, rfl⟩ := WindowInfo.fit_eq_ok.mp fitted
    simp only [fitted, Except.map, WindowInfo.anchorToState, restored, Except.ok.injEq,
      Prod.mk.injEq] at ok
    obtain ⟨rfl, rfl⟩ := ok
    have newInts : (info.corrected (info.gridSize size)).OfInts :=
      WindowInfo.maxCorrected_ofInts (WindowInfo.minCorrected_ofInts gridInts)
    exact ⟨keepsEdge_iff (fun _ => (WindowInfo.leaves_iff _ 0 ints gridInts fits.divisible).1)
        posInts.1 sizeInts.1 newInts.1,
      keepsEdge_iff (fun _ => (WindowInfo.leaves_iff 0 _ ints gridInts fits.divisible).2)
        posInts.2 sizeInts.2 newInts.2⟩

theorem constrain_resize_keeps_edge_stepped :
    KeepsEdge 0 (-6) 6 (-6) 6 ∧ KeepsEdge 0 0 5 0 5 := by
  have result : WindowInfo.stepped.constrainResize default ⟨-6, 0⟩ ⟨6, 5⟩ =
      .ok (⟨-6, 0⟩, ⟨6, 5⟩) := rfl
  obtain ⟨across, down⟩ := constrain_resize_keeps_edge WindowInfo.ofInts_stepped rfl
    (by decide) (by decide) result
  have kept : WindowInfo.stepped.GivesWidth (WindowInfo.stepped.gridSize ⟨6, 5⟩) 6 :=
    .none (by decide) (by decide) rfl
  exact ⟨across.mpr (.inr (.inl (.inl ⟨by decide, kept⟩))), down.mpr (.inl rfl)⟩

/-- The left edge is dragged out by 5, the width that is allowed is one more. -/
theorem constrain_resize_keeps_edge_fails :
    ¬∀ (info : WindowInfo) window pos size newPos newSize, info.state = .restored →
      0 < info.widthInc → 0 < info.heightInc →
      info.constrainResize window pos size = .ok (newPos, newSize) →
      KeepsEdge window.left pos.x size.width newPos.x newSize.width ∧
        KeepsEdge window.top pos.y size.height newPos.y newSize.height := by
  intro claim
  have result : WindowInfo.stepped.constrainResize default ⟨-5, 0⟩ ⟨5, 5⟩ =
      .ok (⟨-4, 0⟩, ⟨6, 5⟩) := rfl
  have kept := (claim WindowInfo.stepped default _ _ _ _ rfl (by decide) (by decide) result).1
  exact absurd kept (by unfold KeepsEdge; decide)

end Miral
