import Miral.Library.Rounding
import Miral.WindowInfo

/-! What the size constraints of a window come to: limits and increments put a size on a
grid, the two aspect ratios then correct it in the direction that takes less. -/
namespace Miral

open Rounding Machine

namespace AspectRatio

variable (ratio : AspectRatio) (size : Size)

def Narrow : Prop := size.width * ratio.height < size.height * ratio.width

def Wide : Prop := size.height * ratio.width < size.width * ratio.height

instance : Decidable (ratio.Narrow size) := inferInstanceAs (Decidable (_ < _))
instance : Decidable (ratio.Wide size) := inferInstanceAs (Decidable (_ < _))

/-- The least width that is not too narrow for a height. -/
def widthFrom (height : Int) : Int := ceilDiv (height * ratio.width) ratio.height

/-- The greatest width that is not too wide for a height. -/
def widthUpTo (height : Int) : Int := height * ratio.width / ratio.height

/-- The least height for which a width is not too wide. -/
def heightFrom (width : Int) : Int := ceilDiv (width * ratio.height) ratio.width

/-- The greatest height for which a width is not too narrow. -/
def heightUpTo (width : Int) : Int := width * ratio.height / ratio.width

/-- The smaller of the two ways to make a size wide enough. -/
def atLeast : Size :=
  if ratio.widthFrom size.height - size.width < size.height - ratio.heightUpTo size.width
  then ⟨ratio.widthFrom size.height, size.height⟩
  else ⟨size.width, ratio.heightUpTo size.width⟩

/-- The smaller of the two ways to make a size narrow enough. -/
def atMost : Size :=
  if size.width - ratio.widthUpTo size.height < ratio.heightFrom size.width - size.height
  then ⟨ratio.widthUpTo size.height, size.height⟩
  else ⟨size.width, ratio.heightFrom size.width⟩

def widened : Size := if ratio.Narrow size then ratio.atLeast size else size

def narrowed : Size := if ratio.Wide size then ratio.atMost size else size

/-- Too narrow, and it takes less to widen than to lower. -/
def Widens : Prop :=
  ratio.Narrow size ∧
    ratio.widthFrom size.height - size.width < size.height - ratio.heightUpTo size.width

/-- Too narrow, and it takes no less to widen than to lower. -/
def Lowers : Prop :=
  ratio.Narrow size ∧
    size.height - ratio.heightUpTo size.width ≤ ratio.widthFrom size.height - size.width

def Narrows : Prop :=
  ratio.Wide size ∧
    size.width - ratio.widthUpTo size.height < ratio.heightFrom size.width - size.height

def Heightens : Prop :=
  ratio.Wide size ∧
    ratio.heightFrom size.width - size.height ≤ size.width - ratio.widthUpTo size.height

instance : Decidable (ratio.Widens size) := inferInstanceAs (Decidable (_ ∧ _))
instance : Decidable (ratio.Lowers size) := inferInstanceAs (Decidable (_ ∧ _))
instance : Decidable (ratio.Narrows size) := inferInstanceAs (Decidable (_ ∧ _))
instance : Decidable (ratio.Heightens size) := inferInstanceAs (Decidable (_ ∧ _))

variable {ratio size} {w h : Int}

theorem widened_eq : (ratio.Widens size → ratio.widened size =
      ⟨ratio.widthFrom size.height, size.height⟩) ∧
    (ratio.Lowers size → ratio.widened size = ⟨size.width, ratio.heightUpTo size.width⟩) ∧
    (¬ratio.Narrow size → ratio.widened size = size) := by
  unfold widened atLeast
  exact ⟨fun ⟨narrow, less⟩ => by rw [if_pos narrow, if_pos less],
    fun ⟨narrow, less⟩ => by rw [if_pos narrow, if_neg (Int.not_lt.mpr less)],
    fun wide => if_neg wide⟩

theorem narrowed_eq : (ratio.Narrows size → ratio.narrowed size =
      ⟨ratio.widthUpTo size.height, size.height⟩) ∧
    (ratio.Heightens size → ratio.narrowed size = ⟨size.width, ratio.heightFrom size.width⟩) ∧
    (¬ratio.Wide size → ratio.narrowed size = size) := by
  unfold narrowed atMost
  exact ⟨fun ⟨wide, less⟩ => by rw [if_pos wide, if_pos less],
    fun ⟨wide, less⟩ => by rw [if_pos wide, if_neg (Int.not_lt.mpr less)],
    fun narrow => if_neg narrow⟩

theorem widens_or_lowers (narrow : ratio.Narrow size) : ratio.Widens size ∨ ratio.Lowers size :=
  (lt_or_ge _ _).imp (⟨narrow, ·⟩) (⟨narrow, ·⟩)

theorem narrows_or_heightens (wide : ratio.Wide size) :
    ratio.Narrows size ∨ ratio.Heightens size :=
  (lt_or_ge _ _).imp (⟨wide, ·⟩) (⟨wide, ·⟩)

theorem widened_width : (ratio.widened size).width =
    if ratio.Widens size then ratio.widthFrom size.height else size.width := by
  unfold widened atLeast Widens
  grind

theorem widened_height : (ratio.widened size).height =
    if ratio.Lowers size then ratio.heightUpTo size.width else size.height := by
  unfold widened atLeast Lowers
  grind

theorem narrowed_width : (ratio.narrowed size).width =
    if ratio.Narrows size then ratio.widthUpTo size.height else size.width := by
  unfold narrowed atMost Narrows
  grind

theorem narrowed_height : (ratio.narrowed size).height =
    if ratio.Heightens size then ratio.heightFrom size.width else size.height := by
  unfold narrowed atMost Heightens
  grind

section Positive

variable (width : 0 < ratio.width) (height : 0 < ratio.height)

include height in
theorem widthFrom_le_iff : ratio.widthFrom h ≤ w ↔ h * ratio.width ≤ w * ratio.height :=
  ceilDiv_le_iff (by omega)

include height in
theorem le_widthUpTo_iff : w ≤ ratio.widthUpTo h ↔ w * ratio.height ≤ h * ratio.width :=
  Int.le_ediv_iff_mul_le (by omega)

include width in
theorem heightFrom_le_iff : ratio.heightFrom w ≤ h ↔ w * ratio.height ≤ h * ratio.width :=
  ceilDiv_le_iff (by omega)

include width in
theorem le_heightUpTo_iff : h ≤ ratio.heightUpTo w ↔ h * ratio.width ≤ w * ratio.height :=
  Int.le_ediv_iff_mul_le (by omega)

include width height

theorem atLeast_wide : ¬ratio.Narrow (ratio.atLeast size) := by
  unfold AspectRatio.Narrow atLeast
  rw [Int.not_lt]
  split
  · exact (widthFrom_le_iff height).mp le_rfl
  · exact (le_heightUpTo_iff width).mp le_rfl

theorem atMost_narrow : ¬ratio.Wide (ratio.atMost size) := by
  unfold AspectRatio.Wide atMost
  rw [Int.not_lt]
  split
  · exact (le_widthUpTo_iff height).mp le_rfl
  · exact (heightFrom_le_iff width).mp le_rfl

theorem lowers_of_flat (narrow : ratio.Narrow size) (flat : ratio.height ≤ ratio.width) :
    size.height - ratio.heightUpTo size.width ≤ ratio.widthFrom size.height - size.width := by
  have border := (widthFrom_le_iff (w := ratio.widthFrom size.height) height).mp le_rfl
  have wider : size.width < ratio.widthFrom size.height :=
    Int.not_le.mp fun enough => Int.not_le.mpr narrow ((widthFrom_le_iff height).mp enough)
  have low : size.height - (ratio.widthFrom size.height - size.width) ≤
      ratio.heightUpTo size.width := by
    rw [le_heightUpTo_iff width]
    nlinarith
  omega

theorem widthFrom_range (steep : ratio.width < ratio.height) (nonneg : 0 ≤ h) :
    0 ≤ ratio.widthFrom h ∧ ratio.widthFrom h ≤ h := by
  constructor
  · by_contra neg
    have := (widthFrom_le_iff (w := -1) (h := h) height).mp (by omega)
    nlinarith
  · rw [widthFrom_le_iff height]
    nlinarith

omit height in
theorem heightUpTo_range (narrow : ratio.Narrow size) (nonneg : 0 ≤ size.width) :
    0 ≤ ratio.heightUpTo size.width ∧ ratio.heightUpTo size.width ≤ size.height := by
  unfold AspectRatio.Narrow at narrow
  constructor
  · rw [le_heightUpTo_iff width]
    nlinarith
  · by_contra high
    have := (le_heightUpTo_iff (h := size.height + 1) (w := size.width) width).mp (by omega)
    nlinarith

omit width in
theorem widthUpTo_range (wide : ratio.Wide size) (nonneg : 0 ≤ size.height) :
    0 ≤ ratio.widthUpTo size.height ∧ ratio.widthUpTo size.height ≤ size.width := by
  unfold AspectRatio.Wide at wide
  constructor
  · rw [le_widthUpTo_iff height]
    nlinarith
  · by_contra broad
    have := (le_widthUpTo_iff (w := size.width + 1) (h := size.height) height).mp (by omega)
    nlinarith

omit height in
theorem le_heightFrom (wide : ratio.Wide size) : size.height ≤ ratio.heightFrom size.width := by
  by_contra low
  exact Int.not_lt.mpr ((heightFrom_le_iff (w := size.width) width).mp (by omega)) wide

end Positive

end AspectRatio

namespace WindowInfo

/-- What the correction for `min_aspect` makes of a size. -/
def minCorrected (ratio : AspectRatio) (size : Size) : Size :=
  let error := minError ratio size
  if 0 < error then
    if correction error ratio.height < correction error ratio.width
    then ⟨int (size.width + correction error ratio.height), size.height⟩
    else ⟨size.width, int (size.height - correction error ratio.width)⟩
  else size

/-- What the correction for `max_aspect` makes of a size. -/
def maxCorrected (ratio : AspectRatio) (size : Size) : Size :=
  let error := maxError ratio size
  if 0 < error then
    if correction error ratio.height < correction error ratio.width
    then ⟨int (size.width - correction error ratio.height), size.height⟩
    else ⟨size.width, int (size.height + correction error ratio.width)⟩
  else size

/-- The comparison both corrections make: it takes less to change the width. -/
def TakesWidth (ratio : AspectRatio) (error : Int) : Prop :=
  0 < error ∧ correction error ratio.height < correction error ratio.width

/-- It takes no less to change the width than to change the height. -/
def TakesHeight (ratio : AspectRatio) (error : Int) : Prop :=
  0 < error ∧ correction error ratio.width ≤ correction error ratio.height

instance (ratio : AspectRatio) (error : Int) : Decidable (TakesWidth ratio error) :=
  inferInstanceAs (Decidable (_ ∧ _))
instance (ratio : AspectRatio) (error : Int) : Decidable (TakesHeight ratio error) :=
  inferInstanceAs (Decidable (_ ∧ _))

variable {ratio : AspectRatio} {size : Size}

theorem takes_width_or_height {error : Int} (broken : 0 < error) :
    TakesWidth ratio error ∨ TakesHeight ratio error :=
  (lt_or_ge _ _).imp (⟨broken, ·⟩) (⟨broken, ·⟩)

theorem minCorrected_cases : (TakesWidth ratio (minError ratio size) → minCorrected ratio size =
      ⟨int (size.width + correction (minError ratio size) ratio.height), size.height⟩) ∧
    (TakesHeight ratio (minError ratio size) → minCorrected ratio size =
      ⟨size.width, int (size.height - correction (minError ratio size) ratio.width)⟩) ∧
    (¬0 < minError ratio size → minCorrected ratio size = size) := by
  unfold minCorrected
  exact ⟨fun ⟨broken, less⟩ => (if_pos broken).trans (if_pos less),
    fun ⟨broken, less⟩ => (if_pos broken).trans (if_neg (Int.not_lt.mpr less)),
    fun kept => if_neg kept⟩

theorem maxCorrected_cases : (TakesWidth ratio (maxError ratio size) → maxCorrected ratio size =
      ⟨int (size.width - correction (maxError ratio size) ratio.height), size.height⟩) ∧
    (TakesHeight ratio (maxError ratio size) → maxCorrected ratio size =
      ⟨size.width, int (size.height + correction (maxError ratio size) ratio.width)⟩) ∧
    (¬0 < maxError ratio size → maxCorrected ratio size = size) := by
  unfold maxCorrected
  exact ⟨fun ⟨broken, less⟩ => (if_pos broken).trans (if_pos less),
    fun ⟨broken, less⟩ => (if_pos broken).trans (if_neg (Int.not_lt.mpr less)),
    fun kept => if_neg kept⟩

theorem minCorrected_width : (minCorrected ratio size).width =
    if TakesWidth ratio (minError ratio size)
    then int (size.width + correction (minError ratio size) ratio.height) else size.width := by
  unfold minCorrected TakesWidth
  grind

theorem minCorrected_height : (minCorrected ratio size).height =
    if TakesHeight ratio (minError ratio size)
    then int (size.height - correction (minError ratio size) ratio.width) else size.height := by
  unfold minCorrected TakesHeight
  grind

theorem maxCorrected_width : (maxCorrected ratio size).width =
    if TakesWidth ratio (maxError ratio size)
    then int (size.width - correction (maxError ratio size) ratio.height) else size.width := by
  unfold maxCorrected TakesWidth
  grind

theorem maxCorrected_height : (maxCorrected ratio size).height =
    if TakesHeight ratio (maxError ratio size)
    then int (size.height + correction (maxError ratio size) ratio.width) else size.height := by
  unfold maxCorrected TakesHeight
  grind

theorem applyMinAspect_eq : applyMinAspect ratio size =
    if 0 < minError ratio size ∧ (ratio.width = 0 ∨ ratio.height = 0) then .error .divisionByZero
    else .ok (minCorrected ratio size) := by
  unfold applyMinAspect minCorrected divideUp
  by_cases narrow : 0 < minError ratio size
  · by_cases height : ratio.height = 0
    · simp [narrow, height, bind, Except.bind]
    by_cases width : ratio.width = 0
    · simp [narrow, height, width, bind, Except.bind]
    simp only [gt_iff_lt, narrow, height, width, if_true, if_false, true_and, or_self, wrap_add_wrap,
      wrap_sub_wrap]
    change (if correction _ _ < correction _ _ then _ else _) = _
    split <;> rfl
  · simp [narrow]

theorem applyMaxAspect_eq : applyMaxAspect ratio size =
    if 0 < maxError ratio size ∧ (ratio.width = 0 ∨ ratio.height = 0) then .error .divisionByZero
    else .ok (maxCorrected ratio size) := by
  unfold applyMaxAspect maxCorrected divideUp
  by_cases wide : 0 < maxError ratio size
  · by_cases width : ratio.width = 0
    · simp [wide, width, bind, Except.bind]
    by_cases height : ratio.height = 0
    · simp [wide, height, width, bind, Except.bind]
    simp only [gt_iff_lt, wide, height, width, if_true, if_false, true_and, or_self, wrap_add_wrap,
      wrap_sub_wrap]
    change (if correction _ _ < correction _ _ then _ else _) = _
    split <;> rfl
  · simp [wide]

/-- Where a value is put between the points of the grid. -/
def snap (least inc value : Int) : Int :=
  let beyond := int (value - least)
  if beyond.tmod inc ≠ 0 then int (least + inc * ((2 * beyond + inc).tdiv 2).tdiv inc)
  else value

/-- The remainder that is taken of a value has a quotient too large for an `int`. -/
def Overflows (least inc value : Int) : Prop := inc = -1 ∧ ¬IsInt (-int (value - least))

instance (least inc value : Int) : Decidable (Overflows least inc value) :=
  inferInstanceAs (Decidable (_ ∧ _))

theorem roundToIncrement_eq {value least inc : Int} : roundToIncrement value least inc =
    if inc = 0 then .error .divisionByZero
    else if Overflows least inc value then .error .quotientOverflow
    else .ok (snap least inc value) := by
  unfold roundToIncrement snap
  simp only [wrap_add_wrap]
  split
  · rfl
  · split
    next large =>
      have overflows : Overflows least inc value := large
      rw [if_pos overflows]
    next fits =>
      have held : ¬Overflows least inc value := fits
      rw [if_neg held]
      split <;> rfl

theorem snap_eq_nearest {least inc value : Int} (pos : 0 < inc) (le : least ≤ value)
    (beyond : IsInt (value - least)) (fits : IsInt (nearest least inc value)) :
    snap least inc value = nearest least inc value := by
  rw [snap]
  simp only [int, wrap_of_holds beyond]
  split
  next off =>
    rw [Int.tdiv_eq_ediv_of_nonneg (a := 2 * (value - least) + inc) (by omega),
      Int.tdiv_eq_ediv_of_nonneg (Int.ediv_nonneg (by omega) (by omega)),
      Int.ediv_ediv_of_nonneg (by omega)]
    exact wrap_of_holds fits
  next on =>
    rw [nearest_of_onGrid pos ⟨le, Int.dvd_of_tmod_eq_zero (by omega)⟩]

/-- The size the limits and the increments give to a requested one. -/
def gridSize (info : WindowInfo) (size : Size) : Size :=
  ⟨snap info.minWidth info.widthInc (info.clamp size).width,
    snap info.minHeight info.heightInc (info.clamp size).height⟩

def corrected (info : WindowInfo) (grid : Size) : Size :=
  maxCorrected info.maxAspect (minCorrected info.minAspect grid)

def WidthOverflows (info : WindowInfo) (size : Size) : Prop :=
  Overflows info.minWidth info.widthInc (info.clamp size).width

def HeightOverflows (info : WindowInfo) (size : Size) : Prop :=
  Overflows info.minHeight info.heightInc (info.clamp size).height

instance (info : WindowInfo) (size : Size) : Decidable (info.WidthOverflows size) :=
  inferInstanceAs (Decidable (Overflows _ _ _))
instance (info : WindowInfo) (size : Size) : Decidable (info.HeightOverflows size) :=
  inferInstanceAs (Decidable (Overflows _ _ _))

/-- The size constraints alone. -/
def fit (info : WindowInfo) (size : Size) : Except Failure Size :=
  if info.widthInc = 0 then .error .divisionByZero
  else if info.WidthOverflows size then .error .quotientOverflow
  else if info.heightInc = 0 then .error .divisionByZero
  else if info.HeightOverflows size then .error .quotientOverflow
  else do
    let size ← applyMinAspect info.minAspect (info.gridSize size)
    applyMaxAspect info.maxAspect size

/-- Neither correction divides by a term of its ratio that is zero. -/
def Divisible (info : WindowInfo) (grid : Size) : Prop :=
  ¬(0 < minError info.minAspect grid ∧ (info.minAspect.width = 0 ∨ info.minAspect.height = 0)) ∧
  ¬(0 < maxError info.maxAspect (minCorrected info.minAspect grid) ∧
    (info.maxAspect.width = 0 ∨ info.maxAspect.height = 0))

instance (info : WindowInfo) (grid : Size) : Decidable (info.Divisible grid) :=
  inferInstanceAs (Decidable (_ ∧ _))

/-- What comes of the corrections, once both remainders have been taken. -/
theorem fit_eq {info : WindowInfo} : info.fit size =
    if info.widthInc = 0 then .error .divisionByZero
    else if info.WidthOverflows size then .error .quotientOverflow
    else if info.heightInc = 0 then .error .divisionByZero
    else if info.HeightOverflows size then .error .quotientOverflow
    else if info.Divisible (info.gridSize size) then .ok (info.corrected (info.gridSize size))
    else .error .divisionByZero := by
  have correct (grid : Size) :
      (applyMinAspect info.minAspect grid >>= fun size => applyMaxAspect info.maxAspect size) =
        if info.Divisible grid then .ok (info.corrected grid) else .error .divisionByZero := by
    rw [applyMinAspect_eq, corrected]
    by_cases least : 0 < minError info.minAspect grid ∧
        (info.minAspect.width = 0 ∨ info.minAspect.height = 0)
    · rw [if_pos least, if_neg fun both : info.Divisible grid => both.1 least]
      rfl
    rw [if_neg least]
    change applyMaxAspect info.maxAspect (minCorrected info.minAspect grid) = _
    rw [applyMaxAspect_eq]
    split
    next greatest => rw [if_neg fun both : info.Divisible grid => both.2 greatest]
    next greatest =>
      have divisible : info.Divisible grid := ⟨least, greatest⟩
      rw [if_pos divisible]
  rw [fit, correct]

/-- A size is fitted if both remainders can be taken and the corrections divide by no zero. -/
structure Fits (info : WindowInfo) (size : Size) : Prop where
  widthInc : info.widthInc ≠ 0
  heightInc : info.heightInc ≠ 0
  width : ¬info.WidthOverflows size
  height : ¬info.HeightOverflows size
  divisible : info.Divisible (info.gridSize size)

theorem fit_eq_ok {info : WindowInfo} {newSize : Size} : info.fit size = .ok newSize ↔
    info.Fits size ∧ info.corrected (info.gridSize size) = newSize := by
  rw [fit_eq]
  constructor
  · intro ok
    repeat (split at ok; contradiction)
    split at ok
    next divisible => exact ⟨⟨‹_›, ‹_›, ‹_›, ‹_›, divisible⟩, Except.ok.inj ok⟩
    next => contradiction
  · rintro ⟨fits, rfl⟩
    rw [if_neg fits.widthInc, if_neg fits.width, if_neg fits.heightInc, if_neg fits.height,
      if_pos fits.divisible]

theorem constrainResize_eq {info : WindowInfo} {window : Rectangle} {pos : Point} {size : Size} :
    info.constrainResize window pos size = (info.fit size).map fun newSize =>
      info.anchorToState window
        ⟨if pos.x ≠ window.topLeft.x then int (pos.x + (newSize.width - size.width)) else pos.x,
          if pos.y ≠ window.topLeft.y then int (pos.y + (newSize.height - size.height)) else pos.y⟩
        newSize := by
  unfold constrainResize fit
  simp only [roundToIncrement_eq, wrap_add_wrap]
  by_cases width : info.widthInc = 0
  · rw [if_pos width, if_pos width]
    rfl
  rw [if_neg width, if_neg width]
  by_cases across : info.WidthOverflows size
  · have large : Overflows info.minWidth info.widthInc (info.clamp size).width := across
    rw [if_pos large, if_pos across]
    rfl
  have held : ¬Overflows info.minWidth info.widthInc (info.clamp size).width := across
  rw [if_neg held, if_neg across]
  by_cases height : info.heightInc = 0
  · rw [if_pos height, if_pos height]
    rfl
  rw [if_neg height, if_neg height]
  by_cases down : info.HeightOverflows size
  · have large : Overflows info.minHeight info.heightInc (info.clamp size).height := down
    rw [if_pos large, if_pos down]
    rfl
  have held : ¬Overflows info.minHeight info.heightInc (info.clamp size).height := down
  rw [if_neg held, if_neg down]
  change (applyMinAspect info.minAspect (info.gridSize size)).bind _ = Except.map _ (Except.bind _ _)
  cases applyMinAspect info.minAspect (info.gridSize size) with
  | error failure => rfl
  | ok least =>
    change (applyMaxAspect info.maxAspect least).bind _ =
      Except.map _ (applyMaxAspect info.maxAspect least)
    cases applyMaxAspect info.maxAspect least with
    | error failure => rfl
    | ok newSize => rfl

end WindowInfo

/-! Sizes that no computation in `int` or `long` takes out of range are corrected as integers are. -/

/-- The terms are of type `unsigned`. -/
def AspectRatio.OfUnsigned (ratio : AspectRatio) : Prop :=
  ratio.width ≤ unsignedMax ∧ ratio.height ≤ unsignedMax

/-- Width and height are of type `int`. -/
def Size.OfInts (size : Size) : Prop := IsInt size.width ∧ IsInt size.height

def Size.Nonneg (size : Size) : Prop := 0 ≤ size.width ∧ 0 ≤ size.height

instance (ratio : AspectRatio) : Decidable ratio.OfUnsigned := inferInstanceAs (Decidable (_ ∧ _))
instance (size : Size) : Decidable size.OfInts := inferInstanceAs (Decidable (_ ∧ _))
instance (size : Size) : Decidable size.Nonneg := inferInstanceAs (Decidable (_ ∧ _))

/-- The constraints are of the types they have in the source. -/
structure WindowInfo.OfInts (info : WindowInfo) : Prop where
  minWidth : IsInt info.minWidth
  minHeight : IsInt info.minHeight
  maxWidth : IsInt info.maxWidth
  maxHeight : IsInt info.maxHeight
  minAspect : info.minAspect.OfUnsigned
  maxAspect : info.maxAspect.OfUnsigned

namespace WindowInfo

theorem OfInts.gridSize {info : WindowInfo} {size : Size} (ints : info.OfInts)
    (sizeInts : size.OfInts) : (info.gridSize size).OfInts := by
  have chosen {p : Prop} [Decidable p] {a b : Int} (first : IsInt a) (second : IsInt b) :
      IsInt (if p then a else b) := by
    split
    · exact first
    · exact second
  have snapped {least inc value : Int} (holds : IsInt value) : IsInt (snap least inc value) :=
    chosen (holds_wrap _ (by decide)) holds
  exact ⟨snapped (chosen ints.maxWidth (chosen ints.minWidth sizeInts.1)),
    snapped (chosen ints.maxHeight (chosen ints.minHeight sizeInts.2))⟩

section Ordinary

variable {ratio : AspectRatio} {size : Size} (terms : ratio.OfUnsigned) (ints : size.OfInts)
  (nonneg : size.Nonneg)

theorem product_le {a : Int} {b : Nat} (least : 0 ≤ a) (most : IsInt a) (term : b ≤ unsignedMax) :
    0 ≤ a * b ∧ a * b ≤ 2147483647 * 4294967295 := by
  have upper : a ≤ 2147483647 := by
    have := most.2
    omega
  have other : (b : Int) ≤ 4294967295 := by
    unfold unsignedMax at term
    omega
  exact ⟨by positivity, by nlinarith⟩

include terms ints nonneg

theorem minError_eq : minError ratio size = size.height * ratio.width - size.width * ratio.height := by
  have across := product_le nonneg.1 ints.1 terms.2
  have down := product_le nonneg.2 ints.2 terms.1
  exact wrap_of_holds ⟨by omega, by omega⟩

theorem maxError_eq : maxError ratio size = size.width * ratio.height - size.height * ratio.width := by
  have across := product_le nonneg.1 ints.1 terms.2
  have down := product_le nonneg.2 ints.2 terms.1
  exact wrap_of_holds ⟨by omega, by omega⟩

omit terms ints nonneg in
theorem correction_eq {error : Int} {denominator : Nat} (some : 0 < denominator)
    (term : denominator ≤ unsignedMax) (least : 0 < error)
    (most : error ≤ 2147483647 * 4294967295) :
    correction error denominator = ceilDiv error denominator := by
  unfold unsignedMax at term
  rw [correction, long, wrap_of_holds ⟨by omega, by omega⟩, tdiv_eq_ceilDiv (by omega) least]

variable (divides : ¬(ratio.Narrow size ∧ (ratio.width = 0 ∨ ratio.height = 0)))

include divides in
theorem minCorrected_eq : minCorrected ratio size = ratio.widened size := by
  have across := product_le nonneg.1 ints.1 terms.2
  have down := product_le nonneg.2 ints.2 terms.1
  rw [minCorrected, minError_eq terms ints nonneg, AspectRatio.widened]
  by_cases narrow : ratio.Narrow size
  · have some : 0 < ratio.width ∧ 0 < ratio.height := by
      have := not_and.mp divides narrow
      omega
    have error : 0 < size.height * ratio.width - size.width * ratio.height := Int.sub_pos.mpr narrow
    rw [if_pos narrow]
    simp only [error, if_true]
    rw [correction_eq some.2 terms.2 error (by omega), correction_eq some.1 terms.1 error (by omega),
      ceilDiv_sub_mul (by omega), ceilDiv_mul_sub (by omega), AspectRatio.atLeast]
    change (if ratio.widthFrom size.height - size.width <
      size.height - ratio.heightUpTo size.width then _ else _) = _
    split
    next less =>
      have steep : ratio.width < ratio.height := by
        by_contra flat
        have := AspectRatio.lowers_of_flat some.1 some.2 narrow (Nat.not_lt.mp flat)
        omega
      have range := AspectRatio.widthFrom_range some.1 some.2 steep nonneg.2
      have most := ints.2.2
      refine congrArg (Size.mk · size.height) ((wrap_of_holds ?_).trans (add_sub_cancel _ _))
      change Holds 32 (size.width + (ratio.widthFrom size.height - size.width))
      exact ⟨by omega, by omega⟩
    next less =>
      have range := AspectRatio.heightUpTo_range some.1 narrow nonneg.1
      have most := ints.2.2
      refine congrArg (Size.mk size.width ·) ((wrap_of_holds ?_).trans (Int.sub_sub_self _ _))
      change Holds 32 (size.height - (size.height - ratio.heightUpTo size.width))
      exact ⟨by omega, by omega⟩
  · rw [if_neg fun error => narrow (Int.sub_pos.mp error), if_neg narrow]

omit terms in
include divides in
theorem widened_ordinary : (ratio.widened size).OfInts ∧ (ratio.widened size).Nonneg := by
  unfold AspectRatio.widened
  split
  next narrow =>
    have some : 0 < ratio.width ∧ 0 < ratio.height := by
      have := not_and.mp divides narrow
      omega
    obtain ⟨⟨_, across⟩, _, down⟩ := ints
    obtain ⟨left, top⟩ := nonneg
    unfold AspectRatio.atLeast
    split
    next less =>
      have steep : ratio.width < ratio.height := by
        by_contra flat
        have := AspectRatio.lowers_of_flat some.1 some.2 narrow (Nat.not_lt.mp flat)
        omega
      have range := AspectRatio.widthFrom_range some.1 some.2 steep top
      exact ⟨⟨⟨by simp only; omega, by simp only; omega⟩, ‹_›, down⟩, range.1, top⟩
    next less =>
      have range := AspectRatio.heightUpTo_range some.1 narrow left
      exact ⟨⟨⟨‹_›, across⟩, by simp only; omega, by simp only; omega⟩, left, range.1⟩
  next narrow => exact ⟨ints, nonneg⟩

variable (divides' : ¬(ratio.Wide size ∧ (ratio.width = 0 ∨ ratio.height = 0)))

include divides' in
/-- Only a height can get out of range. -/
theorem maxCorrected_eq : maxCorrected ratio size =
    ⟨(ratio.narrowed size).width, int (ratio.narrowed size).height⟩ := by
  have across := product_le nonneg.1 ints.1 terms.2
  have down := product_le nonneg.2 ints.2 terms.1
  rw [maxCorrected, maxError_eq terms ints nonneg, AspectRatio.narrowed]
  by_cases wide : ratio.Wide size
  · have some : 0 < ratio.width ∧ 0 < ratio.height := by
      have := not_and.mp divides' wide
      omega
    have error : 0 < size.width * ratio.height - size.height * ratio.width := Int.sub_pos.mpr wide
    rw [if_pos wide]
    simp only [error, if_true]
    rw [correction_eq some.2 terms.2 error (by omega), correction_eq some.1 terms.1 error (by omega),
      ceilDiv_sub_mul (by omega), ceilDiv_mul_sub (by omega), AspectRatio.atMost]
    change (if size.width - ratio.widthUpTo size.height <
      ratio.heightFrom size.width - size.height then _ else _) = _
    split
    next less =>
      have range := AspectRatio.widthUpTo_range some.2 wide nonneg.2
      have most := ints.1.2
      have width : int (size.width - (size.width - ratio.widthUpTo size.height)) =
          ratio.widthUpTo size.height :=
        (wrap_of_holds ⟨by omega, by omega⟩).trans (Int.sub_sub_self _ _)
      exact congrArg₂ Size.mk width (wrap_of_holds ints.2).symm
    next less => exact congrArg (fun h => Size.mk size.width (int h)) (add_sub_cancel _ _)
  · rw [if_neg fun error => wide (Int.sub_pos.mp error), if_neg wide]
    exact congrArg (Size.mk size.width) (wrap_of_holds ints.2).symm

include divides' in
/-- A height that got out of range is below zero. -/
theorem maxCorrected_wide (overflows : ¬IsInt (ratio.narrowed size).height) :
    ratio.Wide (maxCorrected ratio size) := by
  rw [maxCorrected_eq terms ints nonneg divides']
  by_cases wide : ratio.Wide size
  · have some : 0 < ratio.width ∧ 0 < ratio.height := by
      have := not_and.mp divides' wide
      omega
    rcases AspectRatio.narrows_or_heightens wide with less | less
    · rw [AspectRatio.narrowed_eq.1 less] at overflows
      exact absurd ints.2 overflows
    · have low := AspectRatio.le_heightFrom some.1 wide
      have range := AspectRatio.widthUpTo_range some.2 wide nonneg.2
      have border := less.2
      obtain ⟨⟨_, across⟩, _, down⟩ := ints
      rw [AspectRatio.narrowed_eq.2.1 less] at overflows ⊢
      have below : int (ratio.heightFrom size.width) < 0 := by
        have high : 2 ^ 32 ≤ 2 * ratio.heightFrom size.width :=
          Int.not_lt.mp fun fits => overflows ⟨by simp only; omega, fits⟩
        obtain ⟨turns, eq⟩ := exists_wrap 32 (ratio.heightFrom size.width)
        have held : Holds 32 (wrap 32 (ratio.heightFrom size.width)) := holds_wrap _ (by decide)
        unfold Holds at held
        rw [eq] at held
        change wrap 32 _ < 0
        omega
      change int (ratio.heightFrom size.width) * ratio.width < size.width * ratio.height
      have := nonneg.1
      nlinarith
  · rw [AspectRatio.narrowed, if_neg wide] at overflows
    exact absurd ints.2 overflows

end Ordinary

end WindowInfo

end Miral
