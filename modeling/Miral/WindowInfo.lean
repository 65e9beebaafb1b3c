import Miral.Library.Machine
import Miral.WindowSpecification

/-! The record the manager keeps for a window, the rules its type implies, and the
size constraints of `WindowInfo::constrain_resize`. That function works in `int` and, for the
increments and the aspect ratios, in `long`; what is too large wraps. -/
namespace Miral

open Machine

/-- `std::numeric_limits<int>::max()`. -/
def intMax : Int := 2147483647

/-- `std::numeric_limits<unsigned>::max()`. -/
def unsignedMax : Nat := 4294967295

/-- The fields of `WindowInfo::Self`; `window` is the key the record is filed under. -/
structure WindowInfo where
  name : String
  type : WindowType
  state : WindowState
  restoreRect : Rectangle
  parent : Option Window
  children : List Window
  minWidth : Int
  minHeight : Int
  maxWidth : Int
  maxHeight : Int
  preferredOrientation : OrientationMode
  confinePointer : PointerConfinementState
  widthInc : Int
  heightInc : Int
  minAspect : AspectRatio
  maxAspect : AspectRatio
  outputId : Option Int
  shellChrome : ShellChrome
  userdata : Option Nat
  deriving DecidableEq

namespace WindowState

/-- The two states `set_state` and both visibility tests treat as not shown. -/
def concealed : WindowState → Bool
  | .hidden | .minimized => true
  | _ => false

end WindowState

namespace WindowType

/-- `WindowInfo::can_be_active`. -/
def canBeActive : WindowType → Bool
  | .normal | .utility | .dialog | .freestyle | .menu => true
  | _ => false

/-- `WindowInfo::must_have_parent`. -/
def mustHaveParent : WindowType → Bool
  | .gloss | .inputmethod | .satellite | .tip => true
  | _ => false

/-- `WindowInfo::must_not_have_parent`. -/
def mustNotHaveParent : WindowType → Bool
  | .normal | .utility => true
  | _ => false

/-- `WindowInfo::can_morph_to`, from the first type to the second. -/
def canMorphTo (type : WindowType) : WindowType → Bool
  | .normal | .utility | .satellite =>
    match type with
    | .normal | .utility | .dialog | .satellite => true
    | _ => false
  | .dialog =>
    match type with
    | .normal | .utility | .dialog | .menu | .satellite => true
    | _ => false
  | _ => false

end WindowType

namespace WindowInfo

/-- `WindowInfo::Self::Self(Window, WindowSpecification const&)`. -/
def ofSpecification (params : WindowSpecification) : Except Failure WindowInfo := do
  let name ← Failure.valueOf params.name
  let topLeft ← Failure.valueOf params.topLeft
  let size ← Failure.valueOf params.size
  pure
    { name
      type := params.type.getD .normal
      state := params.state.getD .restored
      restoreRect := ⟨topLeft, size⟩
      parent := none
      children := []
      minWidth := params.minWidth.getD 0
      minHeight := params.minHeight.getD 0
      maxWidth := params.maxWidth.getD intMax
      maxHeight := params.maxHeight.getD intMax
      preferredOrientation := params.preferredOrientation.getD .any
      confinePointer := params.confinePointer.getD .unconfined
      widthInc := params.widthInc.getD 1
      heightInc := params.heightInc.getD 1
      minAspect := params.minAspect.getD ⟨0, unsignedMax⟩
      maxAspect := params.maxAspect.getD ⟨unsignedMax, 0⟩
      outputId := params.outputId
      shellChrome := params.shellChrome.getD .normal
      userdata := params.userdata }

def addChild (info : WindowInfo) (child : Window) : WindowInfo :=
  { info with children := info.children ++ [child] }

/-- Removes the first occurrence only. -/
def removeChild (info : WindowInfo) (child : Window) : WindowInfo :=
  { info with children := info.children.erase child }

/-- The four limits, applied in the order of the source. -/
def clamp (info : WindowInfo) (size : Size) : Size :=
  let width := if info.minWidth > size.width then info.minWidth else size.width
  let height := if info.minHeight > size.height then info.minHeight else size.height
  ⟨if info.maxWidth < width then info.maxWidth else width,
    if info.maxHeight < height then info.maxHeight else height⟩

/-- Rounds `value` to `least` plus a whole number of increments, if it is not there yet. -/
def roundToIncrement (value least inc : Int) : Except Failure Int :=
  let beyond := int (value - least)
  if inc = 0 then .error .divisionByZero
  -- `%` divides, and the quotient has to fit an `int` too
  else if inc = -1 ∧ ¬IsInt (-beyond) then .error .quotientOverflow
  else if beyond.tmod inc ≠ 0 then
    -- the product is a `long` that `DeltaX` and `DeltaY` narrow
    .ok (int (least + int (inc * ((2 * beyond + inc).tdiv 2).tdiv inc)))
  else .ok value

/-- `(error + (denominator - 1)) / denominator`, for a denominator that is not zero. -/
def correction (error : Int) (denominator : Nat) : Int :=
  (long (error + (denominator - 1))).tdiv denominator

def divideUp (error : Int) (denominator : Nat) : Except Failure Int :=
  if denominator = 0 then .error .divisionByZero else .ok (correction error denominator)

/-- The `error` of a size that is too narrow for the ratio. -/
def minError (ratio : AspectRatio) (size : Size) : Int :=
  long (size.height * ratio.width - size.width * ratio.height)

/-- The `error` of a size that is too wide for the ratio. -/
def maxError (ratio : AspectRatio) (size : Size) : Int :=
  long (size.width * ratio.height - size.height * ratio.width)

/-- Widens or flattens a size that is too narrow for the ratio. -/
def applyMinAspect (ratio : AspectRatio) (size : Size) : Except Failure Size :=
  let error := minError ratio size
  if error > 0 then do
    let widthCorrection ← divideUp error ratio.height
    let heightCorrection ← divideUp error ratio.width
    if widthCorrection < heightCorrection then
      pure ⟨int (size.width + int widthCorrection), size.height⟩
    else pure ⟨size.width, int (size.height - int heightCorrection)⟩
  else .ok size

/-- Narrows or heightens a size that is too wide for the ratio. -/
def applyMaxAspect (ratio : AspectRatio) (size : Size) : Except Failure Size :=
  let error := maxError ratio size
  if error > 0 then do
    let heightCorrection ← divideUp error ratio.width
    let widthCorrection ← divideUp error ratio.height
    if widthCorrection < heightCorrection then
      pure ⟨int (size.width - int widthCorrection), size.height⟩
    else pure ⟨size.width, int (size.height + int heightCorrection)⟩
  else .ok size

/-- Keeps the edges a state anchors where the window has them now. -/
def anchorToState (info : WindowInfo) (window : Rectangle) (pos : Point) (size : Size) :
    Point × Size :=
  match info.state with
  | .restored => (pos, size)
  | .vertmaximized => (⟨pos.x, window.topLeft.y⟩, ⟨size.width, window.size.height⟩)
  | .horizmaximized => (⟨window.topLeft.x, pos.y⟩, ⟨window.size.width, size.height⟩)
  | _ => (window.topLeft, window.size)

/-- `WindowInfo::constrain_resize`; `window` is where the surface is now. -/
def constrainResize (info : WindowInfo) (window : Rectangle) (requestedPos : Point)
    (requestedSize : Size) : Except Failure (Point × Size) := do
  let leftResize := requestedPos.x ≠ window.topLeft.x
  let topResize := requestedPos.y ≠ window.topLeft.y
  let clamped := info.clamp requestedSize
  let width ← roundToIncrement clamped.width info.minWidth info.widthInc
  let height ← roundToIncrement clamped.height info.minHeight info.heightInc
  let size ← applyMinAspect info.minAspect ⟨width, height⟩
  let newSize ← applyMaxAspect info.maxAspect size
  let newPos : Point :=
    ⟨if leftResize then int (requestedPos.x + int (newSize.width - requestedSize.width))
      else requestedPos.x,
      if topResize then int (requestedPos.y + int (newSize.height - requestedSize.height))
      else requestedPos.y⟩
  pure (info.anchorToState window newPos newSize)

end WindowInfo

end Miral
