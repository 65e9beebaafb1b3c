import Miral.WindowInfo

/-! Placement of a window relative to a rectangle of its parent: the gravity tables and
the three phases of `BasicWindowManager::place_relative`. -/
namespace Miral

namespace PlacementGravity

def flipX : PlacementGravity → PlacementGravity
  | .northwest => .northeast
  | .northeast => .northwest
  | .west => .east
  | .east => .west
  | .southwest => .southeast
  | .southeast => .southwest
  | gravity => gravity

def flipY : PlacementGravity → PlacementGravity
  | .northwest => .southwest
  | .north => .south
  | .northeast => .southeast
  | .southwest => .northwest
  | .south => .north
  | .southeast => .northeast
  | gravity => gravity

def antipodes : PlacementGravity → PlacementGravity
  | .northwest => .southeast
  | .north => .south
  | .northeast => .southwest
  | .west => .east
  | .east => .west
  | .southwest => .northeast
  | .south => .north
  | .southeast => .northwest
  | gravity => gravity

end PlacementGravity

def Displacement.flipX (d : Displacement) : Displacement := ⟨-1 * d.dx, d.dy⟩
def Displacement.flipY (d : Displacement) : Displacement := ⟨d.dx, -1 * d.dy⟩

/-- The four comparisons of `constrain_to`, in their order. -/
def constrainTo (rect : Rectangle) (point : Point) : Point :=
  let x := if point.x < rect.left then rect.left else point.x
  let y := if point.y < rect.top then rect.top else point.y
  ⟨if x > rect.right then rect.right else x, if y > rect.bottom then rect.bottom else y⟩

def badGravity : Failure := .runtimeError "bad placement gravity"

def anchorFor (auxRect : Rectangle) : PlacementGravity → Except Failure Point
  | .northwest => .ok auxRect.topLeft
  | .north => .ok (auxRect.topLeft + Displacement.mk (half auxRect.size.width) 0)
  | .northeast => .ok auxRect.topRight
  | .west => .ok (auxRect.topLeft + Displacement.mk 0 (half auxRect.size.height))
  | .center => .ok (auxRect.topLeft + (asDisplacement auxRect.size).half)
  | .east => .ok (auxRect.topRight + Displacement.mk 0 (half auxRect.size.height))
  | .southwest => .ok auxRect.bottomLeft
  | .south => .ok (auxRect.bottomLeft + Displacement.mk (half auxRect.size.width) 0)
  | .southeast => .ok auxRect.bottomRight
  | .other => .error badGravity

def offsetFor (size : Size) : PlacementGravity → Except Failure Displacement
  | .northwest => .ok ⟨0, 0⟩
  | .north => .ok ⟨half (-size.width), 0⟩
  | .northeast => .ok ⟨-1 * size.width, 0⟩
  | .west => .ok ⟨0, half (-size.height)⟩
  | .center => .ok ⟨half (-size.width), half (-size.height)⟩
  | .east => .ok ⟨-1 * size.width, half (-size.height)⟩
  | .southwest => .ok ⟨0, -1 * size.height⟩
  | .south => .ok ⟨half (-size.width), -1 * size.height⟩
  | .southeast => .ok ⟨-1 * size.width, -1 * size.height⟩
  | .other => .error badGravity

/-- The values `place_relative` holds fixed while it searches. -/
structure PlacementRequest where
  parent : Rectangle
  auxRect : Rectangle
  display : Rectangle
  hints : PlacementHints
  winGravity : PlacementGravity
  offset : Displacement

namespace PlacementRequest

variable (request : PlacementRequest)

/-- The anchor, constrained to the parent, moved by the window's own offset. -/
def position (size : Size) (rectGravity winGravity : PlacementGravity) (offset : Displacement) :
    Except Failure Point := do
  let anchor ← anchorFor request.auxRect rectGravity
  let adjust ← offsetFor size winGravity
  pure (constrainTo request.parent (anchor + offset) + adjust)

def direct (size : Size) (rectGravity : PlacementGravity) : Except Failure Point :=
  request.position size rectGravity request.winGravity request.offset

/-- The placements the first loop tries for one gravity, in their order. -/
def flips (size : Size) (rectGravity : PlacementGravity) : List (Except Failure Point) :=
  let winGravity := request.winGravity
  let offset := request.offset
  [request.direct size rectGravity] ++
  (if request.hints.flipX then
    [request.position size rectGravity.flipX winGravity.flipX offset.flipX] else []) ++
  (if request.hints.flipY then
    [request.position size rectGravity.flipY winGravity.flipY offset.flipY] else []) ++
  (if request.hints.flipX ∧ request.hints.flipY then
    [request.position size rectGravity.flipY.flipX winGravity.flipY.flipX offset.flipY.flipX]
    else [])

/-- The first position at which the window is inside the display; a failure stops the
search where it is reached. -/
def firstFit (size : Size) : List (Except Failure Point) → Except Failure (Option Rectangle)
  | [] => .ok none
  | candidate :: rest => do
    let result ← candidate
    if request.display.contains ⟨result, size⟩ then pure (some ⟨result, size⟩)
    else firstFit size rest

/-- One axis of a slide: at most one of the two overhangs is corrected. -/
def slide (position extent low high : Int) : Int :=
  if position - low < 0 then position - (position - low)
  else if position + extent - high > 0 then position - (position + extent - high)
  else position

/-- One axis of a resize: the new position and extent. -/
def shrink (position extent low high : Int) : Int × Int :=
  let leftOverhang := position - low
  let rightOverhang := position + extent - high
  let (position, extent) :=
    if leftOverhang < 0 then (position - leftOverhang, extent + leftOverhang)
    else (position, extent)
  (position, if rightOverhang > 0 then extent - rightOverhang else extent)

def slid (size : Size) (result : Point) : Point :=
  ⟨if request.hints.slideX then
      slide result.x size.width request.display.left request.display.right else result.x,
    if request.hints.slideY then
      slide result.y size.height request.display.top request.display.bottom else result.y⟩

def resized (size : Size) (result : Point) : Rectangle :=
  let (x, width) := if request.hints.resizeX then
    shrink result.x size.width request.display.left request.display.right
    else (result.x, size.width)
  let (y, height) := if request.hints.resizeY then
    shrink result.y size.height request.display.top request.display.bottom
    else (result.y, size.height)
  ⟨⟨x, y⟩, ⟨width, height⟩⟩

def slides (size : Size) (gravities : List PlacementGravity) : List (Except Failure Point) :=
  gravities.map fun gravity => (request.direct size gravity).map (request.slid size)

/-- The third loop. The size it cuts down for one gravity is what the next one starts
from. -/
def firstResized (size : Size) : List PlacementGravity → Except Failure (Option Rectangle)
  | [] => .ok none
  | gravity :: rest => do
    let result ← request.direct size gravity
    let rect := request.resized size result
    if request.display.contains rect then pure (some rect) else firstResized rect.size rest

def search (size : Size) (rectGravity : PlacementGravity) : Except Failure Rectangle := do
  let gravities := [rectGravity] ++
    (if request.hints.antipodes then [rectGravity.antipodes] else [])
  let flipped ← request.firstFit size (gravities.flatMap (request.flips size))
  if let some rect := flipped then return rect
  let defaultResult ← request.direct size rectGravity
  let slid ← request.firstFit size (request.slides size gravities)
  if let some rect := slid then return rect
  let resized ← request.firstResized size gravities
  if let some rect := resized then return rect
  return ⟨defaultResult, size⟩

end PlacementRequest

/-- `BasicWindowManager::place_relative`, given `active_display()`. Some gravity is always
tried, so the optional result of the source is always set. -/
def placeRelative (display parent : Rectangle) (parameters : WindowSpecification) (size : Size) :
    Except Failure Rectangle := do
  let hints ← Failure.valueOf parameters.placementHints
  let winGravity ← Failure.valueOf parameters.windowPlacementGravity
  let size := parameters.size.getD size
  let offset := parameters.auxRectPlacementOffset.getD ⟨0, 0⟩
  let auxRect ← Failure.valueOf parameters.auxRect
  let auxRect : Rectangle :=
    ⟨auxRect.topLeft + Displacement.mk parent.topLeft.x parent.topLeft.y, auxRect.size⟩
  let rectGravity ← Failure.valueOf parameters.auxRectPlacementGravity
  PlacementRequest.search ⟨parent, auxRect, display, hints, winGravity, offset⟩ size rectGravity

end Miral
