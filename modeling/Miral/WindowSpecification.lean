import Miral.Geometry

/-! Window attributes and the requests that set them: `WindowSpecification` and its two
translations from what a client sends. `optional_value` is `Option`; reading an unset
one is a `Failure`. -/
namespace Miral

/-- What can stop a window management operation. `outOfRange` is `map::at` on an absent
key. A zero divisor, the least `int` divided by -1 and an unset `optional_value` do not throw a
C++ exception in every build, but no caller survives them, so they are failures as well. -/
inductive Failure where
  | runtimeError (what : String)
  | outOfRange
  | unsetOptional
  | divisionByZero
  | quotientOverflow
  deriving DecidableEq, Repr

/-- The failures of the processor's division, which end the process. -/
def Failure.Traps (failure : Failure) : Prop :=
  failure = .divisionByZero ∨ failure = .quotientOverflow

instance (failure : Failure) : Decidable failure.Traps := inferInstanceAs (Decidable (_ ∨ _))

def Failure.valueOf {α : Type} : Option α → Except Failure α
  | some a => .ok a
  | none => .error .unsetOptional

/-- The last constructor is the sentinel `mir_window_types`; it stands for every value
of the C enumeration outside the named ones. -/
inductive WindowType where
  | normal | utility | dialog | gloss | freestyle | menu | inputmethod | satellite | tip
  | types
  deriving DecidableEq, Repr

inductive WindowState where
  | unknown | restored | minimized | maximized | vertmaximized | fullscreen | horizmaximized
  | hidden
  | states
  deriving DecidableEq, Repr

/-- The nine gravities, and `other` for the bit patterns that name none of them. -/
inductive PlacementGravity where
  | center | west | east | north | south | northwest | northeast | southwest | southeast
  | other
  deriving DecidableEq, Repr

/-- `MirPlacementHints`, one field for each bit. -/
structure PlacementHints where
  flipX : Bool
  flipY : Bool
  slideX : Bool
  slideY : Bool
  resizeX : Bool
  resizeY : Bool
  antipodes : Bool
  deriving DecidableEq, Repr

namespace PlacementHints

def none : PlacementHints := ⟨false, false, false, false, false, false, false⟩
def onlyFlipX : PlacementHints := { none with flipX := true }
def onlyFlipY : PlacementHints := { none with flipY := true }
/-- `mir_placement_hints_flip_any`. -/
def flipAny : PlacementHints := { none with flipX := true, flipY := true }

end PlacementHints

inductive EdgeAttachment where
  | vertical | horizontal | any
  deriving DecidableEq, Repr

inductive OrientationMode where
  | portrait | landscape | portraitInverted | landscapeInverted | portraitAny | landscapeAny | any
  deriving DecidableEq, Repr

inductive PointerConfinementState where
  | unconfined | confinedToWindow
  deriving DecidableEq, Repr

inductive ShellChrome where
  | normal | low
  deriving DecidableEq, Repr

structure AspectRatio where
  width : Nat
  height : Nat
  deriving DecidableEq, Repr

abbrev Application := Nat

/-- A window handle. The manager makes one handle for each surface, so the handle also
stands for the surface; `application` is the session that owns it. -/
structure Window where
  application : Application
  surface : Nat
  deriving DecidableEq, Repr

/-- A `std::weak_ptr<scene::Surface>`, which may be null, or name a dead surface. -/
abbrev WeakSurface := Option Window

structure WindowSpecification where
  topLeft : Option Point := none
  size : Option Size := none
  name : Option String := none
  outputId : Option Int := none
  type : Option WindowType := none
  state : Option WindowState := none
  preferredOrientation : Option OrientationMode := none
  auxRect : Option Rectangle := none
  placementHints : Option PlacementHints := none
  windowPlacementGravity : Option PlacementGravity := none
  auxRectPlacementGravity : Option PlacementGravity := none
  auxRectPlacementOffset : Option Displacement := none
  minWidth : Option Int := none
  minHeight : Option Int := none
  maxWidth : Option Int := none
  maxHeight : Option Int := none
  widthInc : Option Int := none
  heightInc : Option Int := none
  minAspect : Option AspectRatio := none
  maxAspect : Option AspectRatio := none
  parent : Option WeakSurface := none
  inputShape : Option (List Rectangle) := none
  shellChrome : Option ShellChrome := none
  confinePointer : Option PointerConfinementState := none
  userdata : Option Nat := none
  deriving DecidableEq

/-- `shell::SurfaceSpecification`: a client's request to change a surface. -/
structure SurfaceSpecification where
  name : Option String := none
  width : Option Int := none
  height : Option Int := none
  outputId : Option Int := none
  type : Option WindowType := none
  state : Option WindowState := none
  preferredOrientation : Option OrientationMode := none
  auxRect : Option Rectangle := none
  edgeAttachment : Option EdgeAttachment := none
  placementHints : Option PlacementHints := none
  surfacePlacementGravity : Option PlacementGravity := none
  auxRectPlacementGravity : Option PlacementGravity := none
  auxRectPlacementOffsetX : Option Int := none
  auxRectPlacementOffsetY : Option Int := none
  minWidth : Option Int := none
  minHeight : Option Int := none
  maxWidth : Option Int := none
  maxHeight : Option Int := none
  widthInc : Option Int := none
  heightInc : Option Int := none
  minAspect : Option AspectRatio := none
  maxAspect : Option AspectRatio := none
  parent : Option WeakSurface := none
  inputShape : Option (List Rectangle) := none
  shellChrome : Option ShellChrome := none
  confinePointer : Option PointerConfinementState := none

/-- `scene::SurfaceCreationParameters`: a client's request for a new surface. -/
structure SurfaceCreationParameters where
  name : String := ""
  size : Size
  topLeft : Point := ⟨0, 0⟩
  outputId : Int := 0
  type : Option WindowType := none
  state : Option WindowState := none
  preferredOrientation : Option OrientationMode := none
  auxRect : Option Rectangle := none
  edgeAttachment : Option EdgeAttachment := none
  placementHints : Option PlacementHints := none
  surfacePlacementGravity : Option PlacementGravity := none
  auxRectPlacementGravity : Option PlacementGravity := none
  auxRectPlacementOffsetX : Option Int := none
  auxRectPlacementOffsetY : Option Int := none
  minWidth : Option Int := none
  minHeight : Option Int := none
  maxWidth : Option Int := none
  maxHeight : Option Int := none
  widthInc : Option Int := none
  heightInc : Option Int := none
  minAspect : Option AspectRatio := none
  maxAspect : Option AspectRatio := none
  parent : WeakSurface := none
  inputShape : Option (List Rectangle) := none
  shellChrome : Option ShellChrome := none
  confinePointer : Option PointerConfinementState := none

namespace WindowSpecification

/-- Both halves of a pair of optional coordinates, or nothing. -/
def both {α : Type} (make : Int → Int → α) : Option Int → Option Int → Option α
  | some a, some b => some (make a b)
  | _, _ => none

/-- `WindowSpecification::Self::Self(SurfaceSpecification const&)`. -/
def ofSurfaceSpecification (spec : SurfaceSpecification) : WindowSpecification :=
  let base : WindowSpecification :=
    { name := spec.name, type := spec.type, state := spec.state
      preferredOrientation := spec.preferredOrientation
      auxRect := spec.auxRect
      placementHints := spec.placementHints
      windowPlacementGravity := spec.surfacePlacementGravity
      auxRectPlacementGravity := spec.auxRectPlacementGravity
      auxRectPlacementOffset :=
        both Displacement.mk spec.auxRectPlacementOffsetX spec.auxRectPlacementOffsetY
      size := both Size.mk spec.width spec.height
      outputId := spec.outputId
      minWidth := spec.minWidth, minHeight := spec.minHeight
      maxWidth := spec.maxWidth, maxHeight := spec.maxHeight
      widthInc := spec.widthInc, heightInc := spec.heightInc
      minAspect := spec.minAspect, maxAspect := spec.maxAspect
      parent := spec.parent, inputShape := spec.inputShape
      shellChrome := spec.shellChrome, confinePointer := spec.confinePointer }
  match spec.edgeAttachment, spec.placementHints with
  | some .vertical, none =>
    { base with
      windowPlacementGravity := some .northwest, auxRectPlacementGravity := some .northeast
      placementHints := some .onlyFlipX }
  | some .horizontal, none =>
    { base with
      windowPlacementGravity := some .northwest, auxRectPlacementGravity := some .southwest
      placementHints := some .onlyFlipY }
  | some .any, none =>
    { base with
      windowPlacementGravity := some .northwest, auxRectPlacementGravity := some .northeast
      placementHints := some { PlacementHints.flipAny with antipodes := true } }
  | _, _ => base

theorem ofSurfaceSpecification_parent (spec : SurfaceSpecification) :
    (ofSurfaceSpecification spec).parent = spec.parent := by
  unfold ofSurfaceSpecification
  dsimp only
  split <;> rfl

/-- `WindowSpecification::Self::Self(SurfaceCreationParameters const&)`. Unlike the other
constructor, `any` does not ask for antipodes here. -/
def ofCreationParameters (params : SurfaceCreationParameters) : WindowSpecification :=
  let base : WindowSpecification :=
    { topLeft := some params.topLeft, size := some params.size, name := some params.name
      outputId := some params.outputId
      type := params.type, state := params.state
      preferredOrientation := params.preferredOrientation
      auxRect := params.auxRect
      placementHints := params.placementHints
      windowPlacementGravity := params.surfacePlacementGravity
      auxRectPlacementGravity := params.auxRectPlacementGravity
      auxRectPlacementOffset :=
        both Displacement.mk params.auxRectPlacementOffsetX params.auxRectPlacementOffsetY
      minWidth := params.minWidth, minHeight := params.minHeight
      maxWidth := params.maxWidth, maxHeight := params.maxHeight
      widthInc := params.widthInc, heightInc := params.heightInc
      minAspect := params.minAspect, maxAspect := params.maxAspect
      parent := some params.parent, inputShape := params.inputShape
      shellChrome := params.shellChrome, confinePointer := params.confinePointer }
  match params.edgeAttachment, params.placementHints with
  | some .vertical, none =>
    { base with
      windowPlacementGravity := some .northwest, auxRectPlacementGravity := some .northeast
      placementHints := some .onlyFlipX }
  | some .horizontal, none =>
    { base with
      windowPlacementGravity := some .northwest, auxRectPlacementGravity := some .southwest
      placementHints := some .onlyFlipY }
  | some .any, none =>
    { base with
      windowPlacementGravity := some .northwest, auxRectPlacementGravity := some .northeast
      placementHints := some .flipAny }
  | _, _ => base

theorem ofCreationParameters_fields (params : SurfaceCreationParameters) :
    (ofCreationParameters params).size = some params.size ∧
    (ofCreationParameters params).topLeft = some params.topLeft ∧
    (ofCreationParameters params).outputId = some params.outputId ∧
    (ofCreationParameters params).parent = some params.parent ∧
    (ofCreationParameters params).auxRect = params.auxRect := by
  unfold ofCreationParameters
  dsimp only
  split <;> exact ⟨rfl, rfl, rfl, rfl, rfl⟩

end WindowSpecification

end Miral
