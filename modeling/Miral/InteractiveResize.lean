import Miral.TitlebarPolicy
import Miral.TilingPolicy
import Miral.RoundTrip
import Mathlib.Algebra.Order.Ring.Int
import Mathlib.Tactic.Ring

/-! Resizing by the pointer under `TitlebarWindowManagerPolicy`: the corner farthest from the
cursor is the anchor, the size follows the cursor within the limits of the window, and a movement
that a limit stops is left out of the new position. -/
namespace Miral

open Program Prog Model

/-- `length_squared`. -/
def Displacement.lengthSquared (d : Displacement) : Int := d.dx * d.dx + d.dy * d.dy

/-- The members of `TitlebarWindowManagerPolicy` that outlive a step of a resize. -/
structure Grip where
  resizing : Bool
  leftResize : Bool
  topResize : Bool
  deriving DecidableEq

namespace Grip

variable (self : Grip)

/-- The body of the loop over the corners. -/
def farther (oldCursor anchor corner : Point) : Point :=
  if (oldCursor - anchor).lengthSquared < (oldCursor - corner).lengthSquared then corner
  else anchor

def anchor (oldPos : Rectangle) (oldCursor : Point) : Point :=
  [oldPos.topRight, oldPos.bottomLeft, oldPos.topLeft].foldl (farther oldCursor)
    oldPos.bottomRight

/-- What a resize that has not begun yet takes hold of. -/
def take (oldPos : Rectangle) (oldCursor : Point) : Grip :=
  if self.resizing then self
  else { self with
    leftResize := (anchor oldPos oldCursor).x ≠ oldPos.topLeft.x
    topResize := (anchor oldPos oldCursor).y ≠ oldPos.topLeft.y }

/-- The corner opposite to the one that is dragged. -/
def opposite (r : Rectangle) : Point :=
  ⟨if self.leftResize then r.right else r.left, if self.topResize then r.bottom else r.top⟩

def squaredGap (a b : Int) : Int := (a - b) * (a - b)

variable {self} {oldPos : Rectangle} {oldCursor : Point}

theorem lengthSquared_sub {p : Point} {x y : Int} :
    (p - Point.mk x y).lengthSquared = squaredGap p.x x + squaredGap p.y y := rfl

theorem farther_of_lt {x y x' y' : Int}
    (lt : squaredGap oldCursor.x x + squaredGap oldCursor.y y <
      squaredGap oldCursor.x x' + squaredGap oldCursor.y y') :
    farther oldCursor ⟨x, y⟩ ⟨x', y'⟩ = ⟨x', y'⟩ := if_pos lt

theorem farther_of_le {x y x' y' : Int}
    (le : squaredGap oldCursor.x x' + squaredGap oldCursor.y y' ≤
      squaredGap oldCursor.x x + squaredGap oldCursor.y y) :
    farther oldCursor ⟨x, y⟩ ⟨x', y'⟩ = ⟨x, y⟩ := if_neg (Int.not_lt.mpr le)

theorem farther_cases (oldCursor anchor corner : Point) :
    farther oldCursor anchor corner = corner ∨ farther oldCursor anchor corner = anchor :=
  ite_eq_or_eq _ _ _

/-- The scan finds the farther side of each axis, and stays with the right and the bottom one
where both are as far. -/
theorem anchor_eq (oldPos : Rectangle) (oldCursor : Point) :
    anchor oldPos oldCursor =
      ⟨if squaredGap oldCursor.x oldPos.right < squaredGap oldCursor.x oldPos.left
        then oldPos.left else oldPos.right,
        if squaredGap oldCursor.y oldPos.bottom < squaredGap oldCursor.y oldPos.top
        then oldPos.top else oldPos.bottom⟩ := by
  have scan : anchor oldPos oldCursor =
      farther oldCursor (farther oldCursor (farther oldCursor ⟨oldPos.right, oldPos.bottom⟩
        ⟨oldPos.right, oldPos.top⟩) ⟨oldPos.left, oldPos.bottom⟩) ⟨oldPos.left, oldPos.top⟩ := rfl
  rw [scan]
  by_cases higher : squaredGap oldCursor.y oldPos.bottom < squaredGap oldCursor.y oldPos.top
  · have first : farther oldCursor ⟨oldPos.right, oldPos.bottom⟩ ⟨oldPos.right, oldPos.top⟩ =
        ⟨oldPos.right, oldPos.top⟩ := farther_of_lt (by omega)
    rw [if_pos higher, first]
    by_cases lefter : squaredGap oldCursor.x oldPos.right < squaredGap oldCursor.x oldPos.left
    · rw [if_pos lefter]
      rcases farther_cases oldCursor ⟨oldPos.right, oldPos.top⟩ ⟨oldPos.left, oldPos.bottom⟩ with
        second | second
      · rw [second, farther_of_lt (by omega)]
      · rw [second, farther_of_lt (by omega)]
    · have second : farther oldCursor ⟨oldPos.right, oldPos.top⟩ ⟨oldPos.left, oldPos.bottom⟩ =
          ⟨oldPos.right, oldPos.top⟩ := farther_of_le (by omega)
      rw [if_neg lefter, second, farther_of_le (by omega)]
  · have first : farther oldCursor ⟨oldPos.right, oldPos.bottom⟩ ⟨oldPos.right, oldPos.top⟩ =
        ⟨oldPos.right, oldPos.bottom⟩ := farther_of_le (by omega)
    rw [if_neg higher, first]
    by_cases lefter : squaredGap oldCursor.x oldPos.right < squaredGap oldCursor.x oldPos.left
    · have second : farther oldCursor ⟨oldPos.right, oldPos.bottom⟩ ⟨oldPos.left, oldPos.bottom⟩ =
          ⟨oldPos.left, oldPos.bottom⟩ := farther_of_lt (by omega)
      rw [if_pos lefter, second, farther_of_le (by omega)]
    · have second : farther oldCursor ⟨oldPos.right, oldPos.bottom⟩ ⟨oldPos.left, oldPos.bottom⟩ =
          ⟨oldPos.right, oldPos.bottom⟩ := farther_of_le (by omega)
      rw [if_neg lefter, second, farther_of_le (by omega)]

theorem far_end_ne {low length point : Int} (pos : 0 < length) :
    (if squaredGap point (low + length) < squaredGap point low
      then low else low + length) ≠ low ↔ 2 * (point - low) ≤ length := by
  have gap : squaredGap point low - squaredGap point (low + length) =
      length * (2 * (point - low) - length) := by
    unfold squaredGap
    ring
  have beyond : squaredGap point (low + length) < squaredGap point low ↔
      length < 2 * (point - low) := by
    rw [← sub_pos, gap, mul_pos_iff_of_pos_left pos, sub_pos]
  by_cases upper : length < 2 * (point - low)
  · rw [if_pos (beyond.mpr upper)]
    omega
  · rw [if_neg (mt beyond.mp upper)]
    omega

theorem anchor_farthest {x y : Int} (side : x = oldPos.left ∨ x = oldPos.right)
    (edge : y = oldPos.top ∨ y = oldPos.bottom) :
    (oldCursor - Point.mk x y).lengthSquared ≤
      (oldCursor - anchor oldPos oldCursor).lengthSquared := by
  rw [anchor_eq, lengthSquared_sub, lengthSquared_sub]
  apply Int.add_le_add
  · rcases side with rfl | rfl
    all_goals split
    all_goals omega
  · rcases edge with rfl | rfl
    all_goals split
    all_goals omega

theorem anchor_left (positive : oldPos.size.Positive) :
    (anchor oldPos oldCursor).x ≠ oldPos.left ↔
      2 * (oldCursor.x - oldPos.left) ≤ oldPos.size.width := by
  rw [anchor_eq]
  exact far_end_ne positive.wide

theorem anchor_top (positive : oldPos.size.Positive) :
    (anchor oldPos oldCursor).y ≠ oldPos.top ↔
      2 * (oldCursor.y - oldPos.top) ≤ oldPos.size.height := by
  rw [anchor_eq]
  exact far_end_ne positive.tall

theorem opposite_take (begins : self.resizing = false) :
    (self.take oldPos oldCursor).opposite oldPos = anchor oldPos oldCursor := by
  have taken : self.take oldPos oldCursor = { self with
      leftResize := (anchor oldPos oldCursor).x ≠ oldPos.left
      topResize := (anchor oldPos oldCursor).y ≠ oldPos.top } := by
    rw [take, begins, if_neg Bool.false_ne_true]
    rfl
  rw [taken, anchor_eq]
  apply Point.ext
  · simp only [opposite, decide_eq_true_eq]
    split <;> split <;> simp_all
  · simp only [opposite, decide_eq_true_eq]
    split <;> split <;> simp_all

/-- The side that is dragged is the one taken hold of before, or the one on whose half of the
window the cursor was. -/
def DragsLeft (self : Grip) (oldPos : Rectangle) (oldCursor : Point) : Prop :=
  if self.resizing then self.leftResize = true
  else 2 * (oldCursor.x - oldPos.left) ≤ oldPos.size.width

def DragsTop (self : Grip) (oldPos : Rectangle) (oldCursor : Point) : Prop :=
  if self.resizing then self.topResize = true
  else 2 * (oldCursor.y - oldPos.top) ≤ oldPos.size.height

theorem take_left (positive : oldPos.size.Positive) :
    (self.take oldPos oldCursor).leftResize ↔ self.DragsLeft oldPos oldCursor := by
  unfold take DragsLeft
  split
  · rfl
  · exact decide_eq_true_iff.trans (anchor_left positive)

theorem take_top (positive : oldPos.size.Positive) :
    (self.take oldPos oldCursor).topResize ↔ self.DragsTop oldPos oldCursor := by
  unfold take DragsTop
  split
  · rfl
  · exact decide_eq_true_iff.trans (anchor_top positive)

end Grip

/-- The size of a window along one axis, and how far the cursor has moved along it. -/
structure Stretch where
  size : Int
  delta : Int
  deriving DecidableEq

namespace Stretch

def atLeast (least : Int) (stretch : Stretch) : Stretch :=
  if stretch.size < least then ⟨least, if stretch.delta > 0 then 0 else stretch.delta⟩
  else stretch

def atMost (most : Int) (stretch : Stretch) : Stretch :=
  if stretch.size > most then ⟨most, if stretch.delta < 0 then 0 else stretch.delta⟩
  else stretch

/-- `keep_size_within_limits`, along one axis. -/
def within (least most : Int) (stretch : Stretch) : Stretch :=
  (stretch.atLeast (max least 5)).atMost most

variable {stretch : Stretch} {least most length delta : Int}

theorem within_of_lt (widest : 5 ≤ most) (order : least ≤ most)
    (short : stretch.size < max least 5) :
    stretch.within least most = ⟨max least 5, if stretch.delta > 0 then 0 else stretch.delta⟩ := by
  have raised : stretch.atLeast (max least 5) =
      ⟨max least 5, if stretch.delta > 0 then 0 else stretch.delta⟩ := if_pos short
  rw [within, raised]
  exact if_neg (by dsimp only; omega)

theorem within_of_gt (widest : 5 ≤ most) (order : least ≤ most) (long : most < stretch.size) :
    stretch.within least most = ⟨most, if stretch.delta < 0 then 0 else stretch.delta⟩ := by
  have kept : stretch.atLeast (max least 5) = stretch := if_neg (by omega)
  rw [within, kept]
  exact if_pos long

theorem within_of_fits (fits : max least 5 ≤ stretch.size ∧ stretch.size ≤ most) :
    stretch.within least most = stretch := by
  have kept : stretch.atLeast (max least 5) = stretch := if_neg (by omega)
  rw [within, kept]
  exact if_neg (by omega)

theorem size_within (stretch : Stretch) (widest : 5 ≤ most) (order : least ≤ most) :
    max least 5 ≤ (stretch.within least most).size ∧ (stretch.within least most).size ≤ most := by
  by_cases short : stretch.size < max least 5
  · rw [within_of_lt widest order short]
    dsimp only
    omega
  · by_cases long : most < stretch.size
    · rw [within_of_gt widest order long]
      dsimp only
      omega
    · rw [within_of_fits (by omega)]
      omega

/-- The length asked for by dragging the lower end is within the limits, or the limit it
overshoots is the length there was. -/
def Free (least most length delta : Int) : Prop :=
  max least 5 ≤ length - delta ∧ length - delta ≤ most ∨
    length - delta < max least 5 ∧ length = max least 5 ∨
    most < length - delta ∧ length = most

instance : Decidable (Free least most length delta) := inferInstanceAs (Decidable (_ ∨ _))

theorem delta_within (widest : 5 ≤ most) (order : least ≤ most) (fits : length ≤ most) :
    (within least most ⟨length - delta, delta⟩).delta +
        (within least most ⟨length - delta, delta⟩).size = length ↔
      Free least most length delta := by
  unfold Free
  by_cases short : length - delta < max least 5
  · rw [within_of_lt widest order short]
    dsimp only
    split
    · omega
    · omega
  · by_cases long : most < length - delta
    · rw [within_of_gt widest order long, if_pos (by dsimp only; omega)]
      dsimp only
      omega
    · rw [within_of_fits (by dsimp only; omega)]
      dsimp only
      omega

end Stretch

namespace TitlebarPolicy

/-- `keep_size_within_limits`. -/
def keepSizeWithinLimits (windowInfo : WindowInfo) (width height : Stretch) : Stretch × Stretch :=
  (width.within windowInfo.minWidth windowInfo.maxWidth,
    height.within windowInfo.minHeight windowInfo.maxHeight)

/-- The rectangle `resize` asks for. -/
def resized (grip : Grip) (windowInfo : WindowInfo) (oldPos : Rectangle)
    (cursor oldCursor : Point) : Rectangle :=
  let xSign : Int := if grip.leftResize then -1 else 1
  let ySign : Int := if grip.topResize then -1 else 1
  let delta := cursor - oldCursor
  let newWidth := oldPos.size.width + xSign * delta.dx
  let newHeight := oldPos.size.height + ySign * delta.dy
  let (width, height) := keepSizeWithinLimits windowInfo ⟨newWidth, delta.dx⟩ ⟨newHeight, delta.dy⟩
  let newPos := oldPos.topLeft + Displacement.mk (grip.leftResize.toInt * width.delta)
    (grip.topResize.toInt * height.delta)
  ⟨newPos, ⟨width.size, height.size⟩⟩

/-- What `resize` takes hold of and asks for. -/
def resizeStep (self : Grip) (windowInfo : WindowInfo) (oldPos : Rectangle)
    (cursor oldCursor : Point) : Grip × Rectangle :=
  let grip := self.take oldPos oldCursor
  (grip, resized grip windowInfo oldPos cursor oldCursor)

/-- `resize`; beside its result it returns what the policy keeps hold of. -/
def resize (fuel : Nat) (self : Grip) (window : Option Window) (cursor oldCursor : Point) :
    TitlebarPolicy (Grip × Bool) := do
  let s ← Prog.state
  match s.manager.lock window with
  | none => pure (self, false)
  | some window => do
    let windowInfo ← managing (infoFor window)
    let (grip, rect) := resizeStep self windowInfo (s.manager.rect window) cursor oldCursor
    modifyWindow fuel window { topLeft := some rect.topLeft, size := some rect.size }
    pure (grip, true)

section Corner

variable {grip self : Grip} {windowInfo : WindowInfo} {oldPos : Rectangle}
  {cursor oldCursor : Point} {s : Shell} {w : Window}

structure Limits (windowInfo : WindowInfo) (size : Size) : Prop where
  wide : windowInfo.minWidth ≤ size.width
  narrow : size.width ≤ windowInfo.maxWidth
  tall : windowInfo.minHeight ≤ size.height
  low : size.height ≤ windowInfo.maxHeight

/-- The limits leave some size, and not too small a one. -/
structure Usable (windowInfo : WindowInfo) : Prop where
  widest : 5 ≤ windowInfo.maxWidth
  tallest : 5 ≤ windowInfo.maxHeight
  widths : windowInfo.minWidth ≤ windowInfo.maxWidth
  heights : windowInfo.minHeight ≤ windowInfo.maxHeight

theorem limits_resized (usable : Usable windowInfo) :
    Limits windowInfo (resized grip windowInfo oldPos cursor oldCursor).size := by
  have width (stretch : Stretch) := Stretch.size_within stretch usable.widest usable.widths
  have height (stretch : Stretch) := Stretch.size_within stretch usable.tallest usable.heights
  constructor
  · exact (Int.le_max_left _ _).trans (width _).1
  · exact (width _).2
  · exact (Int.le_max_left _ _).trans (height _).1
  · exact (height _).2

theorem left_resized (keeps : grip.leftResize = false) :
    (resized grip windowInfo oldPos cursor oldCursor).left = oldPos.left := by
  simp [resized, keeps, Rectangle.left]

theorem top_resized (keeps : grip.topResize = false) :
    (resized grip windowInfo oldPos cursor oldCursor).top = oldPos.top := by
  simp [resized, keeps, Rectangle.top]

theorem right_resized (drags : grip.leftResize = true) :
    (resized grip windowInfo oldPos cursor oldCursor).right = oldPos.left +
      ((Stretch.within windowInfo.minWidth windowInfo.maxWidth
          ⟨oldPos.size.width - (cursor.x - oldCursor.x), cursor.x - oldCursor.x⟩).delta +
        (Stretch.within windowInfo.minWidth windowInfo.maxWidth
          ⟨oldPos.size.width - (cursor.x - oldCursor.x), cursor.x - oldCursor.x⟩).size) := by
  have asked : oldPos.size.width + -1 * (cursor.x - oldCursor.x) =
      oldPos.size.width - (cursor.x - oldCursor.x) := by omega
  simp only [resized, drags, if_true, keepSizeWithinLimits, Rectangle.right, Rectangle.left,
    Point.add_x, Point.sub_dx, asked, Bool.toInt_true, Int.one_mul, Int.add_assoc]

theorem bottom_resized (drags : grip.topResize = true) :
    (resized grip windowInfo oldPos cursor oldCursor).bottom = oldPos.top +
      ((Stretch.within windowInfo.minHeight windowInfo.maxHeight
          ⟨oldPos.size.height - (cursor.y - oldCursor.y), cursor.y - oldCursor.y⟩).delta +
        (Stretch.within windowInfo.minHeight windowInfo.maxHeight
          ⟨oldPos.size.height - (cursor.y - oldCursor.y), cursor.y - oldCursor.y⟩).size) := by
  have asked : oldPos.size.height + -1 * (cursor.y - oldCursor.y) =
      oldPos.size.height - (cursor.y - oldCursor.y) := by omega
  simp only [resized, drags, if_true, keepSizeWithinLimits, Rectangle.bottom, Rectangle.top,
    Point.add_y, Point.sub_dy, asked, Bool.toInt_true, Int.one_mul, Int.add_assoc]

/-- The opposite corner stays where the sides that are dragged are free to be. -/
theorem opposite_resized (usable : Usable windowInfo) (fits : Limits windowInfo oldPos.size) :
    grip.opposite (resized grip windowInfo oldPos cursor oldCursor) = grip.opposite oldPos ↔
      (grip.leftResize → Stretch.Free windowInfo.minWidth windowInfo.maxWidth oldPos.size.width
        (cursor.x - oldCursor.x)) ∧
      (grip.topResize → Stretch.Free windowInfo.minHeight windowInfo.maxHeight oldPos.size.height
        (cursor.y - oldCursor.y)) := by
  simp only [Grip.opposite, Point.mk.injEq]
  apply and_congr
  · cases drags : grip.leftResize with
    | false => simp [left_resized drags]
    | true =>
      rw [← Stretch.delta_within usable.widest usable.widths fits.narrow, if_pos rfl, if_pos rfl,
        right_resized drags, Rectangle.right, Rectangle.left, Int.add_right_inj]
      exact ⟨fun kept _ => kept, fun kept => kept rfl⟩
  · cases drags : grip.topResize with
    | false => simp [top_resized drags]
    | true =>
      rw [← Stretch.delta_within usable.tallest usable.heights fits.low, if_pos rfl, if_pos rfl,
        bottom_resized drags, Rectangle.bottom, Rectangle.top, Int.add_right_inj]
      exact ⟨fun kept _ => kept, fun kept => kept rfl⟩

def carryOut (fuel : Nat) (w : Window) (step : Grip × Rectangle) :
    TitlebarPolicy (Grip × Bool) := do
  modifyWindow fuel w { topLeft := some step.2.topLeft, size := some step.2.size }
  pure (step.1, true)

theorem run_resize (fuel : Nat) (live : s.manager.Live w)
    (here : s.manager.info? w = some windowInfo) :
    resize fuel self (some w) cursor oldCursor s =
      carryOut fuel w (resizeStep self windowInfo (s.manager.rect w) cursor oldCursor) s := by
  have found : managing (infoFor w) s = .returned windowInfo s := by
    simp only [managing, Prog.zoom, infoFor, bind_run, Prog.state, here, pure_run, Shell.setManager]
  simp only [resize, bind_run, Prog.state, lock_some live, found, carryOut]

/-- A step asks for a size within the limits, and leaves the corner opposite to the one that is
dragged where it was. -/
structure PinsCorner (windowInfo : WindowInfo) (oldPos : Rectangle) (step : Grip × Rectangle) :
    Prop where
  limits : Limits windowInfo step.2.size
  pinned : step.1.opposite step.2 = step.1.opposite oldPos

variable (self cursor oldCursor) in
/-- A step of a resize holds on to a corner farthest from where the cursor was, or to the one it
held on to before. It asks for a size within the limits and keeps that corner exactly where each
side that is dragged is free to be. -/
theorem resize_pins_corner_iff (positive : oldPos.size.Positive) (usable : Usable windowInfo)
    (fits : Limits windowInfo oldPos.size) :
    (∀ fuel s w, s.manager.Live w → s.manager.info? w = some windowInfo →
      s.manager.rect w = oldPos → resize fuel self (some w) cursor oldCursor s =
        carryOut fuel w (resizeStep self windowInfo oldPos cursor oldCursor) s) ∧
    (self.resizing = true → (resizeStep self windowInfo oldPos cursor oldCursor).1 = self) ∧
    (self.resizing = false → ∀ x y, x = oldPos.left ∨ x = oldPos.right →
      y = oldPos.top ∨ y = oldPos.bottom → (oldCursor - Point.mk x y).lengthSquared ≤
        (oldCursor - (resizeStep self windowInfo oldPos cursor oldCursor).1.opposite
          oldPos).lengthSquared) ∧
    (PinsCorner windowInfo oldPos (resizeStep self windowInfo oldPos cursor oldCursor) ↔
      (self.DragsLeft oldPos oldCursor → Stretch.Free windowInfo.minWidth windowInfo.maxWidth
        oldPos.size.width (cursor.x - oldCursor.x)) ∧
      (self.DragsTop oldPos oldCursor → Stretch.Free windowInfo.minHeight windowInfo.maxHeight
        oldPos.size.height (cursor.y - oldCursor.y))) := by
  refine ⟨?_, fun held => if_pos held, ?_, ?_⟩
  · intro fuel s w live here there
    rw [run_resize fuel live here, there]
  · intro begins x y side edge
    rw [resizeStep, Grip.opposite_take begins]
    exact Grip.anchor_farthest side edge
  · rw [← Grip.take_left positive, ← Grip.take_top positive, ← opposite_resized usable fits]
    constructor
    · exact PinsCorner.pinned
    · intro pinned
      exact ⟨limits_resized usable, pinned⟩

theorem limits_singleState : ∃ windowInfo, singleState.info? ⟨1, 1⟩ = some windowInfo ∧
    windowInfo.minWidth = 0 ∧ windowInfo.minHeight = 0 ∧ windowInfo.maxWidth = intMax ∧
    windowInfo.maxHeight = intMax := by
  have limits : (singleState.info? ⟨1, 1⟩).map (fun info =>
      (info.minWidth, info.minHeight, info.maxWidth, info.maxHeight)) =
        some (0, 0, intMax, intMax) := by decide +kernel
  obtain ⟨windowInfo, here, values⟩ := Option.map_eq_some_iff.mp limits
  simp only [Prod.mk.injEq] at values
  exact ⟨windowInfo, here, values⟩

/-- The top left corner of a window of 100x80 is dragged 60 to the right; then one of a window that
has got as small, or as large, as it can be is dragged further. -/
theorem resize_pins_corner_within : ∃ windowInfo, singleState.info? ⟨1, 1⟩ = some windowInfo ∧
    PinsCorner windowInfo ⟨⟨270, 134⟩, ⟨100, 80⟩⟩
      (resizeStep ⟨false, false, false⟩ windowInfo ⟨⟨270, 134⟩, ⟨100, 80⟩⟩ ⟨330, 134⟩
        ⟨270, 134⟩) ∧
    PinsCorner windowInfo ⟨⟨270, 134⟩, ⟨5, 80⟩⟩
      (resizeStep ⟨false, false, false⟩ windowInfo ⟨⟨270, 134⟩, ⟨5, 80⟩⟩ ⟨280, 134⟩
        ⟨270, 134⟩) ∧
    PinsCorner { windowInfo with maxHeight := 80 } ⟨⟨270, 134⟩, ⟨100, 80⟩⟩
      (resizeStep ⟨false, false, false⟩ { windowInfo with maxHeight := 80 }
        ⟨⟨270, 134⟩, ⟨100, 80⟩⟩ ⟨260, 124⟩ ⟨270, 134⟩) := by
  obtain ⟨windowInfo, here, minWidth, minHeight, maxWidth, maxHeight⟩ := limits_singleState
  refine ⟨windowInfo, here, ?_, ?_, ?_⟩
  · refine (resize_pins_corner_iff ⟨false, false, false⟩ ⟨330, 134⟩ ⟨270, 134⟩
      ⟨by decide, by decide⟩ ⟨?_, ?_, ?_, ?_⟩ ⟨?_, ?_, ?_, ?_⟩).2.2.2.mpr
        ⟨fun _ => ?_, fun _ => ?_⟩
    all_goals simp only [minWidth, minHeight, maxWidth, maxHeight]
    all_goals decide
  · refine (resize_pins_corner_iff ⟨false, false, false⟩ ⟨280, 134⟩ ⟨270, 134⟩
      ⟨by decide, by decide⟩ ⟨?_, ?_, ?_, ?_⟩ ⟨?_, ?_, ?_, ?_⟩).2.2.2.mpr
        ⟨fun _ => ?_, fun _ => ?_⟩
    all_goals simp only [minWidth, minHeight, maxWidth, maxHeight]
    all_goals decide
  · refine (resize_pins_corner_iff ⟨false, false, false⟩ ⟨260, 124⟩ ⟨270, 134⟩
      ⟨by decide, by decide⟩ ⟨?_, ?_, ?_, ?_⟩ ⟨?_, ?_, ?_, ?_⟩).2.2.2.mpr
        ⟨fun _ => ?_, fun _ => ?_⟩
    all_goals simp only [minWidth, minHeight, maxWidth]
    all_goals decide

/-- It is dragged 100 to the right: the window keeps a width of 5, but not its right side. -/
theorem resize_pins_corner_fails : ¬∀ (self : Grip) windowInfo oldPos cursor oldCursor,
    oldPos.size.Positive → Usable windowInfo → Limits windowInfo oldPos.size →
      PinsCorner windowInfo oldPos (resizeStep self windowInfo oldPos cursor oldCursor) := by
  intro claim
  obtain ⟨windowInfo, -, minWidth, minHeight, maxWidth, maxHeight⟩ := limits_singleState
  have corner := (claim ⟨false, false, false⟩ windowInfo ⟨⟨270, 134⟩, ⟨100, 80⟩⟩ ⟨370, 134⟩
    ⟨270, 134⟩ ⟨by decide, by decide⟩ ⟨?_, ?_, ?_, ?_⟩ ⟨?_, ?_, ?_, ?_⟩).pinned
  · have moved : (resizeStep ⟨false, false, false⟩ windowInfo ⟨⟨270, 134⟩, ⟨100, 80⟩⟩
        ⟨370, 134⟩ ⟨270, 134⟩).1.opposite (resizeStep ⟨false, false, false⟩ windowInfo
          ⟨⟨270, 134⟩, ⟨100, 80⟩⟩ ⟨370, 134⟩ ⟨270, 134⟩).2 = ⟨275, 214⟩ := by
      simp only [resizeStep, resized, keepSizeWithinLimits, minWidth, minHeight, maxWidth,
        maxHeight]
      decide
    rw [moved] at corner
    have right : (275 : Int) = 370 := congrArg Point.x corner
    contradiction
  all_goals simp only [minWidth, minHeight, maxWidth, maxHeight]
  all_goals decide

end Corner

end TitlebarPolicy
end Miral
