import Mathlib.Data.Int.Notation

/-! The part of `mir::geometry` that window management computes with. Coordinates
are unbounded integers; halves and sixths round toward zero, as the conversion of a
scaled coordinate back to `int` does. -/
namespace Miral

structure Displacement where
  dx : Int
  dy : Int
  deriving DecidableEq, Repr

structure Point where
  x : Int
  y : Int
  deriving DecidableEq, Repr

structure Size where
  width : Int
  height : Int
  deriving DecidableEq, Repr

structure Rectangle where
  topLeft : Point
  size : Size
  deriving DecidableEq, Repr

instance : Inhabited Point := ⟨⟨0, 0⟩⟩
instance : Inhabited Size := ⟨⟨0, 0⟩⟩
instance : Inhabited Rectangle := ⟨⟨default, default⟩⟩
instance : Inhabited Displacement := ⟨⟨0, 0⟩⟩

instance : HAdd Point Displacement Point := ⟨fun p d => ⟨p.x + d.dx, p.y + d.dy⟩⟩
instance : HSub Point Point Displacement := ⟨fun p q => ⟨p.x - q.x, p.y - q.y⟩⟩
instance : HAdd Displacement Displacement Displacement := ⟨fun a b => ⟨a.dx + b.dx, a.dy + b.dy⟩⟩
instance : HSub Displacement Displacement Displacement := ⟨fun a b => ⟨a.dx - b.dx, a.dy - b.dy⟩⟩

@[simp] theorem Point.add_x (p : Point) (d : Displacement) : (p + d).x = p.x + d.dx := rfl
@[simp] theorem Point.add_y (p : Point) (d : Displacement) : (p + d).y = p.y + d.dy := rfl
@[simp] theorem Point.sub_dx (p q : Point) : (p - q).dx = p.x - q.x := rfl
@[simp] theorem Point.sub_dy (p q : Point) : (p - q).dy = p.y - q.y := rfl
@[simp] theorem Displacement.add_dx (a b : Displacement) : (a + b).dx = a.dx + b.dx := rfl
@[simp] theorem Displacement.add_dy (a b : Displacement) : (a + b).dy = a.dy + b.dy := rfl

theorem Point.ext {p q : Point} (hx : p.x = q.x) (hy : p.y = q.y) : p = q := by
  cases p; cases q; simp_all

theorem Displacement.ext {a b : Displacement} (hx : a.dx = b.dx) (hy : a.dy = b.dy) : a = b := by
  cases a; cases b; simp_all

theorem Point.add_sub_self (p q : Point) : q + (p - q) = p := by
  apply Point.ext
  · rw [Point.add_x, Point.sub_dx]
    omega
  · rw [Point.add_y, Point.sub_dy]
    omega

theorem Point.add_sub_cancel (p : Point) (d : Displacement) : p + d - p = d := by
  apply Displacement.ext
  · rw [Point.sub_dx, Point.add_x]
    omega
  · rw [Point.sub_dy, Point.add_y]
    omega

theorem Displacement.zero_add (d : Displacement) : Displacement.mk 0 0 + d = d :=
  Displacement.ext (Int.zero_add d.dx) (Int.zero_add d.dy)

theorem Point.sub_add_sub (p q r : Point) : (q - p) + (r - q) = r - p := by
  apply Displacement.ext
  · rw [Displacement.add_dx, Point.sub_dx, Point.sub_dx, Point.sub_dx]
    omega
  · rw [Displacement.add_dy, Point.sub_dy, Point.sub_dy, Point.sub_dy]
    omega

theorem Point.sub_eq_zero {p q : Point} : p - q = Displacement.mk 0 0 ↔ p = q := by
  constructor
  · intro still
    rw [← Point.add_sub_self p q, still]
    exact Point.ext (by simp) (by simp)
  · rintro rfl
    exact Displacement.ext (Int.sub_self p.x) (Int.sub_self p.y)

def asDisplacement (size : Size) : Displacement := ⟨size.width, size.height⟩

/-- `0.5 * value`, truncated. -/
def half (value : Int) : Int := value.tdiv 2

/-- `0.5 * displacement`. -/
def Displacement.half (d : Displacement) : Displacement := ⟨Miral.half d.dx, Miral.half d.dy⟩

namespace Rectangle

def left (r : Rectangle) : Int := r.topLeft.x
def top (r : Rectangle) : Int := r.topLeft.y
def right (r : Rectangle) : Int := r.topLeft.x + r.size.width
def bottom (r : Rectangle) : Int := r.topLeft.y + r.size.height

def bottomRight (r : Rectangle) : Point := ⟨r.right, r.bottom⟩
def topRight (r : Rectangle) : Point := ⟨r.right, r.top⟩
def bottomLeft (r : Rectangle) : Point := ⟨r.left, r.bottom⟩

/-- `Rectangle::contains(Rectangle)`. -/
def contains (r inner : Rectangle) : Bool :=
  r.left ≤ inner.left && inner.right ≤ r.right && r.top ≤ inner.top && inner.bottom ≤ r.bottom

/-- `Rectangle::contains(Point)`: an empty rectangle contains no point. -/
def containsPoint (r : Rectangle) (p : Point) : Bool :=
  if r.size.width = 0 ∨ r.size.height = 0 then false
  else r.left ≤ p.x && p.x < r.right && r.top ≤ p.y && p.y < r.bottom

def overlaps (r other : Rectangle) : Bool :=
  !(other.left ≥ r.right || other.right ≤ r.left || other.top ≥ r.bottom || other.bottom ≤ r.top ||
    r.size.width == 0 || r.size.height == 0 || other.size.width == 0 || other.size.height == 0)

def intersectionWith (r other : Rectangle) : Rectangle :=
  let maxLeft := max r.left other.left
  let minRight := min r.right other.right
  let maxTop := max r.top other.top
  let minBottom := min r.bottom other.bottom
  if maxLeft < minRight ∧ maxTop < minBottom then
    ⟨⟨maxLeft, maxTop⟩, ⟨minRight - maxLeft, minBottom - maxTop⟩⟩
  else default

def hull (r other : Rectangle) : Rectangle :=
  let topLeft : Point := ⟨min r.left other.left, min r.top other.top⟩
  ⟨topLeft, ⟨max r.right other.right - topLeft.x, max r.bottom other.bottom - topLeft.y⟩⟩

end Rectangle

/-- `Rectangles::bounding_rectangle`. -/
def boundingRectangle : List Rectangle → Rectangle
  | [] => default
  | r :: rest => rest.foldl Rectangle.hull r

end Miral
