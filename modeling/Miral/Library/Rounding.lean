import Mathlib.Algebra.Order.Ring.Int
import Mathlib.Data.Int.Order.Basic
import Mathlib.Tactic.Ring
import Mathlib.Tactic.Linarith

/-! Integer division that rounds up, and rounding to the points of a grid. -/
namespace Rounding

def ceilDiv (a b : Int) : Int := -(-a / b)

variable {a b c : Int}

theorem ceilDiv_le_iff (pos : 0 < b) : ceilDiv a b ≤ c ↔ a ≤ c * b := by
  have floor := Int.le_ediv_iff_mul_le (a := -c) (b := -a) pos
  rw [Int.neg_mul] at floor
  unfold ceilDiv
  omega

theorem ceilDiv_sub_mul (pos : 0 < b) : ceilDiv (a - c * b) b = ceilDiv a b - c := by
  have split : -(a - c * b) = -a + c * b := by omega
  rw [ceilDiv, split, Int.add_mul_ediv_right _ _ (by omega)]
  unfold ceilDiv
  omega

theorem ceilDiv_mul_sub (pos : 0 < b) : ceilDiv (c * b - a) b = c - a / b := by
  have split : -(c * b - a) = a + -c * b := by
    rw [Int.neg_mul]
    omega
  rw [ceilDiv, split, Int.add_mul_ediv_right _ _ (by omega)]
  omega

theorem tdiv_eq_ceilDiv (pos : 0 < b) (positive : 0 < a) : (a + (b - 1)).tdiv b = ceilDiv a b := by
  rw [Int.tdiv_eq_ediv_of_nonneg (by omega)]
  apply le_antisymm
  · refine Int.le_of_lt_add_one ((Int.ediv_lt_iff_lt_mul pos).mpr ?_)
    have up := (ceilDiv_le_iff (a := a) pos).mp le_rfl
    rw [Int.add_mul]
    omega
  · apply (ceilDiv_le_iff pos).mpr
    have down := Int.lt_ediv_add_one_mul_self (a + (b - 1)) pos
    rw [Int.add_mul] at down
    omega

/-- The value is `least` plus a whole number of increments. -/
def OnGrid (least inc value : Int) : Prop := least ≤ value ∧ inc ∣ value - least

instance (least inc value : Int) : Decidable (OnGrid least inc value) :=
  inferInstanceAs (Decidable (_ ∧ _))

/-- The point of the grid that is nearest to the value, the upper of two. -/
def nearest (least inc value : Int) : Int :=
  least + inc * ((2 * (value - least) + inc) / (2 * inc))

section Nearest

variable {least inc value : Int} (pos : 0 < inc)

include pos

theorem nearest_of_onGrid (on : OnGrid least inc value) : nearest least inc value = value := by
  obtain ⟨k, eq⟩ := on.2
  have half : (2 * (value - least) + inc) / (2 * inc) = k := by
    rw [eq]
    have split : 2 * (inc * k) + inc = inc + 2 * inc * k := by ring
    rw [split, Int.add_mul_ediv_left _ _ (by omega), Int.ediv_eq_zero_of_lt (by omega) (by omega),
      Int.zero_add]
  rw [nearest, half]
  omega

theorem onGrid_nearest (le : least ≤ value) : OnGrid least inc (nearest least inc value) := by
  constructor
  · have steps : 0 ≤ (2 * (value - least) + inc) / (2 * inc) :=
      Int.ediv_nonneg (by omega) (by omega)
    have := Int.mul_nonneg pos.le steps
    unfold nearest
    omega
  · exact ⟨(2 * (value - least) + inc) / (2 * inc), add_sub_cancel_left _ _⟩

end Nearest

end Rounding
