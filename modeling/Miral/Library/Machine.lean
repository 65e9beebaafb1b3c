import Mathlib.Algebra.Order.Ring.Int
import Mathlib.Data.Int.Order.Basic

/-! Two's complement: integers in a register of a number of bits, and arithmetic that wraps. -/
namespace Machine

/-- What a register holds of an integer. -/
def wrap (bits : Nat) (x : Int) : Int := x.bmod (2 ^ bits)

/-- The register has the integer as it is. -/
def Holds (bits : Nat) (x : Int) : Prop := -2 ^ bits ≤ 2 * x ∧ 2 * x < 2 ^ bits

instance (bits : Nat) (x : Int) : Decidable (Holds bits x) := inferInstanceAs (Decidable (_ ∧ _))

variable {bits : Nat} {a b x : Int}

theorem wrap_of_holds (holds : Holds bits x) : wrap bits x = x := by
  obtain ⟨least, most⟩ := holds
  exact Int.bmod_eq_of_le_mul_two (by push_cast; omega) (by push_cast; omega)

theorem holds_wrap (x : Int) (some : bits ≠ 0) : Holds bits (wrap bits x) := by
  cases bits with
  | zero => contradiction
  | succ n =>
    have least := Int.le_bmod (x := x) (Nat.two_pow_pos (n + 1))
    have most := Int.bmod_lt (x := x) (Nat.two_pow_pos (n + 1))
    have double : (2 : Int) ^ (n + 1) = 2 * 2 ^ n := by rw [pow_succ, mul_comm]
    unfold Holds wrap
    push_cast at least most
    rw [double] at least most ⊢
    omega

theorem exists_wrap (bits : Nat) (x : Int) : ∃ turns : Int, wrap bits x = x + turns * 2 ^ bits := by
  obtain ⟨turns, eq⟩ := Int.dvd_bmod_sub_self (x := x) (m := 2 ^ bits)
  refine ⟨turns, ?_⟩
  push_cast at eq
  rw [wrap, mul_comm turns, ← eq]
  omega

theorem wrap_add_wrap : wrap bits (a + wrap bits b) = wrap bits (a + b) := Int.add_bmod_bmod

theorem wrap_sub_wrap : wrap bits (a - wrap bits b) = wrap bits (a - b) := Int.sub_bmod_bmod

/-- The type `int`. -/
abbrev int (x : Int) : Int := wrap 32 x

/-- The type `long`. -/
abbrev long (x : Int) : Int := wrap 64 x

abbrev IsInt (x : Int) : Prop := Holds 32 x

end Machine
