import Mathlib.Data.Int.Bitwise

/-!
# Machine integers

Arithmetic of unsigned integers is arithmetic of integers, reduced modulo a power of two;
signed integers take the remainder that is nearest to zero.
-/

namespace UfcRecomp.Lib

/-- The unsigned integer of a width that an integer is converted to. -/
def unsigned (width : Nat) (number : Int) : Nat := (number % ((2 ^ width : Nat) : Int)).toNat

theorem unsigned_lt (width : Nat) (number : Int) : unsigned width number < 2 ^ width := by
  have positive : (0 : Int) < ((2 ^ width : Nat) : Int) := by
    exact_mod_cast Nat.two_pow_pos width
  have below := Int.emod_lt_of_pos number positive
  have above := Int.emod_nonneg number (Int.ne_of_gt positive)
  unfold unsigned
  omega

/-- Conversion of a number that is not negative. -/
theorem unsigned_natCast (width number : Nat) : unsigned width number = number % 2 ^ width := by
  rw [unsigned, ← Int.natCast_mod, Int.toNat_natCast]

/-- A number in range is not changed. -/
theorem unsigned_of_lt {width number : Nat} (small : number < 2 ^ width) :
    unsigned width number = number := by
  rw [unsigned_natCast, Nat.mod_eq_of_lt small]

/-- A difference that is not negative is not changed. -/
theorem unsigned_sub {width high low : Nat} (order : low ≤ high) (small : high < 2 ^ width) :
    unsigned width ((high : Int) - low) = high - low := by
  rw [← Int.natCast_sub order, unsigned_of_lt (by omega)]

/-- The signed integer of a width that an integer is converted to. -/
def signed (width : Nat) (number : Int) : Int := number.bmod (2 ^ width)

/-- A number below the sign bit is not changed. -/
theorem signed_of_lt {number : Nat} (small : number < 2 ^ 31) : signed 32 number = number := by
  apply Int.bmod_eq_of_le <;> omega

end UfcRecomp.Lib
