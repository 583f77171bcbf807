import Mathlib.Data.Nat.Bitwise

/-!
# Bits of numbers

Bits of natural numbers as quotients and remainders.
-/

namespace UfcRecomp.Lib

/-- Bits above a number. -/
theorem or_shifted {low bits : Nat} (below : low < 2 ^ bits) (high : Nat) :
    low ||| (high * 2 ^ bits) = low + high * 2 ^ bits := by
  rw [Nat.or_comm, Nat.mul_comm, ← Nat.two_pow_add_eq_or_of_lt below, Nat.add_comm]

/-- Some bits of a number in their place. -/
theorem and_field (number low width : Nat) :
    number &&& ((2 ^ width - 1) * 2 ^ low) = number / 2 ^ low % 2 ^ width * 2 ^ low := by
  apply Nat.eq_of_testBit_eq
  intro index
  simp only [Nat.testBit_and, Nat.testBit_mul_two_pow, Nat.testBit_two_pow_sub_one,
    Nat.testBit_mod_two_pow, Nat.testBit_div_two_pow]
  by_cases above : low ≤ index
  · simp only [above, decide_true, Bool.true_and, Nat.sub_add_cancel]
    exact Bool.and_comm _ _
  · simp [above]

end UfcRecomp.Lib
