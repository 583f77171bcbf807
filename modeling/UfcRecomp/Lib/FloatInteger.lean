import UfcRecomp.Lib.FloatFormat
import Mathlib.Data.Rat.Floor

/-!
# Integers from floating-point numbers

The integer part of a number, and products with powers of two, which are exact unless they are too
large or come from a denormal number.
-/

namespace UfcRecomp.Lib

/-- A number without what is behind its point. -/
def truncate (x : ℚ) : Int := if x < 0 then ⌈x⌉ else ⌊x⌋

theorem truncate_neg (x : ℚ) : truncate (-x) = -truncate x := by
  unfold truncate
  obtain negative | rfl | positive := lt_trichotomy x 0
  · rw [if_neg (by linarith), if_pos negative, Int.floor_neg]
  · simp
  · rw [if_pos (by linarith), if_neg (by linarith), Int.ceil_neg]

theorem truncate_div (number divisor : Nat) : truncate (number / divisor) = (number / divisor : Nat) := by
  have positive : ¬(number / divisor : ℚ) < 0 := not_lt_of_ge (by positivity)
  rw [truncate, if_neg positive]
  exact (Rat.floor_natCast_div_natCast number divisor).trans (Int.natCast_div _ _).symm

/-- A number is truncated to zero or less if and only if it is below one. -/
theorem truncate_le_iff {x : ℚ} {bound : Int} (positive : 0 ≤ bound) :
    truncate x ≤ bound ↔ x < bound + 1 := by
  have nonnegative : (0 : ℚ) ≤ bound := by exact_mod_cast positive
  unfold truncate
  split
  next negative =>
    constructor
    · intro _
      linarith
    · intro _
      exact (Int.ceil_le.mpr (by exact_mod_cast negative.le)).trans positive
  next _ =>
    rw [← Int.lt_add_one_iff, Int.floor_lt]
    push_cast
    rfl

theorem le_truncate_iff {x : ℚ} {bound : Int} (negative : bound ≤ 0) :
    bound ≤ truncate x ↔ (bound - 1 : ℚ) < x := by
  have opposite := @truncate_le_iff (-x) (-bound) (by omega)
  rw [truncate_neg, Int.neg_le_neg_iff] at opposite
  rw [opposite]
  push_cast
  constructor <;> intro order <;> linarith

namespace FloatFormat

variable (format : FloatFormat) (bits : Nat)

/-- The bits of a number with some parts. -/
def ofParts (sign exponent fraction : Nat) : Nat :=
  sign * 2 ^ (format.fraction + format.exponent) + (exponent * 2 ^ format.fraction + fraction)

/-- The product with a power of two. A denormal number counts as zero, and what is not a number
becomes a quiet one. -/
def scale (count : Nat) : Nat :=
  let sign := bits / 2 ^ (format.fraction + format.exponent)
  let exponent := format.exponentOf bits
  let fraction := format.fractionOf bits
  let special := 2 ^ format.exponent - 1
  if exponent = 0 then format.ofParts sign 0 0
  else if format.finite bits then
    if exponent + count < special then format.ofParts sign (exponent + count) fraction
    else format.ofParts sign special 0
  else if fraction = 0 then bits
  else format.ofParts sign special
    (2 ^ (format.fraction - 1) + fraction % 2 ^ (format.fraction - 1))

/-- The integer part of the product with a power of two. -/
def integer (count : Nat) : Int :=
  let part : Nat := format.units bits * 2 ^ count / 2 ^ (-format.unitExponent).toNat
  if format.negative bits then -part else part

/-- A conversion to integers from `low` to `high`; all other numbers become `outside`. -/
def toInteger (low high outside : Int) : Int :=
  if format.finite bits && low ≤ format.integer bits 0 && format.integer bits 0 ≤ high then
    format.integer bits 0
  else outside

section Parts

variable {format : FloatFormat} {bits : Nat}

theorem fractionOf_lt : format.fractionOf bits < 2 ^ format.fraction :=
  Nat.mod_lt _ (Nat.two_pow_pos _)

/-- The parts of a number with some parts. -/
theorem parts_ofParts {sign exponent fraction : Nat} (exponentFits : exponent < 2 ^ format.exponent)
    (fractionFits : fraction < 2 ^ format.fraction) :
    format.fractionOf (format.ofParts sign exponent fraction) = fraction ∧
      format.exponentOf (format.ofParts sign exponent fraction) = exponent ∧
      format.ofParts sign exponent fraction / 2 ^ (format.fraction + format.exponent) = sign := by
  have pos := Nat.two_pow_pos format.fraction
  have whole : format.ofParts sign exponent fraction =
      fraction + 2 ^ format.fraction * (exponent + 2 ^ format.exponent * sign) := by
    rw [ofParts, Nat.pow_add]
    ring
  have quotient : format.ofParts sign exponent fraction / 2 ^ format.fraction =
      exponent + 2 ^ format.exponent * sign := by
    rw [whole, Nat.add_mul_div_left _ _ pos, Nat.div_eq_of_lt fractionFits, Nat.zero_add]
  refine ⟨?_, ?_, ?_⟩
  · rw [fractionOf, whole, Nat.add_mul_mod_self_left, Nat.mod_eq_of_lt fractionFits]
  · rw [exponentOf, quotient, Nat.add_mul_mod_self_left, Nat.mod_eq_of_lt exponentFits]
  · rw [Nat.pow_add, ← Nat.div_div_eq_div_mul, quotient,
      Nat.add_mul_div_left _ _ (Nat.two_pow_pos _), Nat.div_eq_of_lt exponentFits, Nat.zero_add]

theorem negative_ofParts {exponent fraction : Nat} (exponentFits : exponent < 2 ^ format.exponent)
    (fractionFits : fraction < 2 ^ format.fraction) :
    format.negative (format.ofParts (bits / 2 ^ (format.fraction + format.exponent)) exponent
      fraction) = format.negative bits := by
  rw [negative, (parts_ofParts exponentFits fractionFits).2.2, negative]

/-- The exponent that only what is not finite has. -/
theorem special_lt : 2 ^ format.exponent - 1 < 2 ^ format.exponent :=
  Nat.sub_lt (Nat.two_pow_pos _) (by decide)

theorem quiet_lt (pos : 0 < format.fraction) :
    2 ^ (format.fraction - 1) + format.fractionOf bits % 2 ^ (format.fraction - 1) <
      2 ^ format.fraction := by
  have rest := Nat.mod_lt (format.fractionOf bits) (Nat.two_pow_pos (format.fraction - 1))
  calc 2 ^ (format.fraction - 1) + format.fractionOf bits % 2 ^ (format.fraction - 1)
      < 2 ^ (format.fraction - 1) + 2 ^ (format.fraction - 1) := Nat.add_lt_add_left rest _
    _ = 2 ^ format.fraction := by rw [← Nat.two_mul, ← Nat.pow_succ', Nat.succ_eq_add_one,
      Nat.sub_add_cancel pos]

end Parts

/-! ## Products with powers of two -/

section Scale

variable {format : FloatFormat} {bits : Nat} (pos : 0 < format.fraction) (count : Nat)

include pos

theorem negative_scale : format.negative (format.scale bits count) = format.negative bits := by
  unfold scale
  dsimp only
  split_ifs
  · exact negative_ofParts (Nat.two_pow_pos _) (Nat.two_pow_pos _)
  · exact negative_ofParts (by omega) fractionOf_lt
  · exact negative_ofParts special_lt (Nat.two_pow_pos _)
  · rfl
  · exact negative_ofParts special_lt (quiet_lt pos)

theorem scale_lt (fits : bits < 2 ^ (format.fraction + format.exponent + 1)) :
    format.scale bits count < 2 ^ (format.fraction + format.exponent + 1) := by
  have sign : bits / 2 ^ (format.fraction + format.exponent) ≤ 1 := by
    apply Nat.le_of_lt_succ
    rwa [Nat.div_lt_iff_lt_mul (Nat.two_pow_pos _), Nat.mul_comm, ← Nat.pow_succ]
  have parts : ∀ {exponent fraction : Nat}, exponent < 2 ^ format.exponent →
      fraction < 2 ^ format.fraction →
      format.ofParts (bits / 2 ^ (format.fraction + format.exponent)) exponent fraction <
        2 ^ (format.fraction + format.exponent + 1) := by
    intro exponent fraction exponentFits fractionFits
    have quotient := (@parts_ofParts format (bits / 2 ^ (format.fraction + format.exponent)) _ _
      exponentFits fractionFits).2.2
    have below := Nat.lt_mul_div_succ (format.ofParts
      (bits / 2 ^ (format.fraction + format.exponent)) exponent fraction)
      (Nat.two_pow_pos (format.fraction + format.exponent))
    rw [quotient] at below
    apply Nat.lt_of_lt_of_le below
    rw [Nat.pow_succ]
    exact Nat.mul_le_mul_left _ (Nat.succ_le_succ sign)
  unfold scale
  dsimp only
  split_ifs
  · exact parts (Nat.two_pow_pos _) (Nat.two_pow_pos _)
  · exact parts (by omega) fractionOf_lt
  · exact parts special_lt (Nat.two_pow_pos _)
  · exact fits
  · exact parts special_lt (quiet_lt pos)

/-- What is not finite stays so. -/
theorem not_finite_scale (special : format.finite bits = false) (exponent : 0 < format.exponent) :
    format.finite (format.scale bits count) = false := by
  have exponentIs : format.exponentOf bits = 2 ^ format.exponent - 1 := by
    rwa [finite, bne_eq_false_iff_eq] at special
  have large : 1 < 2 ^ format.exponent := Nat.one_lt_two_pow (Nat.pos_iff_ne_zero.mp exponent)
  unfold scale
  dsimp only
  rw [if_neg (by omega), if_neg (by rw [special]; decide)]
  split
  · exact special
  · rw [finite, (parts_ofParts special_lt (quiet_lt pos)).2.1, bne_self_eq_false]

theorem isNaN_scale (exponent : 0 < format.exponent) :
    format.isNaN (format.scale bits count) = format.isNaN bits := by
  have large : 1 < 2 ^ format.exponent := Nat.one_lt_two_pow (Nat.pos_iff_ne_zero.mp exponent)
  have quiet : 0 < 2 ^ (format.fraction - 1) := Nat.two_pow_pos _
  cases known : format.finite bits with
  | true =>
      have number : format.isNaN bits = false := by rw [isNaN, known]; rfl
      rw [number]
      unfold scale
      dsimp only
      rw [known]
      split_ifs
      · rw [isNaN, (parts_ofParts (Nat.two_pow_pos _) (Nat.two_pow_pos _)).1]
        exact Bool.and_false _
      · rename_i fits
        rw [isNaN, finite, (parts_ofParts (by omega) fractionOf_lt).2.1,
          bne_iff_ne.mpr (Nat.ne_of_lt fits)]
        rfl
      · rw [isNaN, (parts_ofParts special_lt (Nat.two_pow_pos _)).1]
        exact Bool.and_false _
      · exact absurd rfl ‹¬true = true›
      · exact absurd rfl ‹¬true = true›
  | false =>
      have exponentIs : format.exponentOf bits = 2 ^ format.exponent - 1 := by
        rwa [finite, bne_eq_false_iff_eq] at known
      rw [isNaN, isNaN, not_finite_scale pos count known exponent, known]
      unfold scale
      dsimp only
      rw [if_neg (by omega), if_neg (by rw [known]; decide)]
      split
      · rfl
      · rename_i nonzero
        rw [(parts_ofParts special_lt (quiet_lt pos)).1, bne_iff_ne.mpr nonzero,
          bne_iff_ne.mpr (by omega)]

end Scale

/-! ## Integer parts -/

section Integer

variable {format : FloatFormat} {bits : Nat}

/-- The sign of a number is that of its integer part. -/
theorem integer_nonneg (positive : format.negative bits = false) (count : Nat) :
    0 ≤ format.integer bits count := by
  rw [integer, positive, if_neg (by decide)]
  exact Int.natCast_nonneg _

theorem integer_nonpos (negative : format.negative bits = true) (count : Nat) :
    format.integer bits count ≤ 0 := by
  rw [integer, negative, if_pos rfl]
  exact Int.neg_nonpos_of_nonneg (Int.natCast_nonneg _)

/-- The value of a product, with its point moved. -/
theorem truncate_value (small : format.unitExponent ≤ 0) (count : Nat) :
    truncate (format.value bits * 2 ^ count) = format.integer bits count := by
  obtain ⟨places, known⟩ : ∃ places : Nat, format.unitExponent = -places :=
    ⟨_, (by rw [Int.toNat_of_nonneg (show 0 ≤ -format.unitExponent by omega)]; omega)⟩
  have absolute : format.absolute bits * 2 ^ count =
      ((format.units bits * 2 ^ count : Nat) : ℚ) / ((2 ^ places : Nat) : ℚ) := by
    rw [FloatFormat.absolute, known, zpow_neg, zpow_natCast]
    push_cast
    ring
  rw [integer, known, Int.neg_neg, Int.toNat_natCast]
  rw [value]
  split
  · rw [neg_mul, truncate_neg, absolute, truncate_div]
  · rw [absolute, truncate_div]

/-- The integer part of a number that is scaled within the range of the format. -/
theorem integer_ofParts {count : Nat} (nonzero : format.exponentOf bits ≠ 0)
    (fits : format.exponentOf bits + count < 2 ^ format.exponent - 1) :
    format.integer (format.ofParts (bits / 2 ^ (format.fraction + format.exponent))
      (format.exponentOf bits + count) (format.fractionOf bits)) 0 = format.integer bits count := by
  have below : format.exponentOf bits + count < 2 ^ format.exponent := by omega
  obtain ⟨fraction, exponent, -⟩ := @parts_ofParts format
    (bits / 2 ^ (format.fraction + format.exponent)) _ _ below (@fractionOf_lt format bits)
  have units : format.units (format.ofParts (bits / 2 ^ (format.fraction + format.exponent))
      (format.exponentOf bits + count) (format.fractionOf bits)) =
      format.units bits * 2 ^ count := by
    rw [FloatFormat.units, FloatFormat.units, exponent, fraction, if_neg nonzero,
      if_neg (by omega), Nat.mul_assoc, ← Nat.pow_add]
    congr 2
    omega
  rw [integer, integer, units, negative_ofParts below fractionOf_lt, pow_zero, Nat.mul_one]

/-- A denormal number stays below one. -/
theorem integer_denormal {count : Nat} (few : format.fraction + count ≤ (-format.unitExponent).toNat)
    (zero : format.exponentOf bits = 0) : format.integer bits count = 0 := by
  have less : format.units bits * 2 ^ count < 2 ^ (-format.unitExponent).toNat := by
    rw [units, if_pos zero]
    calc format.fractionOf bits * 2 ^ count < 2 ^ format.fraction * 2 ^ count :=
          Nat.mul_lt_mul_of_pos_right fractionOf_lt (Nat.two_pow_pos count)
      _ = 2 ^ (format.fraction + count) := (Nat.pow_add 2 _ _).symm
      _ ≤ _ := Nat.pow_le_pow_right (by decide) few
  rw [integer, Nat.div_eq_of_lt less]
  split <;> rfl

/-- A number that is scaled beyond the range of the format. -/
theorem large_units {count : Nat} (nonzero : format.exponentOf bits ≠ 0)
    (large : 2 ^ format.exponent - 1 ≤ format.exponentOf bits + count) :
    2 ^ (format.fraction + (2 ^ format.exponent - 2)) ≤ format.units bits * 2 ^ count := by
  rw [units, if_neg nonzero, Nat.mul_assoc, ← Nat.pow_add, Nat.pow_add]
  exact Nat.mul_le_mul (Nat.le_add_right _ _) (Nat.pow_le_pow_right (by decide) (by omega))

/-- A conversion of a product is that of the exact one, if its range is smaller than that of the
format. -/
theorem toInteger_scale {low high outside : Int} {count width : Nat} (exponent : 0 < format.exponent)
    (few : format.fraction + count ≤ (-format.unitExponent).toNat)
    (wide : width + (-format.unitExponent).toNat ≤ format.fraction + (2 ^ format.exponent - 2))
    (lowBound : -2 ^ width < low) (highBound : high < 2 ^ width)
    (finite : format.finite bits = true) :
    format.toInteger (format.scale bits count) low high outside =
      if low ≤ format.integer bits count ∧ format.integer bits count ≤ high then
        format.integer bits count
      else outside := by
  have one : 1 < 2 ^ format.exponent := Nat.one_lt_two_pow (Nat.pos_iff_ne_zero.mp exponent)
  have outcome : ∀ result, format.finite result = true →
      format.integer result 0 = format.integer bits count →
      format.toInteger result low high outside =
        if low ≤ format.integer bits count ∧ format.integer bits count ≤ high then
          format.integer bits count
        else outside := by
    intro result resultFinite same
    simp only [toInteger, resultFinite, same, Bool.true_and, Bool.and_eq_true, decide_eq_true_eq]
  unfold scale
  dsimp only
  by_cases zero : format.exponentOf bits = 0
  · -- The product with a denormal number.
    rw [if_pos zero]
    obtain ⟨fraction, exponentIs, -⟩ := @parts_ofParts format
      (bits / 2 ^ (format.fraction + format.exponent)) _ _ (Nat.two_pow_pos _) (Nat.two_pow_pos _)
    apply outcome
    · rw [FloatFormat.finite, exponentIs, bne_iff_ne]
      omega
    · rw [integer_denormal few zero, integer_denormal (by omega) exponentIs]
  rw [if_neg zero, if_pos finite]
  by_cases fits : format.exponentOf bits + count < 2 ^ format.exponent - 1
  · rw [if_pos fits]
    apply outcome
    · rw [FloatFormat.finite, (parts_ofParts (by omega) fractionOf_lt).2.1, bne_iff_ne]
      omega
    · exact integer_ofParts zero fits
  · -- The product is too large.
    rw [if_neg fits]
    have infinite : format.finite (format.ofParts
        (bits / 2 ^ (format.fraction + format.exponent)) (2 ^ format.exponent - 1) 0) = false := by
      rw [FloatFormat.finite, (parts_ofParts special_lt (Nat.two_pow_pos _)).2.1,
        bne_self_eq_false]
    have part : 2 ^ width ≤ format.units bits * 2 ^ count / 2 ^ (-format.unitExponent).toNat := by
      rw [Nat.le_div_iff_mul_le (Nat.two_pow_pos _), ← Nat.pow_add]
      exact (Nat.pow_le_pow_right (by decide) wide).trans (large_units zero (by omega))
    have large : (2 : Int) ^ width ≤
        (format.units bits * 2 ^ count / 2 ^ (-format.unitExponent).toNat : Nat) := by
      exact_mod_cast part
    rw [toInteger, infinite, Bool.false_and, Bool.false_and, if_neg (by decide), if_neg]
    rintro ⟨above, below⟩
    rw [integer] at above below
    split at above
    · omega
    · rw [if_neg ‹_›] at below
      omega

end Integer

end FloatFormat

end UfcRecomp.Lib
