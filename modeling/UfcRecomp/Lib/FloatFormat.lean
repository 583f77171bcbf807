import Mathlib.Algebra.Order.Field.Power
import Mathlib.Tactic.Ring
import Mathlib.Tactic.NormNum

/-!
# Formats of floating-point numbers

A number has a sign, an exponent and a fraction, in the bits of a natural number. The finite ones
are multiples of the smallest number of their format.
-/

namespace UfcRecomp.Lib

/-- How many bits the fraction and the exponent have. -/
structure FloatFormat where
  fraction : Nat
  exponent : Nat

namespace FloatFormat

@[reducible] def half : FloatFormat := ⟨10, 5⟩

@[reducible] def single : FloatFormat := ⟨23, 8⟩

variable (format : FloatFormat) (bits : Nat)

/-! ## Parts -/

def fractionOf : Nat := bits % 2 ^ format.fraction

def exponentOf : Nat := bits / 2 ^ format.fraction % 2 ^ format.exponent

/-- The bits without the sign. -/
def magnitude : Nat := bits % 2 ^ (format.fraction + format.exponent)

def negative : Bool := bits / 2 ^ (format.fraction + format.exponent) % 2 == 1

/-- Whether the bits stand for a number. -/
def finite : Bool := format.exponentOf bits != 2 ^ format.exponent - 1

def isNaN : Bool := !format.finite bits && format.fractionOf bits != 0

/-! ## Numbers -/

/-- How often the smallest number of the format is in a number, without its sign. -/
def units : Nat :=
  if format.exponentOf bits = 0 then format.fractionOf bits
  else (2 ^ format.fraction + format.fractionOf bits) * 2 ^ (format.exponentOf bits - 1)

/-- The power of two that is the smallest number. -/
def unitExponent : Int := 2 - 2 ^ (format.exponent - 1) - format.fraction

/-- The number, without its sign. -/
def absolute : ℚ := format.units bits * (2 : ℚ) ^ format.unitExponent

/-- The number that the bits stand for. -/
def value : ℚ := if format.negative bits then -format.absolute bits else format.absolute bits

/-! ## Comparisons -/

/-- The bits as a number with a sign, in the order of the numbers that they stand for. -/
def order : Int :=
  if format.negative bits then -(format.magnitude bits : Int) else format.magnitude bits

def eq (left right : Nat) : Bool :=
  !format.isNaN left && !format.isNaN right && format.order left = format.order right

def lt (left right : Nat) : Bool :=
  !format.isNaN left && !format.isNaN right && format.order left < format.order right

def le (left right : Nat) : Bool :=
  !format.isNaN left && !format.isNaN right && format.order left ≤ format.order right

/-- The largest number of a format that is not above one of another, both without their signs. -/
structure Truncates (source : FloatFormat) (bits : Nat) (target : FloatFormat) (result : Nat) :
    Prop where
  finite : target.finite result = true
  below : target.absolute result ≤ source.absolute bits
  greatest : ∀ other, target.finite other = true →
    target.absolute other ≤ source.absolute bits → target.absolute other ≤ target.absolute result

/-! ## Order -/

section Order

variable {format : FloatFormat} {bits : Nat}

theorem exponentOf_eq (below : bits < 2 ^ (format.fraction + format.exponent)) :
    format.exponentOf bits = bits / 2 ^ format.fraction := by
  apply Nat.mod_eq_of_lt
  rw [Nat.div_lt_iff_lt_mul (Nat.two_pow_pos _), ← Nat.pow_add, Nat.add_comm]
  exact below

/-- The next bits stand for a larger number: the fraction counts in units of the exponent, and
behind its largest value the next exponent begins. -/
theorem units_succ (below : bits + 1 < 2 ^ (format.fraction + format.exponent)) :
    format.units (bits + 1) = format.units bits + 2 ^ (format.exponentOf bits - 1) := by
  have pos := Nat.two_pow_pos format.fraction
  have split := Nat.mod_add_div bits (2 ^ format.fraction)
  have rest := Nat.mod_lt bits pos
  unfold units fractionOf
  rw [exponentOf_eq below, exponentOf_eq (Nat.lt_of_succ_lt below)]
  generalize bits / 2 ^ format.fraction = exponent at split ⊢
  generalize bits % 2 ^ format.fraction = fraction at split rest ⊢
  by_cases last : fraction + 1 = 2 ^ format.fraction
  · -- The fraction starts again, with the next exponent.
    obtain ⟨quotient, remainder⟩ : (bits + 1) / 2 ^ format.fraction = exponent + 1 ∧
        (bits + 1) % 2 ^ format.fraction = 0 :=
      (Nat.div_mod_unique pos).mpr ⟨by rw [Nat.mul_add]; omega, pos⟩
    rw [quotient, remainder, if_neg (Nat.succ_ne_zero exponent), Nat.add_zero, Nat.add_sub_cancel]
    split
    next zero =>
      rw [zero, pow_zero, Nat.mul_one]
      exact last.symm
    next nonzero =>
      obtain ⟨lower, rfl⟩ := Nat.exists_eq_succ_of_ne_zero nonzero
      rw [Nat.succ_sub_one, Nat.pow_succ, ← Nat.succ_mul, Nat.succ_eq_add_one, Nat.add_assoc, last]
      ring
  · obtain ⟨quotient, remainder⟩ : (bits + 1) / 2 ^ format.fraction = exponent ∧
        (bits + 1) % 2 ^ format.fraction = fraction + 1 :=
      (Nat.div_mod_unique pos).mpr ⟨by omega, by omega⟩
    rw [quotient, remainder]
    split
    next zero => rw [zero, Nat.zero_sub, pow_zero]
    next nonzero => ring

theorem units_lt {left right : Nat} (order : left < right)
    (below : right < 2 ^ (format.fraction + format.exponent)) :
    format.units left < format.units right := by
  induction right with
  | zero => exact absurd order (Nat.not_lt_zero left)
  | succ right ih =>
      have grows : format.units right < format.units (right + 1) := by
        rw [units_succ below]
        exact Nat.lt_add_of_pos_right (Nat.two_pow_pos _)
      obtain before | rfl := Nat.lt_succ_iff_lt_or_eq.mp order
      · exact Nat.lt_trans (ih before (Nat.lt_of_succ_lt below)) grows
      · exact grows

theorem units_le {left right : Nat} (order : left ≤ right)
    (below : right < 2 ^ (format.fraction + format.exponent)) :
    format.units left ≤ format.units right := by
  obtain before | rfl := Nat.lt_or_eq_of_le order
  · exact Nat.le_of_lt (units_lt before below)
  · exact Nat.le_refl _

/-- Numbers of one format are ordered as their bits are. -/
theorem absolute_le_absolute {left right : Nat}
    (leftBelow : left < 2 ^ (format.fraction + format.exponent))
    (rightBelow : right < 2 ^ (format.fraction + format.exponent)) :
    format.absolute left ≤ format.absolute right ↔ left ≤ right := by
  have pos : (0 : ℚ) < 2 ^ format.unitExponent := zpow_pos (by norm_num) _
  rw [absolute, absolute, mul_le_mul_iff_left₀ pos, Nat.cast_le]
  constructor
  · intro order
    by_contra after
    exact Nat.not_le_of_lt (units_lt (Nat.lt_of_not_le after) leftBelow) order
  · intro order
    exact units_le order rightBelow

/-- Numbers of two formats, by how often the smallest number of one is in that of the other. -/
theorem absolute_le_iff {other : FloatFormat} {left right shift : Nat}
    (scale : format.unitExponent = other.unitExponent + shift) :
    format.absolute left ≤ other.absolute right ↔
      format.units left * 2 ^ shift ≤ other.units right := by
  have pos : (0 : ℚ) < 2 ^ other.unitExponent := zpow_pos (by norm_num) _
  rw [absolute, absolute, scale, zpow_add₀ (by norm_num), zpow_natCast, mul_comm ((2 : ℚ) ^ _),
    ← mul_assoc, mul_le_mul_iff_left₀ pos]
  exact_mod_cast Iff.rfl

theorem magnitude_lt : format.magnitude bits < 2 ^ (format.fraction + format.exponent) :=
  Nat.mod_lt _ (Nat.two_pow_pos _)

@[simp] theorem fractionOf_magnitude :
    format.fractionOf (format.magnitude bits) = format.fractionOf bits :=
  Nat.mod_mod_of_dvd _ (Nat.pow_dvd_pow 2 (Nat.le_add_right _ _))

@[simp] theorem exponentOf_magnitude :
    format.exponentOf (format.magnitude bits) = format.exponentOf bits := by
  rw [exponentOf_eq magnitude_lt, exponentOf, magnitude, Nat.pow_add, Nat.mod_mul_right_div_self]

@[simp] theorem units_magnitude : format.units (format.magnitude bits) = format.units bits := by
  rw [units, units, fractionOf_magnitude, exponentOf_magnitude]

@[simp] theorem absolute_magnitude :
    format.absolute (format.magnitude bits) = format.absolute bits := by
  rw [absolute, absolute, units_magnitude]

/-- Bits are determined by the sign and what is without it. -/
theorem eq_of_parts {left right : Nat}
    (leftFits : left < 2 ^ (format.fraction + format.exponent + 1))
    (rightFits : right < 2 ^ (format.fraction + format.exponent + 1))
    (magnitude : format.magnitude left = format.magnitude right)
    (sign : format.negative left = format.negative right) : left = right := by
  have pos := Nat.two_pow_pos (format.fraction + format.exponent)
  have one : ∀ {bits : Nat}, bits < 2 ^ (format.fraction + format.exponent + 1) →
      bits / 2 ^ (format.fraction + format.exponent) < 2 := by
    intro bits fits
    rwa [Nat.div_lt_iff_lt_mul pos, Nat.mul_comm, ← Nat.pow_succ]
  have first := one leftFits
  have second := one rightFits
  have same : left / 2 ^ (format.fraction + format.exponent) =
      right / 2 ^ (format.fraction + format.exponent) := by
    rw [negative, negative, Nat.mod_eq_of_lt first, Nat.mod_eq_of_lt second, Bool.eq_iff_iff,
      beq_iff_eq, beq_iff_eq] at sign
    generalize left / 2 ^ (format.fraction + format.exponent) = x at *
    generalize right / 2 ^ (format.fraction + format.exponent) = y at *
    omega
  rw [← Nat.mod_add_div left (2 ^ (format.fraction + format.exponent)), same,
    show left % _ = right % _ from magnitude, Nat.mod_add_div]

/-- Bits stand for the truncation where the next ones stand for a larger number. -/
theorem Truncates.of_units {other : FloatFormat} {result shift : Nat}
    (scale : format.unitExponent = other.unitExponent + shift)
    (finite : format.finite result = true)
    (inside : result + 1 < 2 ^ (format.fraction + format.exponent))
    (below : format.units result * 2 ^ shift ≤ other.units bits)
    (above : other.units bits < format.units (result + 1) * 2 ^ shift) :
    Truncates other bits format result := by
  refine ⟨finite, (absolute_le_iff scale).mpr below, ?_⟩
  intro candidate _ smaller
  have fewer := (absolute_le_iff scale).mp smaller
  have less : format.units candidate < format.units (result + 1) :=
    Nat.lt_of_mul_lt_mul_right (Nat.lt_of_le_of_lt fewer above)
  rw [← @absolute_magnitude format candidate]
  apply (absolute_le_absolute magnitude_lt (Nat.lt_of_succ_lt inside)).mpr
  by_contra larger
  apply Nat.not_le_of_lt less
  rw [← @units_magnitude format candidate]
  exact units_le (Nat.lt_of_not_le larger) magnitude_lt

end Order

end FloatFormat

end UfcRecomp.Lib
