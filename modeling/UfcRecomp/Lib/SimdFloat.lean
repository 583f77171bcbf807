import UfcRecomp.Lib.FloatInteger
import UfcRecomp.Lib.Simd

/-!
# Vector intrinsics on floating-point numbers

Operations of the host's processor on lanes of type `float`, under the names of their intrinsics.
-/

namespace UfcRecomp.Lib.Simd

open Vec

/-- `mul_ps` by a vector of one power of two, with denormal numbers taken for zero. -/
def mulPsPow (count : Nat) (vec : Vec) : Vec :=
  ofLanes 4 fun index => FloatFormat.single.scale (lane 4 vec index) count

/-- A conversion to integers; all that do not fit become the smallest one. -/
def cvttpsEpi32 (vec : Vec) : Vec :=
  ofLanes 4 fun index =>
    FloatFormat.single.toInteger (lane 4 vec index) (-2 ^ 31) (2 ^ 31 - 1) (-2 ^ 31)

def cmpunordPs : Vec → Vec → Vec :=
  compare 4 fun x y => FloatFormat.single.isNaN x || FloatFormat.single.isNaN y

def andnotSi128 : Vec → Vec → Vec := bytes₂ fun x y => ~~~x &&& y

def blendvPs (left right mask : Vec) : Vec := fun position =>
  if top 4 mask (position / 4) then right position else left position

/-! ## Lanes -/

/-- The bytes of a lane have its index. -/
theorem div_of_lane {index position : Nat} (above : 4 * index ≤ position)
    (below : position < 4 * index + 4) : position / 4 = index := by
  omega

theorem lane_blendvPs (left right mask : Vec) (index : Nat) :
    lane 4 (blendvPs left right mask) index =
      if top 4 mask index then lane 4 right index else lane 4 left index := by
  split
  next set =>
    apply lane_congr
    intro position above below
    rw [blendvPs, div_of_lane above below, if_pos set]
  next clear =>
    apply lane_congr
    intro position above below
    rw [blendvPs, div_of_lane above below, if_neg clear]

/-- Truth values that clear lanes. -/
theorem lane_andnot_ofTruth (holds : Nat → Bool) (vec : Vec) (index : Nat) :
    lane 4 (andnotSi128 (ofTruth 4 holds) vec) index = if holds index then 0 else lane 4 vec index := by
  cases known : holds index with
  | true =>
      have zero : lane 4 (andnotSi128 (ofTruth 4 holds) vec) index = lane 4 (fun _ => 0) index := by
        apply lane_congr
        intro position above below
        rw [andnotSi128, bytes₂, ofTruth_apply, div_of_lane above below, known, if_pos rfl]
        exact BitVec.zero_and
      rw [zero, if_pos rfl]
      rfl
  | false =>
      rw [if_neg (by decide)]
      apply lane_congr
      intro position above below
      rw [andnotSi128, bytes₂, ofTruth_apply, div_of_lane above below, known, if_neg (by decide)]
      exact BitVec.allOnes_and

/-- Truth values that lanes clear whose top bit is set. -/
theorem top_andnot_ofTruth (holds : Nat → Bool) (vec : Vec) (index : Nat) :
    top 4 (andnotSi128 vec (ofTruth 4 holds)) index = (!top 4 vec index && holds index) := by
  have quotient : (4 * index + (4 - 1)) / 4 = index := by omega
  rw [top, andnotSi128, bytes₂, BitVec.msb_and, BitVec.msb_not, ofTruth_apply, quotient, top]
  have bits : (if holds index then 0xff else 0 : Byte).msb = holds index := by
    cases holds index <;> decide
  rw [bits]
  rfl

/-- The top bit of a lane is the sign of the number. -/
theorem top_eq_negative (vec : Vec) (index : Nat) :
    top 4 vec index = FloatFormat.single.negative (lane 4 vec index) := by
  have high := (vec (4 * index + 3)).isLt
  have low := littleEndian_lt vec (4 * index) 3
  have last : littleEndian vec (4 * index + 3) 1 = (vec (4 * index + 3)).toNat := by
    rw [littleEndian, littleEndian, Nat.mul_zero, Nat.add_zero]
  have whole : lane 4 vec index =
      littleEndian vec (4 * index) 3 + 256 ^ 3 * (vec (4 * index + 3)).toNat := by
    rw [lane, littleEndian_add vec (4 * index) 3 1, last]
  have sign : lane 4 vec index / 2 ^ 31 % 2 = (vec (4 * index + 3)).toNat / 2 ^ 7 := by
    rw [whole]
    omega
  change (vec (4 * index + 3)).msb = (lane 4 vec index / 2 ^ 31 % 2 == 1)
  rw [sign, BitVec.msb_eq_decide, Bool.eq_iff_iff, decide_eq_true_eq, beq_iff_eq]
  omega

end UfcRecomp.Lib.Simd
