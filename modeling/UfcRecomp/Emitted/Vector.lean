import UfcRecomp.Lib.Simd

/-!
# Vector operations of the emitted code

The operations on vectors that `ppc_context.h` makes of intrinsics.
-/

namespace UfcRecomp.Emitted

open UfcRecomp.Lib UfcRecomp.Lib.Simd

def addsEpu32 (a b : Vec) : Vec := addEpi32 a (minEpu32 (xorSi128 a (cmpeq 4 a a)) b)

def avgEpi8 (a b : Vec) : Vec :=
  let c := set1 1 128
  xorSi128 c (avgEpu8 (xorSi128 c a) (xorSi128 c b))

def avgEpi16 (a b : Vec) : Vec :=
  let c := set1 2 32768
  xorSi128 c (avgEpu16 (xorSi128 c a) (xorSi128 c b))

def cmpgtEpu8 (a b : Vec) : Vec :=
  let c := set1 1 128
  cmpgt 1 (xorSi128 a c) (xorSi128 b c)

def cmpgtEpu16 (a b : Vec) : Vec :=
  let c := set1 2 32768
  cmpgt 2 (xorSi128 a c) (xorSi128 b c)

def permEpi8 (a b c : Vec) : Vec :=
  let d := set1 1 0xF
  let e := subEpi8 d (andSi128 c d)
  blendvEpi8 (shuffleEpi8 a e) (shuffleEpi8 b e) (slliEpi32 3 c)

def vsr (a b : Vec) : Vec :=
  let b := srliEpi64 61 (slliEpi64 61 b)
  insertPs0x10 (srlEpi64 a b) (srlEpi64 (srliSi128 4 a) b)

def vsl (a b : Vec) : Vec :=
  let shift := (b 0 &&& 0x7).toNat
  if shift = 0 then a
  else fun i => (a i <<< shift) ||| (if i = 0 then 0 else a (i - 1) >>> (8 - shift))

/-! ## Comparisons without a sign -/

/-- A byte with its top bit changed, read with a sign. -/
theorem signedLane_one_xor (vec : Vec) (index : Nat) :
    Vec.signedLane 1 (xorSi128 vec (set1 1 128)) index = Vec.lane 1 vec index - 128 := by
  have changed : ∀ byte : Byte, (byte ^^^ 128#8).toNat = (byte.toNat + 128) % 256 := by decide
  have mask : set1 1 128 index = 128#8 := by
    rw [set1, Vec.ofLanes, Nat.mod_one]
    rfl
  have bound := (vec index).isLt
  rw [Vec.signedLane, IntType.wrap_signed, Vec.lane_one, Vec.lane_one, xorSi128, Vec.bytes₂, mask,
    changed]
  omega

/-- A lane of two bytes with its top bit changed, read with a sign. -/
theorem signedLane_two_xor (vec : Vec) (index : Nat) :
    Vec.signedLane 2 (xorSi128 vec (set1 2 32768)) index = Vec.lane 2 vec index - 32768 := by
  have changed : ∀ byte : Byte, (byte ^^^ 128#8).toNat = (byte.toNat + 128) % 256 := by decide
  have low : set1 2 32768 (2 * index) = 0#8 := by
    rw [set1, Vec.ofLanes, Nat.mul_mod_right]
    rfl
  have high : set1 2 32768 (2 * index + 1) = 128#8 := by
    rw [set1, Vec.ofLanes, Nat.mul_add_mod]
    rfl
  have lowBound := (vec (2 * index)).isLt
  have highBound := (vec (2 * index + 1)).isLt
  rw [Vec.signedLane, IntType.wrap_signed, Vec.lane_two, Vec.lane_two, xorSi128, Vec.bytes₂,
    Vec.bytes₂, low, high, changed, BitVec.xor_zero]
  omega

theorem cmpgtEpu8_eq (a b : Vec) :
    cmpgtEpu8 a b = Vec.ofTruth 1 fun index => Vec.lane 1 b index < Vec.lane 1 a index := by
  simp only [cmpgtEpu8, cmpgt, Vec.signedCompare, signedLane_one_xor, Int.sub_lt_sub_right_iff,
    Int.ofNat_lt]

theorem cmpgtEpu16_eq (a b : Vec) :
    cmpgtEpu16 a b = Vec.ofTruth 2 fun index => Vec.lane 2 b index < Vec.lane 2 a index := by
  simp only [cmpgtEpu16, cmpgt, Vec.signedCompare, signedLane_two_xor, Int.sub_lt_sub_right_iff,
    Int.ofNat_lt]

/-! ## Sums and averages -/

theorem xorSi128_comm (left right : Vec) : xorSi128 left right = xorSi128 right left :=
  funext fun _ => BitVec.xor_comm _ _

/-- A lane with all its bits changed. -/
theorem lane_four_xor (vec : Vec) (index : Nat) :
    Vec.lane 4 (xorSi128 vec (cmpeq 4 vec vec)) index = 2 ^ 32 - 1 - Vec.lane 4 vec index := by
  have changed : ∀ byte : Byte, (byte ^^^ 0xff#8).toNat = 255 - byte.toNat := by decide
  have ones : ∀ position, cmpeq 4 vec vec position = 0xff#8 := by
    intro position
    rw [cmpeq, Vec.compare, Vec.ofTruth_apply, if_pos (decide_eq_true rfl)]
    rfl
  have bound := fun position => (vec position).isLt
  simp only [Vec.lane, littleEndian, xorSi128, Vec.bytes₂, ones, changed]
  have first := bound (4 * index)
  have second := bound (4 * index + 1)
  have third := bound (4 * index + 1 + 1)
  have fourth := bound (4 * index + 1 + 1 + 1)
  omega

theorem lane_addsEpu32 (a b : Vec) (index : Nat) :
    Vec.lane 4 (addsEpu32 a b) index =
      min (Vec.lane 4 a index + Vec.lane 4 b index) (2 ^ 32 - 1) := by
  have left := Vec.lane_lt 4 a index
  have right := Vec.lane_lt 4 b index
  have smaller := Vec.lane_map₂ 4 (fun x y => min x y) (xorSi128 a (cmpeq 4 a a)) b index
  have sum := Vec.lane_map₂ 4 (fun x y => x + y) a (minEpu32 (xorSi128 a (cmpeq 4 a a)) b) index
  rw [lane_four_xor] at smaller
  rw [minEpu32, smaller] at sum
  rw [addsEpu32, addEpi32, minEpu32]
  generalize Vec.lane 4 (Vec.map₂ 4 _ a _) index = result at sum ⊢
  omega

theorem xorSi128_cancel (vec mask : Vec) : xorSi128 (xorSi128 vec mask) mask = vec := by
  funext position
  simp only [xorSi128, Vec.bytes₂, BitVec.xor_assoc, BitVec.xor_self, BitVec.xor_zero]

/-- The average of numbers that are moved to be without a sign, moved back. -/
theorem signedLane_avg {size : Nat} {mask : Vec} {half : Int} {index : Nat}
    (twice : 256 ^ size = 2 * half)
    (moved : ∀ vec, Vec.signedLane size (xorSi128 vec mask) index = Vec.lane size vec index - half)
    (a b : Vec) :
    Vec.signedLane size (xorSi128 mask (Vec.map₂ size (fun x y => (x + y + 1) / 2)
        (xorSi128 mask a) (xorSi128 mask b))) index =
      (Vec.signedLane size a index + Vec.signedLane size b index + 1) / 2 := by
  have back : ∀ vec, (Vec.lane size (xorSi128 mask vec) index : Int) =
      Vec.signedLane size vec index + half := by
    intro vec
    have same := moved (xorSi128 vec mask)
    rw [xorSi128_cancel] at same
    rw [xorSi128_comm]
    omega
  have bound : ∀ vec, (Vec.lane size vec index : Int) < 2 * half := by
    intro vec
    rw [← twice]
    exact_mod_cast Vec.lane_lt size vec index
  have left := bound (xorSi128 mask a)
  have right := bound (xorSi128 mask b)
  rw [xorSi128_comm mask (Vec.map₂ _ _ _ _), moved, Vec.lane_map₂, twice,
    Int.emod_eq_of_lt (by omega) (by omega), back, back]
  omega

theorem signedLane_avgEpi8 (a b : Vec) (index : Nat) :
    Vec.signedLane 1 (avgEpi8 a b) index =
      (Vec.signedLane 1 a index + Vec.signedLane 1 b index + 1) / 2 :=
  signedLane_avg (by decide) (fun vec => signedLane_one_xor vec index) a b

theorem signedLane_avgEpi16 (a b : Vec) (index : Nat) :
    Vec.signedLane 2 (avgEpi16 a b) index =
      (Vec.signedLane 2 a index + Vec.signedLane 2 b index + 1) / 2 :=
  signedLane_avg (by decide) (fun vec => signedLane_two_xor vec index) a b

end UfcRecomp.Emitted
