import UfcRecomp.Lib.CEval
import UfcRecomp.Lib.SimdFloat
import UfcRecomp.Ppc.Vector
import UfcRecomp.Recompiler.VectorRuns

/-!
# Vectors in reverse

The emitted code keeps the bytes of a vector register in reverse, and each case of `Recompile` makes
up for that in its own way: it exchanges operands, complements indices, or turns tables around.
-/

namespace UfcRecomp.Recompiler

open UfcRecomp.Lib UfcRecomp.Lib.Simd UfcRecomp.Ppc UfcRecomp.Emitted

/-! ## The emitted statements -/

/-- The instructions whose cases are among those for any names. -/
def vectorInst : VmxInst → Option VectorInst
  | .vmrghb => some .vmrghb
  | .vmrghh => some .vmrghh
  | .vmrghw => some .vmrghw
  | .vmrglb => some .vmrglb
  | .vmrglh => some .vmrglh
  | .vmrglw => some .vmrglw
  | .vperm => some .vperm
  | .vpermwi128 => some .vpermwi128
  | .vpkshss => some .vpkshss
  | .vpkshus => some .vpkshus
  | .vpkswss => some .vpkswss
  | .vpkswus => some .vpkswus
  | .vpkuhus128 => some .vpkuhus128
  | .vpkuwum => some .vpkuwum
  | .vrlh => some .vrlh
  | .vrlimi128 => some .vrlimi128
  | .vsl => some .vsl
  | .vslb => some .vslb
  | .vsldoi => some .vsldoi
  | .vslh => some .vslh
  | .vslw => some .vslw
  | .vspltb => some .vspltb
  | .vsplth => some .vsplth
  | .vspltw => some .vspltw
  | .vsr => some .vsr
  | .vsrab => some .vsrab
  | .vsrah => some .vsrah
  | .vsraw => some .vsraw
  | .vsrh => some .vsrh
  | .vsrw => some .vsrw
  | .vupkhsb => some .vupkhsb
  | .vupkhsh => some .vupkhsh
  | .vupklsb => some .vupklsb
  | .vupklsh => some .vupklsh
  | _ => none

section Statements

variable {κ : Type} (names : VectorNames κ) (operand : Nat → Word)

open VectorInst (load store₁ store₂)

/-- The case of an instruction. -/
def vmxStatements (float : FloatOps) (inst : VmxInst) : List (VStatement κ) :=
  match inst with
  | .vaddubm => store₂ names addEpi8 1 2
  | .vadduhm => store₂ names addEpi16 1 2
  | .vadduwm => store₂ names addEpi32 1 2
  | .vand => store₂ names andSi128 1 2
  | .vandc128 => store₂ names andnotSi128 2 1
  | .vmaxsh => store₂ names maxEpi16 1 2
  | .vmaxsw => store₂ names maxEpi32 1 2
  | .vminsh => store₂ names minEpi16 1 2
  | .vnor =>
    store₂ names (fun a b => andnotSi128 (orSi128 a b) (cmpeq 4 setzeroSi128 setzeroSi128)) 1 2
  | .vor => if operand 1 ≠ operand 2 then store₂ names orSi128 1 2 else store₁ names id 1
  | .vsel =>
    [.store (names.v 0) (.op₂ orSi128 (.op₂ andnotSi128 (load names 3) (load names 1))
      (.op₂ andSi128 (load names 3) (load names 2)))]
  | .vspltisb => [.store (names.v 0) (.const (set1 1 (operand 1).toNat))]
  | .vspltish => [.store (names.v 0) (.const (set1 2 (operand 1).toNat))]
  | .vspltisw => [.store (names.v 0) (.const (set1 4 (operand 1).toNat))]
  | .vsububm => store₂ names subEpi8 1 2
  | .vsubuhm => store₂ names subEpi16 1 2
  | .vsubuwm => store₂ names subEpi32 1 2
  | .vxor =>
    if operand 1 ≠ operand 2 then store₂ names xorSi128 1 2
    else [.store (names.v 0) (.const setzeroSi128)]
  | inst => (vectorInst inst).elim [.trap] fun inst => inst.statements names operand float false

/-- Such a case. -/
theorem vmxStatements_eq {float : FloatOps} {inst : VmxInst} {other : VectorInst}
    (known : vectorInst inst = some other) :
    vmxStatements names operand float inst = other.statements names operand float false := by
  cases inst <;> cases known <;> rfl

end Statements

/-- The packs that are stored lane by lane. -/
def vmxPacks : VmxInst → Bool
  | .vpkshss | .vpkswss | .vpkswus | .vpkuhus128 | .vpkuwum => true
  | _ => false

/-! ## Bytes and lanes of intrinsics -/

section Intrinsics

variable {a b c : Vec} {a' b' c' : BigVec}

theorem reversed_bytes₂ (op : Byte → Byte → Byte) (ha : Reversed a a') (hb : Reversed b b') :
    Reversed (Vec.bytes₂ op a b) (VmxInst.bytewise op a' b') := by
  intro position inside
  rw [Vec.bytes₂, VmxInst.bytewise, ha position inside, hb position inside]

theorem reversed_andnotSi128 (ha : Reversed a a') (hb : Reversed b b') :
    Reversed (andnotSi128 b a) (VmxInst.bytewise (fun x y => x &&& ~~~y) a' b') := by
  intro position inside
  rw [andnotSi128, Vec.bytes₂, VmxInst.bytewise, ha position inside, hb position inside,
    BitVec.and_comm]

theorem reversed_nor (ha : Reversed a a') (hb : Reversed b b') :
    Reversed (andnotSi128 (orSi128 a b) (cmpeq 4 setzeroSi128 setzeroSi128))
      (VmxInst.bytewise (fun x y => ~~~(x ||| y)) a' b') := by
  intro position inside
  have ones : cmpeq 4 setzeroSi128 setzeroSi128 (15 - position) = BitVec.allOnes 8 := by
    rw [cmpeq, Vec.compare, Vec.ofTruth_apply, if_pos (decide_eq_true rfl)]
    rfl
  rw [andnotSi128, Vec.bytes₂, ones, BitVec.and_allOnes, orSi128, Vec.bytes₂, VmxInst.bytewise,
    ha position inside, hb position inside]

/-- A choice of bits. -/
theorem reversed_sel (ha : Reversed a a') (hb : Reversed b b') (hc : Reversed c c') :
    Reversed (orSi128 (andnotSi128 c a) (andSi128 c b)) fun position =>
      (a' position &&& ~~~c' position) ||| (b' position &&& c' position) := by
  intro position inside
  rw [orSi128, Vec.bytes₂, andnotSi128, Vec.bytes₂, andSi128, Vec.bytes₂, ha position inside,
    hb position inside, hc position inside, BitVec.and_comm, BitVec.and_comm (c' position)]

/-- An operation on lanes without a sign. -/
theorem reversed_map₂ {size : Nat} (lanes : size ∣ 16) (op : Int → Int → Int)
    (ha : Reversed a a') (hb : Reversed b b') :
    Reversed (Vec.map₂ size (fun x y => op x y) a b)
      (VmxInst.lanewise ⟨size, false⟩ op a' b') := by
  apply Reversed.ofLanes lanes
  intro index inside
  have left := @Reversed.typed a a' ha ⟨size, false⟩ lanes index inside
  have right := @Reversed.typed b b' hb ⟨size, false⟩ lanes index inside
  rw [Vec.typed_unsigned] at left right
  rw [← left, ← right]

/-- An operation on lanes with a sign. -/
theorem reversed_signedMap₂ {size : Nat} (lanes : size ∣ 16) (op : Int → Int → Int)
    (ha : Reversed a a') (hb : Reversed b b') :
    Reversed (Vec.signedMap₂ size op a b) (VmxInst.lanewise ⟨size, true⟩ op a' b') := by
  apply Reversed.ofLanes lanes
  intro index inside
  have left := @Reversed.typed a a' ha ⟨size, true⟩ lanes index inside
  have right := @Reversed.typed b b' hb ⟨size, true⟩ lanes index inside
  exact congrArg₂ op left right

/-- One number in every lane. -/
theorem reversed_set1 {size : Nat} (lanes : size ∣ 16) (few : size ≤ 4) (word : Word) :
    Reversed (set1 size word.toNat) (BigVec.ofLanes size fun _ => word.toInt) := by
  apply Reversed.of_lanes lanes
  intro index _
  have divides : (256 : Int) ^ size ∣ 256 ^ 4 := pow_dvd_pow 256 few
  have same : (word.toNat : Int) % 256 ^ 4 = word.toInt % 256 ^ 4 := by
    rw [BitVec.toInt_eq_toNat_cond]
    omega
  rw [set1, Vec.lane_ofLanes, ← Int.emod_emod_of_dvd _ divides, same,
    Int.emod_emod_of_dvd _ divides]

theorem reversed_interleave {size base : Nat} (known : size = 1 ∨ size = 2 ∨ size = 4)
    (half : base ≤ 8 / size) (ha : Reversed a a') (hb : Reversed b b') :
    Reversed (interleave size base b a) (VmxInst.merge size (8 / size - base) a' b') := by
  intro position inside
  simp only [interleave, VmxInst.merge]
  have bytes : 15 - (size * (base + (15 - position) / size / 2) + (15 - position) % size) =
      size * (8 / size - base + position / size / 2) + position % size := by
    obtain rfl | rfl | rfl := known <;> omega
  have bound : size * (base + (15 - position) / size / 2) + (15 - position) % size < 16 := by
    obtain rfl | rfl | rfl := known <;> omega
  by_cases even : (15 - position) / size % 2 = 0
  · have odd : ¬position / size % 2 = 0 := by
      obtain rfl | rfl | rfl := known <;> omega
    rw [if_pos even, if_neg odd, hb.apply bound, bytes]
  · have other : position / size % 2 = 0 := by
      obtain rfl | rfl | rfl := known <;> omega
    rw [if_neg even, if_pos other, ha.apply bound, bytes]

theorem reversed_alignrEpi8 {shift : Nat} (short : shift ≤ 16) (ha : Reversed a a')
    (hb : Reversed b b') :
    Reversed (alignrEpi8 (16 - shift) a b) fun position =>
      BigVec.append a' b' (position + shift) := by
  intro position inside
  simp only [alignrEpi8, BigVec.append]
  by_cases second : 16 ≤ position + shift
  · rw [if_pos (by omega), if_neg (by omega), hb.apply (by omega)]
    congr 1
    omega
  · rw [if_neg (by omega), if_pos (by omega), if_pos (by omega), ha.apply (by omega)]
    congr 1
    omega

/-- A permutation of words, from the words that its control selects. -/
theorem reversed_shuffleEpi32 {control : Nat} {word : Nat → Nat}
    (selects : ∀ index < 4, control / 4 ^ index % 4 = 3 - word (3 - index))
    (few : ∀ index < 4, word index < 4) (ha : Reversed a a') :
    Reversed (shuffleEpi32 control a) fun position =>
      a' (4 * word (position / 4) + position % 4) := by
  intro position inside
  have bound := few (position / 4) (by omega)
  rw [shuffleEpi32, selects _ (by omega),
    show 3 - (15 - position) / 4 = position / 4 by omega, ha.apply (by omega)]
  congr 1
  omega

/-- A permutation of bytes that are all selected. -/
theorem reversed_shuffleEpi8 {mask : Vec} {index : Nat → Nat}
    (selects : ∀ position < 16, (mask (15 - position)).toNat = 15 - index position)
    (few : ∀ position < 16, index position < 16) (ha : Reversed a a') :
    Reversed (shuffleEpi8 a mask) fun position => a' (index position) := by
  intro position inside
  have selected := selects position inside
  have bound := few position inside
  rw [shuffleEpi8, if_neg, selected, ha.apply (by omega)]
  · congr 1
    omega
  · rw [BitVec.msb_eq_decide, selected]
    simp
    omega

/-- A byte of a lane that is shifted to the left, where the bits come from the same byte. -/
theorem msb_slliEpi32 (vec : Vec) (position : Nat) :
    (slliEpi32 3 vec position).msb = (vec position).getLsbD 4 := by
  have number : (Vec.lane 4 vec (position / 4) : Int) * 2 ^ 3 =
      ((Vec.lane 4 vec (position / 4) * 2 ^ 3 : Nat) : Int) := by norm_cast
  rw [BitVec.msb_eq_getLsbD_last, slliEpi32, Vec.ofLanes, number, getLsbD_byteOf _ _ (by decide),
    ← Nat.shiftLeft_eq, Nat.testBit_shiftLeft, Vec.lane, testBit_littleEndian,
    decide_eq_true (by omega), decide_eq_true (by omega), Bool.true_and, Bool.true_and,
    show (8 * (position % 4) + (8 - 1) - 3) % 8 = 4 by omega,
    show 4 * (position / 4) + (8 * (position % 4) + (8 - 1) - 3) / 8 = position by omega]

/-- A permutation of the bytes of two vectors. -/
theorem reversed_permEpi8 (ha : Reversed a a') (hb : Reversed b b') (hc : Reversed c c') :
    Reversed (permEpi8 a b c) fun position =>
      BigVec.append a' b' ((c' position).toNat % 32) := by
  intro position inside
  have control := hc position inside
  have low : ∀ byte : Byte, (0xF#8 - (byte &&& 0xF#8)).msb = false ∧
      (0xF#8 - (byte &&& 0xF#8)).toNat = 15 - byte.toNat % 16 := by decide
  have fifth : ∀ byte : Byte, byte.getLsbD 4 = decide (16 ≤ byte.toNat % 32) := by decide
  have fifteen : set1 1 0xF (15 - position) = 0xF#8 := by
    rw [set1, Vec.ofLanes, Nat.mod_one]
    rfl
  obtain ⟨positive, index⟩ := low (c' position)
  simp only [permEpi8, blendvEpi8, shuffleEpi8, subEpi8, andSi128, Vec.bytes₂, msb_slliEpi32,
    control, fifteen, positive, index, fifth, decide_eq_true_eq, Bool.false_eq_true, if_false,
    BigVec.append]
  by_cases second : 16 ≤ (c' position).toNat % 32
  · rw [if_pos second, if_neg (by omega), hb.apply (by omega)]
    congr 1
    omega
  · rw [if_neg second, if_pos (by omega), ha.apply (by omega)]
    congr 1
    omega

/-- Words of one vector, elsewhere words of another one. -/
theorem reversed_blendPs {control : Nat} (ha : Reversed a a') (hb : Reversed b b') :
    Reversed (blendPs control a b) fun position =>
      if control.testBit (3 - position / 4) then b' position else a' position := by
  intro position inside
  rw [blendPs, show (15 - position) / 4 = 3 - position / 4 by omega, ha position inside,
    hb position inside]

/-! ## Packs and unpacks -/

/-- Lanes of two vectors, one after the other. -/
theorem lanePair_of_reversed {type : IntType} (lanes : type.size ∣ 16) (ha : Reversed a a')
    (hb : Reversed b b') {index : Nat} (inside : index < 16 / type.size + 16 / type.size) :
    VmxInst.lanePair type a' b' index =
      Vec.typed type (if index < 16 / type.size then a else b)
        (16 / type.size - 1 - index % (16 / type.size)) := by
  by_cases first : index < 16 / type.size
  · rw [VmxInst.lanePair, BigVec.typed, BigVec.lane_append_left first, if_pos first,
      Nat.mod_eq_of_lt first, ha.typed lanes first, BigVec.typed]
  · obtain ⟨rest, rfl⟩ := Nat.exists_eq_add_of_le (Nat.le_of_not_lt first)
    rw [VmxInst.lanePair, BigVec.typed, BigVec.lane_append_right lanes, if_neg first,
      Nat.add_mod_left, Nat.mod_eq_of_lt (by omega), hb.typed lanes (by omega), BigVec.typed]

theorem reversed_packusEpi16 (ha : Reversed a a') (hb : Reversed b b') :
    Reversed (packusEpi16 b a) (VmxInst.pack .s16 .u8 a' b') := by
  apply Reversed.ofLanes (show 1 ∣ 16 by decide)
  intro index inside
  have bounds : IntType.min .u8 = 0 ∧ IntType.max .u8 = 255 := by decide
  rw [lanePair_of_reversed (by decide) ha hb (by exact inside), bounds.1, bounds.2]
  have half : 16 / IntType.s16.size = 8 := rfl
  rw [half]
  by_cases first : index < 8
  · rw [if_neg (by omega), if_pos first, Nat.mod_eq_of_lt first,
      show 16 / 1 - 1 - index - 8 = 8 - 1 - index by omega]
    rfl
  · rw [if_pos (by omega), if_neg first, show 16 / 1 - 1 - index = 8 - 1 - index % 8 by omega]
    rfl

/-- The upper half of a vector, in both halves. -/
theorem unpackhi_eight (vec : Vec) {position : Nat} (inside : position < 8) :
    unpackhi 8 vec vec position = vec (8 + position) := by
  rw [unpackhi, interleave, Nat.div_eq_of_lt inside, Nat.mod_eq_of_lt inside]
  rfl

theorem reversed_cvtepi8Epi16_high (ha : Reversed a a') :
    Reversed (cvtepi8Epi16 (unpackhi 8 a a)) (VmxInst.unpack .s8 0 a') := by
  apply Reversed.ofLanes (show 2 ∣ 16 by decide)
  intro index inside
  have lane : Vec.lane 1 (unpackhi 8 a a) (16 / 2 - 1 - index) = Vec.lane 1 a (15 - index) := by
    rw [Vec.lane_one, Vec.lane_one, unpackhi_eight a (by omega)]
    congr 2
    omega
  have same := @Reversed.typed a a' ha .s8 (by decide) index
    (by exact Nat.lt_trans inside (by decide))
  rw [Vec.signedLane, lane, Nat.zero_add]
  exact same

theorem reversed_cvtepi16Epi32_high (ha : Reversed a a') :
    Reversed (cvtepi16Epi32 (unpackhi 8 a a)) (VmxInst.unpack .s16 0 a') := by
  apply Reversed.ofLanes (show 4 ∣ 16 by decide)
  intro index inside
  have lane : Vec.lane 2 (unpackhi 8 a a) (16 / 4 - 1 - index) = Vec.lane 2 a (7 - index) := by
    rw [Vec.lane_two, Vec.lane_two, unpackhi_eight a (by omega), unpackhi_eight a (by omega)]
    congr 3
    · omega
    · congr 1
      omega
  have same := @Reversed.typed a a' ha .s16 (by decide) index
    (by exact Nat.lt_trans inside (by decide))
  rw [Vec.signedLane, lane, Nat.zero_add]
  exact same

theorem reversed_cvtepi8Epi16_low (ha : Reversed a a') :
    Reversed (cvtepi8Epi16 a) (VmxInst.unpack .s8 8 a') := by
  apply Reversed.ofLanes (show 2 ∣ 16 by decide)
  intro index inside
  have small : index < 8 := inside
  have same := @Reversed.typed a a' ha .s8 (by decide) (8 + index)
    (show 8 + index < 16 by omega)
  rw [← same, show 16 / IntType.s8.size - 1 - (8 + index) = 16 / 2 - 1 - index from
    show 15 - (8 + index) = 7 - index by omega]
  rfl

theorem reversed_cvtepi16Epi32_low (ha : Reversed a a') :
    Reversed (cvtepi16Epi32 a) (VmxInst.unpack .s16 4 a') := by
  apply Reversed.ofLanes (show 4 ∣ 16 by decide)
  intro index inside
  have small : index < 4 := inside
  have same := @Reversed.typed a a' ha .s16 (by decide) (4 + index)
    (show 4 + index < 8 by omega)
  rw [← same, show 16 / IntType.s16.size - 1 - (4 + index) = 16 / 4 - 1 - index from
    show 7 - (4 + index) = 3 - index by omega]
  rfl

/-! ## Shifts of the whole vector -/

/-- The bytes of a vector that is shifted to the left are those of a number. -/
theorem vsl_apply (a b : Vec) {position : Nat} (inside : position < 16) :
    Emitted.vsl a b position =
      byteOf ((Vec.lane 16 a 0 * 2 ^ ((b 0).toNat % 8) : Nat) : Int) position := by
  have shift : (b 0 &&& 0x7).toNat = (b 0).toNat % 8 := by
    rw [BitVec.toNat_and]
    exact Nat.and_two_pow_sub_one_eq_mod _ 3
  ext bit below
  rw [← BitVec.getLsbD_eq_getElem, ← BitVec.getLsbD_eq_getElem, getLsbD_byteOf _ _ below,
    ← Nat.shiftLeft_eq, Nat.testBit_shiftLeft, Vec.lane, testBit_littleEndian,
    decide_eq_true (by omega : 8 * position + bit - (b 0).toNat % 8 < 8 * 16), Bool.true_and,
    Nat.mul_zero, Nat.zero_add, Emitted.vsl, shift]
  have short : (b 0).toNat % 8 < 8 := Nat.mod_lt _ (by decide)
  generalize (b 0).toNat % 8 = count at short ⊢
  by_cases none : count = 0
  · rw [if_pos none, decide_eq_true (by omega), Bool.true_and]
    congr 2
    · omega
    · omega
  · rw [if_neg none, BitVec.getLsbD_or, BitVec.getLsbD_shiftLeft, decide_eq_true below,
      Bool.true_and]
    by_cases own : count ≤ bit
    · -- The bits of the byte itself; those of the byte below it are shifted out.
      have out : (if position = 0 then 0 else a (position - 1) >>> (8 - count)).getLsbD bit =
          false := by
        split
        · exact BitVec.getLsbD_zero
        · rw [BitVec.getLsbD_ushiftRight]
          exact BitVec.getLsbD_of_ge _ _ (by omega)
      rw [out, Bool.or_false, decide_eq_true (by omega : 8 * position + bit ≥ count),
        Bool.true_and, decide_eq_false (by omega : ¬bit < count), Bool.not_false, Bool.true_and,
        show (8 * position + bit - count) / 8 = position by omega,
        show (8 * position + bit - count) % 8 = bit - count by omega]
    · rw [decide_eq_true (by omega : bit < count), Bool.not_true, Bool.false_and, Bool.false_or]
      by_cases lowest : position = 0
      · rw [if_pos lowest, decide_eq_false (by omega), Bool.false_and]
        exact BitVec.getLsbD_zero
      · rw [if_neg lowest, BitVec.getLsbD_ushiftRight, decide_eq_true (by omega), Bool.true_and,
          show (8 * position + bit - count) / 8 = position - 1 by omega,
          show (8 * position + bit - count) % 8 = 8 - count + bit by omega]

theorem reversed_vsl (ha : Reversed a a') (hb : Reversed b b') :
    Reversed (Emitted.vsl a b) (BigVec.ofLanes 16 fun _ =>
      BigVec.lane 16 a' 0 * 2 ^ ((b' 15).toNat % 8)) := by
  intro position inside
  have number := ha.lane (show 16 ∣ 16 by decide) (show 0 < 16 / 16 by decide)
  have count : b 0 = b' 15 := hb.apply (by decide)
  rw [vsl_apply a b (by omega), show Vec.lane 16 a 0 = BigVec.lane 16 a' 0 from number, count,
    BigVec.ofLanes, Nat.mod_eq_of_lt inside]
  push_cast
  rfl

/-- A byte of one half that is shifted to the right by fewer bits than it has. -/
theorem getLsbD_srlEpi64 {vec count : Vec} {shift : Nat} (known : Vec.lane 8 count 0 = shift)
    (short : shift < 8) (position : Nat) {bit : Nat} (below : bit < 8) :
    (srlEpi64 vec count position).getLsbD bit =
      (decide (8 * (position % 8) + bit + shift < 64) &&
        (vec (position + (bit + shift) / 8)).getLsbD ((bit + shift) % 8)) := by
  rw [srlEpi64, Vec.ofLanes, known, if_pos (by omega), getLsbD_byteOf _ _ below,
    Nat.testBit_div_two_pow, Vec.lane, testBit_littleEndian,
    show 8 * (position / 8) + (8 * (position % 8) + bit + shift) / 8 =
      position + (bit + shift) / 8 by omega,
    show (8 * (position % 8) + bit + shift) % 8 = (bit + shift) % 8 by omega]

/-- The bytes of a vector that is shifted to the right are those of a number. -/
theorem vsr_apply (a b : Vec) {position : Nat} (inside : position < 16) :
    Emitted.vsr a b position =
      byteOf ((Vec.lane 16 a 0 / 2 ^ ((b 0).toNat % 8) : Nat) : Int) position := by
  have low : Vec.lane 8 (srliEpi64 61 (slliEpi64 61 b)) 0 = (b 0).toNat % 8 := by
    have shifted := @Vec.lane_ofLanes 8 (fun index => Vec.lane 8 b index * 2 ^ 61) 0
    have back := @Vec.lane_ofLanes 8
      (fun index => (Vec.lane 8 (slliEpi64 61 b) index / 2 ^ 61 : Nat)) 0
    have first : Vec.lane 8 b 0 = (b 0).toNat + 256 * littleEndian b 1 7 := rfl
    change (Vec.lane 8 (slliEpi64 61 b) 0 : Int) = _ at shifted
    change (Vec.lane 8 (srliEpi64 61 (slliEpi64 61 b)) 0 : Int) = _ at back
    omega
  have short : (b 0).toNat % 8 < 8 := Nat.mod_lt _ (by decide)
  ext bit below
  rw [← BitVec.getLsbD_eq_getElem, ← BitVec.getLsbD_eq_getElem, getLsbD_byteOf _ _ below,
    Nat.testBit_div_two_pow, Vec.lane, testBit_littleEndian, Nat.mul_zero, Nat.zero_add]
  have index : (8 * position + bit + (b 0).toNat % 8) / 8 =
      position + (bit + (b 0).toNat % 8) / 8 := by omega
  have offset : (8 * position + bit + (b 0).toNat % 8) % 8 = (bit + (b 0).toNat % 8) % 8 := by
    omega
  rw [index, offset]
  simp only [Emitted.vsr, insertPs0x10]
  by_cases second : position / 4 = 1
  · -- The second word takes its upper bits from the third one.
    rw [if_pos second, getLsbD_srlEpi64 low short _ below, decide_eq_true (by omega),
      decide_eq_true (by omega), srliSi128, if_pos (by omega)]
    congr 3
    omega
  · rw [if_neg second, getLsbD_srlEpi64 low short _ below]
    congr 1
    exact decide_eq_decide.mpr (by omega)

theorem reversed_vsr (ha : Reversed a a') (hb : Reversed b b') :
    Reversed (Emitted.vsr a b) (BigVec.ofLanes 16 fun _ =>
      (BigVec.lane 16 a' 0 / 2 ^ ((b' 15).toNat % 8) : Nat)) := by
  intro position inside
  have number := ha.lane (show 16 ∣ 16 by decide) (show 0 < 16 / 16 by decide)
  have count : b 0 = b' 15 := hb.apply (by decide)
  rw [vsr_apply a b (by omega), show Vec.lane 16 a 0 = BigVec.lane 16 a' 0 from number, count,
    BigVec.ofLanes, Nat.mod_eq_of_lt inside]

end Intrinsics

end UfcRecomp.Recompiler
