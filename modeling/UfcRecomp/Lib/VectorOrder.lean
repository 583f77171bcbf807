import UfcRecomp.Lib.Simd

/-!
# Vectors of the other byte order

A vector with its most significant byte first, and the reversed vector that holds it on a host with
its least significant byte first. Both have the same lanes, counted from opposite ends.
-/

namespace UfcRecomp.Lib

/-! ## Bytes of numbers -/

/-- The number that bytes stand for, most significant byte first. -/
def bigEndian (bytes : Nat → Byte) (start : Nat) : Nat → Nat
  | 0 => 0
  | count + 1 => 256 * bigEndian bytes start count + (bytes (start + count)).toNat

/-- Bytes in reverse stand for the same number. -/
theorem littleEndian_eq_bigEndian {left right : Nat → Byte} {low high count : Nat}
    (reversed : ∀ offset < count, left (low + offset) = right (high + (count - 1 - offset))) :
    littleEndian left low count = bigEndian right high count := by
  induction count generalizing low with
  | zero => rfl
  | succ count ih =>
      have first : left low = right (high + count) := reversed 0 (Nat.succ_pos count)
      have rest : littleEndian left (low + 1) count = bigEndian right high count := by
        apply ih
        intro offset below
        have next := reversed (offset + 1) (Nat.succ_lt_succ below)
        rw [show low + 1 + offset = low + (offset + 1) by omega, next]
        congr 2
        omega
      rw [littleEndian, bigEndian, rest, first, Nat.add_comm]

theorem bigEndian_congr {left right : Nat → Byte} {low high count : Nat}
    (same : ∀ offset < count, left (low + offset) = right (high + offset)) :
    bigEndian left low count = bigEndian right high count := by
  induction count with
  | zero => rfl
  | succ count ih =>
      rw [bigEndian, bigEndian, same count (Nat.lt_succ_self count),
        ih fun offset below => same offset (Nat.lt_succ_of_lt below)]

/-- A bit of a number is a bit of one of its bytes. -/
theorem testBit_littleEndian (bytes : Nat → Byte) (start count bit : Nat) :
    (littleEndian bytes start count).testBit bit =
      (decide (bit < 8 * count) && (bytes (start + bit / 8)).getLsbD (bit % 8)) := by
  induction count generalizing start bit with
  | zero => simp [littleEndian]
  | succ count ih =>
      have small := (bytes start).isLt
      rw [littleEndian, Nat.add_comm, show 256 = 2 ^ 8 from rfl,
        Nat.testBit_two_pow_mul_add _ small]
      split
      next low =>
        rw [Nat.div_eq_of_lt low, Nat.mod_eq_of_lt low, decide_eq_true (by omega), Bool.true_and]
        rfl
      next high =>
        rw [ih, show start + 1 + (bit - 8) / 8 = start + bit / 8 by omega,
          show (bit - 8) % 8 = bit % 8 by omega]
        congr 1
        exact decide_eq_decide.mpr (by omega)

/-- A bit of a byte is a bit of the number. -/
theorem getLsbD_byteOf (number index : Nat) {bit : Nat} (inside : bit < 8) :
    (byteOf number index).getLsbD bit = number.testBit (8 * index + bit) := by
  have cast : (number : Int) / 256 ^ index = ((number / 2 ^ (8 * index) : Nat) : Int) := by
    rw [pow_mul]
    norm_cast
  rw [byteOf, cast, BitVec.ofInt_natCast, BitVec.getLsbD_ofNat, decide_eq_true inside,
    Bool.true_and, Nat.testBit_div_two_pow, Nat.add_comm]

/-- The bytes of a number that bytes stand for. -/
theorem byteOf_littleEndian (bytes : Nat → Byte) (start : Nat) {count index : Nat}
    (inside : index < count) : byteOf (littleEndian bytes start count) index =
      bytes (start + index) := by
  ext bit below
  rw [← BitVec.getLsbD_eq_getElem, ← BitVec.getLsbD_eq_getElem, getLsbD_byteOf _ _ below,
    testBit_littleEndian, decide_eq_true (by omega), Bool.true_and]
  congr 2
  · omega
  · omega

theorem byteOf_bigEndian (bytes : Nat → Byte) (start : Nat) {count index : Nat}
    (inside : index < count) :
    byteOf (bigEndian bytes start count) (count - 1 - index) = bytes (start + index) := by
  have mirrored : littleEndian (fun position => bytes (start + (count - 1 - position))) 0 count =
      bigEndian bytes start count :=
    littleEndian_eq_bigEndian fun offset _ => by rw [Nat.zero_add]
  rw [← mirrored, byteOf_littleEndian _ _ (by omega)]
  congr 2
  omega

/-- The bytes of a number are its bytes modulo a power. -/
theorem byteOf_emod (number : Int) {count index : Nat} (inside : index < count) :
    byteOf (number % 256 ^ count) index = byteOf number index := by
  obtain ⟨more, rfl⟩ := Nat.exists_eq_add_of_lt inside
  have pos : (0 : Int) < 256 ^ index := Int.pow_pos (by decide)
  have split : number % 256 ^ (index + more + 1) =
      number - 256 ^ index * (256 * (256 ^ more * (number / 256 ^ (index + more + 1)))) := by
    rw [Int.emod_def]
    ring
  rw [byteOf, byteOf, split, Int.sub_mul_ediv_left _ _ (Int.ne_of_gt pos)]
  apply BitVec.eq_of_toInt_eq
  rw [BitVec.toInt_ofInt, BitVec.toInt_ofInt, Int.bmod_def, Int.bmod_def]
  omega

/-! ## Lanes -/

/-- The bytes of a vector, the first one the most significant. -/
abbrev BigVec := Nat → Byte

namespace BigVec

/-- A lane, without a sign. -/
def lane (size : Nat) (vec : BigVec) (index : Nat) : Nat := bigEndian vec (size * index) size

/-- A lane, as a number of a type. -/
def typed (type : IntType) (vec : BigVec) (index : Nat) : Int :=
  type.wrap (lane type.size vec index)

/-- The vector with some lanes. -/
def ofLanes (size : Nat) (lanes : Nat → Int) : BigVec :=
  fun position => byteOf (lanes (position / size)) (size - 1 - position % size)

/-- The bytes of two vectors, one after the other. -/
def append (first second : BigVec) : BigVec :=
  fun position => if position < 16 then first position else second (position - 16)

end BigVec

namespace BigVec

/-- The lanes of the first vector. -/
theorem lane_append_left {size index : Nat} (inside : index < 16 / size) (first second : BigVec) :
    lane size (append first second) index = lane size first index := by
  have bound := Vec.lane_end inside
  apply bigEndian_congr
  intro offset below
  exact if_pos (by omega)

/-- The lanes of the second vector. -/
theorem lane_append_right {size : Nat} (lanes : size ∣ 16) (index : Nat) (first second : BigVec) :
    lane size (append first second) (16 / size + index) = lane size second index := by
  have whole : size * (16 / size + index) = 16 + size * index := by
    rw [Nat.mul_add, Nat.mul_div_cancel' lanes]
  apply bigEndian_congr
  intro offset _
  rw [append, whole, if_neg (by omega)]
  congr 1
  omega

end BigVec

/-- A vector of the host holds a vector in reverse. -/
def Reversed (vec : Vec) (other : BigVec) : Prop :=
  ∀ position < 16, vec (15 - position) = other position

namespace Reversed

variable {vec left right : Vec} {other : BigVec} {size : Nat}

theorem apply (reversed : Reversed vec other) {position : Nat} (inside : position < 16) :
    vec position = other (15 - position) := by
  rw [← reversed (15 - position) (by omega)]
  congr 1
  omega

/-- Only the bytes of the vector matter. -/
theorem congr (reversed : Reversed left other)
    (same : ∀ position < 16, right position = left position) : Reversed right other :=
  fun position inside => (same _ (by omega)).trans (reversed position inside)

/-- Where the bytes of a lane are, counted from the other end. -/
theorem mirror (lanes : size ∣ 16) {index offset : Nat} (inside : index < 16 / size)
    (below : offset < size) :
    size * (16 / size - 1 - index) + offset = 15 - (size * index + (size - 1 - offset)) := by
  have whole : size * (16 / size) = 16 := Nat.mul_div_cancel' lanes
  have last : size * (16 / size - 1 - index) + size * (index + 1) = 16 := by
    rw [← Nat.mul_add, show 16 / size - 1 - index + (index + 1) = 16 / size by omega, whole]
  rw [Nat.mul_succ] at last
  omega

/-- The lanes are the same, in reverse. -/
theorem lane (reversed : Reversed vec other) (lanes : size ∣ 16) {index : Nat}
    (inside : index < 16 / size) :
    Vec.lane size vec (16 / size - 1 - index) = BigVec.lane size other index := by
  apply littleEndian_eq_bigEndian
  intro offset below
  have bound := Vec.lane_end inside
  rw [mirror lanes inside below, reversed _ (by omega)]

theorem typed (reversed : Reversed vec other) {type : IntType} (lanes : type.size ∣ 16)
    {index : Nat} (inside : index < 16 / type.size) :
    Vec.typed type vec (16 / type.size - 1 - index) = BigVec.typed type other index := by
  rw [Vec.typed, BigVec.typed, reversed.lane lanes inside]

/-- A vector whose lanes are known. -/
theorem of_lanes (lanes : size ∣ 16) {values : Nat → Int}
    (known : ∀ index < 16 / size,
      (Vec.lane size vec (16 / size - 1 - index) : Int) = values index % 256 ^ size) :
    Reversed vec (BigVec.ofLanes size values) := by
  intro position inside
  have pos : 0 < size := Nat.pos_of_dvd_of_pos lanes (by decide)
  have index : position / size < 16 / size := Nat.div_lt_div_of_lt_of_dvd lanes inside
  have offset := Nat.mod_lt position pos
  have split := Nat.div_add_mod position size
  have byte := byteOf_littleEndian vec (size * (16 / size - 1 - position / size))
    (show size - 1 - position % size < size by omega)
  rw [mirror lanes index (by omega)] at byte
  rw [BigVec.ofLanes, ← byteOf_emod _ (show size - 1 - position % size < size by omega),
    ← known _ index, Vec.lane, byte]
  congr 1
  omega

/-- Vectors with the same lanes, in reverse. -/
theorem ofLanes (lanes : size ∣ 16) {values mirrored : Nat → Int}
    (same : ∀ index < 16 / size, mirrored (16 / size - 1 - index) = values index) :
    Reversed (Vec.ofLanes size mirrored) (BigVec.ofLanes size values) :=
  of_lanes lanes fun index inside => by rw [Vec.lane_ofLanes, same index inside]

end Reversed

end UfcRecomp.Lib
