import Mathlib.Data.Nat.Bitwise
import UfcRecomp.Lib.CProgram

/-!
# Vectors

A vector is a sequence of bytes, of which the first sixteen count. Operations on it work on lanes,
each of which is an integer with its least significant byte first.
-/

namespace UfcRecomp.Lib

/-- The bytes of a vector. -/
abbrev Vec := Nat → Byte

namespace Vec

/-- A lane, without a sign. -/
def lane (size : Nat) (vec : Vec) (index : Nat) : Nat := littleEndian vec (size * index) size

/-- A lane, with a sign. -/
def signedLane (size : Nat) (vec : Vec) (index : Nat) : Int :=
  IntType.wrap ⟨size, true⟩ (lane size vec index)

/-- A lane, as a number of a type. -/
def typed (type : IntType) (vec : Vec) (index : Nat) : Int := type.wrap (lane type.size vec index)

/-- The vector with some lanes. -/
def ofLanes (size : Nat) (lanes : Nat → Int) : Vec :=
  fun position => byteOf (lanes (position / size)) (position % size)

/-- Whether the top bit of a lane is set. -/
def top (size : Nat) (vec : Vec) (index : Nat) : Bool := (vec (size * index + (size - 1))).msb

/-- The top bits of the lanes. -/
def movemask (size : Nat) (vec : Vec) : Nat :=
  Nat.ofBits fun index : Fin (16 / size) => top size vec index

/-- Lanes with all bits set where something holds, and none elsewhere. -/
def ofTruth (size : Nat) (holds : Nat → Bool) : Vec :=
  ofLanes size fun index => if holds index then -1 else 0

/-- An operation on the lanes of two vectors. -/
def map₂ (size : Nat) (op : Nat → Nat → Int) (left right : Vec) : Vec :=
  ofLanes size fun index => op (lane size left index) (lane size right index)

/-- An operation on the signed lanes of two vectors. -/
def signedMap₂ (size : Nat) (op : Int → Int → Int) (left right : Vec) : Vec :=
  ofLanes size fun index => op (signedLane size left index) (signedLane size right index)

/-- A comparison of the lanes of two vectors. -/
def compare (size : Nat) (holds : Nat → Nat → Bool) (left right : Vec) : Vec :=
  ofTruth size fun index => holds (lane size left index) (lane size right index)

/-- A comparison of the signed lanes of two vectors. -/
def signedCompare (size : Nat) (holds : Int → Int → Bool) (left right : Vec) : Vec :=
  ofTruth size fun index => holds (signedLane size left index) (signedLane size right index)

/-- An operation on the bytes of two vectors. -/
def bytes₂ (op : Byte → Byte → Byte) (left right : Vec) : Vec :=
  fun position => op (left position) (right position)

/-! ## Lanes -/

theorem lane_lt (size : Nat) (vec : Vec) (index : Nat) : lane size vec index < 256 ^ size :=
  littleEndian_lt vec _ size

/-- The lanes of a vector are those that it was made of. -/
theorem lane_ofLanes {size : Nat} (lanes : Nat → Int) (index : Nat) :
    (lane size (ofLanes size lanes) index : Int) = lanes index % 256 ^ size := by
  have bytes : lane size (ofLanes size lanes) index =
      littleEndian (fun position => byteOf (lanes index) (position - size * index))
        (size * index) size := by
    apply littleEndian_congr
    intro position above below
    have quotient : position / size = index :=
      Nat.div_eq_of_lt_le (by rwa [Nat.mul_comm]) (by rw [Nat.succ_mul, Nat.mul_comm]; exact below)
    have split := Nat.div_add_mod position size
    rw [ofLanes, quotient]
    congr 1
    rw [quotient] at split
    omega
  rw [bytes, littleEndian_byteOf]

theorem lane_map₂ (size : Nat) (op : Nat → Nat → Int) (left right : Vec) (index : Nat) :
    (lane size (map₂ size op left right) index : Int) =
      op (lane size left index) (lane size right index) % 256 ^ size :=
  lane_ofLanes _ index

/-- Lanes that are numbers of a type. -/
theorem typed_ofLanes {type : IntType} {lanes : Nat → Int} {index : Nat}
    (fits : type.Holds (lanes index)) :
    typed type (ofLanes type.size lanes) index = lanes index := by
  have same : (lane type.size (ofLanes type.size lanes) index : Int) % 2 ^ type.width =
      lanes index % 2 ^ type.width := by
    rw [lane_ofLanes, IntType.width, pow_mul]
    exact Int.emod_emod _ _
  exact (IntType.wrap_congr same).trans fits

/-- A lane is a number of the type without a sign. -/
theorem typed_unsigned (size : Nat) (vec : Vec) (index : Nat) :
    typed ⟨size, false⟩ vec index = lane size vec index := by
  have bound := lane_lt size vec index
  rw [typed, IntType.wrap_unsigned, pow_mul]
  exact Int.emod_eq_of_lt (Int.natCast_nonneg _) (by exact_mod_cast bound)

/-- The lanes of a vector are in its bytes. -/
theorem lane_congr {size : Nat} {left right : Vec} {index : Nat}
    (same : ∀ position, size * index ≤ position → position < size * index + size →
      left position = right position) : lane size left index = lane size right index :=
  littleEndian_congr same

/-- A byte of a truth value. -/
theorem ofTruth_apply (size : Nat) (holds : Nat → Bool) (position : Nat) :
    ofTruth size holds position = if holds (position / size) then 0xff else 0 := by
  rw [ofTruth, ofLanes, byteOf]
  have pos : (0 : Int) < 256 ^ (position % size) := Int.pow_pos (by decide)
  cases holds (position / size) with
  | false => simp
  | true =>
      have negative : (-1 : Int) / 256 ^ (position % size) = -1 :=
        Int.ediv_eq_neg_one_of_neg_of_le (by decide) (by omega)
      rw [if_pos rfl, negative]
      rfl

theorem top_ofTruth {size : Nat} (pos : 0 < size) (holds : Nat → Bool) (index : Nat) :
    top size (ofTruth size holds) index = holds index := by
  have quotient : (size * index + (size - 1)) / size = index := by
    rw [Nat.mul_add_div pos, Nat.div_eq_of_lt (by omega), Nat.add_zero]
  rw [top, ofTruth_apply, quotient]
  cases holds index <;> rfl

/-- The bytes of a truth value are lanes of it. -/
theorem top_one_ofTruth (size : Nat) (holds : Nat → Bool) (index : Nat) :
    top 1 (ofTruth size holds) index = holds (index / size) := by
  rw [top, ofTruth_apply, Nat.one_mul, Nat.sub_self, Nat.add_zero]
  cases holds (index / size) <;> rfl

/-- A lane within the vector ends within it. -/
theorem lane_end {size index : Nat} (inside : index < 16 / size) : size * index + size ≤ 16 := by
  calc size * index + size = size * (index + 1) := by rw [Nat.mul_succ]
    _ ≤ size * (16 / size) := Nat.mul_le_mul_left size inside
    _ ≤ 16 := Nat.mul_div_le 16 size

/-! ## Masks -/

/-- A mask is in the bytes of a vector. -/
theorem movemask_congr {size : Nat} (pos : 0 < size) {left right : Vec}
    (same : ∀ position < 16, left position = right position) :
    movemask size left = movemask size right := by
  rw [movemask, movemask]
  congr 1
  funext index
  have bound := lane_end index.isLt
  rw [top, top, same _ (by omega)]

theorem movemask_eq_full (size : Nat) (vec : Vec) :
    movemask size vec = 2 ^ (16 / size) - 1 ↔ ∀ index < 16 / size, top size vec index = true := by
  constructor
  · intro full index below
    have bit := congrArg (·.testBit index) full
    simpa [movemask, below] using bit
  · intro all
    apply Nat.eq_of_testBit_eq
    intro index
    rw [movemask, Nat.testBit_ofBits, Nat.testBit_two_pow_sub_one]
    split
    · rw [all index ‹_›]
      simp [*]
    · simp [*]

theorem movemask_eq_zero (size : Nat) (vec : Vec) :
    movemask size vec = 0 ↔ ∀ index < 16 / size, top size vec index = false := by
  constructor
  · intro none index below
    have bit := congrArg (·.testBit index) none
    simpa [movemask, below] using bit
  · intro all
    apply Nat.eq_of_testBit_eq
    intro index
    rw [movemask, Nat.testBit_ofBits, Nat.zero_testBit]
    split
    · exact all index ‹_›
    · rfl

/-- The top bits of truth values, of whole lanes or of all bytes. -/
theorem forall_top_ofTruth {size mask : Nat} (lanes : size ∣ 16) (masks : mask = size ∨ mask = 1)
    (holds : Nat → Bool) (value : Bool) :
    (∀ index < 16 / mask, top mask (ofTruth size holds) index = value) ↔
      ∀ index < 16 / size, holds index = value := by
  have pos : 0 < size := Nat.pos_of_dvd_of_pos lanes (by decide)
  obtain rfl | rfl := masks
  · simp only [top_ofTruth pos]
  · simp only [top_one_ofTruth, Nat.div_one]
    constructor
    · intro all index below
      have byte := all (size * index) (by
        calc size * index < size * (16 / size) := Nat.mul_lt_mul_of_pos_left below pos
          _ ≤ 16 := Nat.mul_div_le 16 size)
      rwa [Nat.mul_div_cancel_left index pos] at byte
    · intro all index below
      exact all _ (Nat.div_lt_div_of_lt_of_dvd lanes below)

theorem movemask_ofTruth_full {size mask : Nat} (lanes : size ∣ 16)
    (masks : mask = size ∨ mask = 1) (holds : Nat → Bool) :
    movemask mask (ofTruth size holds) = 2 ^ (16 / mask) - 1 ↔
      ∀ index < 16 / size, holds index = true :=
  (movemask_eq_full mask _).trans (forall_top_ofTruth lanes masks holds true)

theorem movemask_ofTruth_zero {size mask : Nat} (lanes : size ∣ 16)
    (masks : mask = size ∨ mask = 1) (holds : Nat → Bool) :
    movemask mask (ofTruth size holds) = 0 ↔ ∀ index < 16 / size, holds index = false :=
  (movemask_eq_zero mask _).trans (forall_top_ofTruth lanes masks holds false)

/-! ## Bytes as numbers -/

theorem lane_one (vec : Vec) (index : Nat) : lane 1 vec index = (vec index).toNat := by
  rw [lane, Nat.one_mul]
  exact Nat.add_zero _

theorem lane_two (vec : Vec) (index : Nat) :
    lane 2 vec index = (vec (2 * index)).toNat + 256 * (vec (2 * index + 1)).toNat := rfl

end Vec

end UfcRecomp.Lib
