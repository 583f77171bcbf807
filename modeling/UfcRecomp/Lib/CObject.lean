import UfcRecomp.Lib.Bytes
import Mathlib.Data.Int.Bitwise
import Mathlib.Tactic.Ring

/-!
# Objects of C++ programs

An object is a sequence of bytes. A place is an integer of some type in an object, with its least
significant byte first; the members of a union are places of one object. Converting a number to
a type keeps it modulo a power of two.
-/

namespace UfcRecomp.Lib

/-! ## Integer types -/

/-- An integer type: how many bytes it has, and whether it has a sign. -/
structure IntType where
  size : Nat
  signed : Bool
  deriving DecidableEq

namespace IntType

@[reducible] def u8 : IntType := ⟨1, false⟩
@[reducible] def u16 : IntType := ⟨2, false⟩
@[reducible] def u32 : IntType := ⟨4, false⟩
@[reducible] def u64 : IntType := ⟨8, false⟩
@[reducible] def u128 : IntType := ⟨16, false⟩
@[reducible] def s8 : IntType := ⟨1, true⟩
@[reducible] def s16 : IntType := ⟨2, true⟩
@[reducible] def s32 : IntType := ⟨4, true⟩
@[reducible] def s64 : IntType := ⟨8, true⟩
@[reducible] def s128 : IntType := ⟨16, true⟩

/-- The bits of a type. -/
@[reducible] def width (type : IntType) : Nat := 8 * type.size

/-- Conversion to a type. -/
def wrap (type : IntType) (number : Int) : Int :=
  if type.signed then
    (number + 2 ^ (type.width - 1)) % 2 ^ type.width - 2 ^ (type.width - 1)
  else
    number % 2 ^ type.width

/-- Whether a type has a number. -/
def Holds (type : IntType) (number : Int) : Prop := type.wrap number = number

instance (type : IntType) (number : Int) : Decidable (type.Holds number) :=
  inferInstanceAs (Decidable (_ = _))

/-- The smallest and the largest number of a type. -/
def min (type : IntType) : Int := if type.signed then -2 ^ (type.width - 1) else 0

def max (type : IntType) : Int :=
  if type.signed then 2 ^ (type.width - 1) - 1 else 2 ^ type.width - 1

/-- The integral promotion: what is smaller than `int` becomes `int`. -/
def promote (type : IntType) : IntType := if type.size < 4 then s32 else type

/-- The type of two operands after the usual arithmetic conversions: the larger one, and of
types of one size the unsigned one. -/
def common (left right : IntType) : IntType :=
  if left.promote.size < right.promote.size then right.promote
  else if right.promote.size < left.promote.size then left.promote
  else ⟨left.promote.size, left.promote.signed && right.promote.signed⟩

/-- The result of an operation. A type with a sign has none that it cannot hold: there the
program has no meaning. -/
def result (type : IntType) (number : Int) : Option Int :=
  if type.signed then
    if type.Holds number then some number else none
  else
    some (type.wrap number)

/-- An operation on the bits of two numbers. -/
def bitwise (type : IntType) (op : ∀ width, BitVec width → BitVec width → BitVec width)
    (left right : Int) : Int :=
  type.wrap (op type.width (BitVec.ofInt _ left) (BitVec.ofInt _ right)).toNat

@[simp] theorem promote_mk (size : Nat) (signed : Bool) :
    promote ⟨size, signed⟩ = if size < 4 then s32 else ⟨size, signed⟩ := rfl

@[simp] theorem common_mk {size other : Nat} {signed otherSigned : Bool} (large : 4 ≤ size)
    (otherLarge : 4 ≤ other) :
    common ⟨size, signed⟩ ⟨other, otherSigned⟩ =
      if size < other then ⟨other, otherSigned⟩
      else if other < size then ⟨size, signed⟩
      else ⟨size, signed && otherSigned⟩ := by
  simp [common, Nat.not_lt.mpr large, Nat.not_lt.mpr otherLarge]

@[simp] theorem common_small_left {size : Nat} {signed : Bool} (small : size < 4)
    (right : IntType) : common ⟨size, signed⟩ right = common s32 right := by
  have promoted : promote ⟨size, signed⟩ = promote s32 := if_pos small
  simp only [common, promoted]

@[simp] theorem common_small_right {size : Nat} {signed : Bool} (left : IntType)
    (small : size < 4) : common left ⟨size, signed⟩ = common left s32 := by
  have promoted : promote ⟨size, signed⟩ = promote s32 := if_pos small
  simp only [common, promoted]

/-- Nothing of at most its size changes the type `uint64_t`. -/
theorem common_u64 {type : IntType} (small : type.size ≤ 8) : common type .u64 = .u64 := by
  have promoted : type.promote.size ≤ 8 := by
    unfold promote
    split
    · decide
    · exact small
  simp only [common, promote_mk, Nat.reduceLT, if_false, Bool.and_false]
  split
  · rfl
  · rw [if_neg (by omega), show type.promote.size = 8 by omega]

@[simp] theorem wrap_unsigned (size : Nat) (number : Int) :
    wrap ⟨size, false⟩ number = number % 2 ^ (8 * size) :=
  if_neg Bool.false_ne_true

theorem wrap_signed (size : Nat) (number : Int) :
    wrap ⟨size, true⟩ number =
      (number + 2 ^ (8 * size - 1)) % 2 ^ (8 * size) - 2 ^ (8 * size - 1) :=
  if_pos (Eq.refl true)

@[simp] theorem result_unsigned (size : Nat) (number : Int) :
    result ⟨size, false⟩ number = some (number % 2 ^ (8 * size)) := by
  rw [← wrap_unsigned]
  exact if_neg Bool.false_ne_true

theorem result_signed (size : Nat) (number : Int) :
    result ⟨size, true⟩ number = if Holds ⟨size, true⟩ number then some number else none :=
  if_pos (Eq.refl true)

/-- A number that a signed type has is the result. -/
theorem result_of_holds {type : IntType} {number : Int} (fits : type.Holds number) :
    type.result number = some number := by
  obtain ⟨size, _ | _⟩ := type
  · rw [result_unsigned, ← wrap_unsigned, show wrap _ number = number from fits]
  · rw [result_signed, if_pos fits]

/-- An operation on signed numbers has the exact result or none. -/
theorem result_cases (size : Nat) (number : Int) :
    result ⟨size, true⟩ number = some number ∧ Holds ⟨size, true⟩ number ∨
      result ⟨size, true⟩ number = none ∧ ¬Holds ⟨size, true⟩ number := by
  by_cases fits : Holds ⟨size, true⟩ number
  · exact .inl ⟨result_of_holds fits, fits⟩
  · exact .inr ⟨(result_signed size number).trans (if_neg fits), fits⟩

theorem holds_s32_iff (number : Int) : Holds s32 number ↔ -2 ^ 31 ≤ number ∧ number < 2 ^ 31 := by
  rw [Holds, wrap_signed]
  omega

theorem holds_s64_iff (number : Int) : Holds s64 number ↔ -2 ^ 63 ≤ number ∧ number < 2 ^ 63 := by
  rw [Holds, wrap_signed]
  omega

/-- A type has the numbers between the smallest and the largest one. -/
theorem holds_iff {type : IntType} (large : 0 < type.size) (number : Int) :
    type.Holds number ↔ type.min ≤ number ∧ number ≤ type.max := by
  obtain ⟨size, _ | _⟩ := type
  · have pos : (0 : Int) < 2 ^ (8 * size) := Int.pow_pos (by decide)
    rw [Holds, wrap_unsigned]
    simp only [min, max, width, Bool.false_eq_true, if_false]
    constructor
    · intro same
      have above := Int.emod_nonneg number (Int.ne_of_gt pos)
      have below := Int.emod_lt_of_pos number pos
      omega
    · rintro ⟨above, below⟩
      exact Int.emod_eq_of_lt above (by omega)
  · have pos : (0 : Int) < 2 ^ (8 * size - 1) := Int.pow_pos (by decide)
    have double : (2 : Int) ^ (8 * size) = 2 * 2 ^ (8 * size - 1) := by
      rw [← pow_succ', show 8 * size - 1 + 1 = 8 * size by simp only at large; omega]
    rw [Holds, wrap_signed, double]
    simp only [min, max, width, if_true]
    generalize (2 : Int) ^ (8 * size - 1) = half at pos ⊢
    constructor
    · intro same
      have above := Int.emod_nonneg (number + half) (show 2 * half ≠ 0 by omega)
      have below := Int.emod_lt_of_pos (number + half) (show (0 : Int) < 2 * half by omega)
      omega
    · rintro ⟨above, below⟩
      rw [Int.emod_eq_of_lt (by omega) (by omega)]
      omega

/-- The numbers of a type from zero on. -/
theorem holds_natCast_iff {type : IntType} (large : 0 < type.size) (number : Nat) :
    type.Holds number ↔ number < 2 ^ (if type.signed then type.width - 1 else type.width) := by
  obtain ⟨size, _ | _⟩ := type
  · have pos : (0 : Int) < 2 ^ (8 * size) := Int.pow_pos (by decide)
    have whole : (2 : Int) ^ (8 * size) = ((2 ^ (8 * size) : Nat) : Int) := by norm_cast
    rw [Holds, wrap_unsigned, whole]
    simp only [Bool.false_eq_true, if_false, width]
    constructor
    · intro same
      have below := Int.emod_lt_of_pos (number : Int) (whole ▸ pos)
      omega
    · intro below
      exact Int.emod_eq_of_lt (by omega) (by omega)
  · have pos : (0 : Int) < 2 ^ (8 * size - 1) := Int.pow_pos (by decide)
    have double : (2 : Int) ^ (8 * size) = 2 * 2 ^ (8 * size - 1) := by
      rw [← pow_succ', show 8 * size - 1 + 1 = 8 * size by simp only at large; omega]
    have whole : (2 : Int) ^ (8 * size - 1) = ((2 ^ (8 * size - 1) : Nat) : Int) := by norm_cast
    rw [Holds, wrap_signed, double, whole]
    rw [whole] at pos
    simp only [if_true, width]
    constructor
    · intro same
      have below := Int.emod_lt_of_pos ((number : Int) + ((2 ^ (8 * size - 1) : Nat) : Int))
        (show (0 : Int) < 2 * ((2 ^ (8 * size - 1) : Nat) : Int) by omega)
      omega
    · intro below
      rw [Int.emod_eq_of_lt (by omega) (by omega)]
      omega

theorem holds_zero {type : IntType} (large : 0 < type.size) : type.Holds 0 :=
  (holds_natCast_iff large 0).mpr (Nat.two_pow_pos _)

theorem bitwise_natCast {type : IntType}
    {op : ∀ width, BitVec width → BitVec width → BitVec width} {left right number : Nat}
    (meaning : (op type.width (BitVec.ofNat _ left) (BitVec.ofNat _ right)).toNat = number)
    (fits : type.Holds number) : type.bitwise op left right = number := by
  rw [bitwise, BitVec.ofInt_natCast, BitVec.ofInt_natCast, meaning]
  exact fits

theorem lt_of_holds {type : IntType} (size : 0 < type.size) {number : Nat}
    (fits : type.Holds number) : number < 2 ^ type.width := by
  apply Nat.lt_of_lt_of_le ((holds_natCast_iff size number).mp fits)
  apply Nat.pow_le_pow_right (by decide)
  split <;> omega

theorem bitwise_and {type : IntType} (size : 0 < type.size) {left right : Nat}
    (leftFits : type.Holds left) (rightFits : type.Holds right) :
    type.bitwise (fun _ => (· &&& ·)) left right = ((left &&& right : Nat) : Int) := by
  apply bitwise_natCast
  · rw [BitVec.toNat_and, BitVec.toNat_ofNat, BitVec.toNat_ofNat,
      Nat.mod_eq_of_lt (lt_of_holds size leftFits), Nat.mod_eq_of_lt (lt_of_holds size rightFits)]
  · rw [holds_natCast_iff size] at leftFits ⊢
    exact Nat.lt_of_le_of_lt Nat.and_le_left leftFits

theorem bitwise_or {type : IntType} (size : 0 < type.size) {left right : Nat}
    (leftFits : type.Holds left) (rightFits : type.Holds right) :
    type.bitwise (fun _ => (· ||| ·)) left right = ((left ||| right : Nat) : Int) := by
  apply bitwise_natCast
  · rw [BitVec.toNat_or, BitVec.toNat_ofNat, BitVec.toNat_ofNat,
      Nat.mod_eq_of_lt (lt_of_holds size leftFits), Nat.mod_eq_of_lt (lt_of_holds size rightFits)]
  · rw [holds_natCast_iff size] at leftFits rightFits ⊢
    exact Nat.or_lt_two_pow leftFits rightFits

/-- A conversion keeps the number modulo the power of two. -/
theorem wrap_emod (type : IntType) (number : Int) :
    type.wrap number % 2 ^ type.width = number % 2 ^ type.width := by
  unfold wrap
  split
  · rw [Int.sub_emod, Int.emod_emod, ← Int.sub_emod, Int.add_sub_cancel]
  · rw [Int.emod_emod]

/-- A conversion depends on the number modulo the power of two. -/
theorem wrap_congr {type : IntType} {left right : Int}
    (same : left % 2 ^ type.width = right % 2 ^ type.width) : type.wrap left = type.wrap right := by
  unfold wrap
  split
  · rw [Int.add_emod, same, ← Int.add_emod]
  · exact same

@[simp] theorem wrap_wrap (type : IntType) (number : Int) :
    type.wrap (type.wrap number) = type.wrap number :=
  wrap_congr (type.wrap_emod number)

theorem holds_wrap (type : IntType) (number : Int) : type.Holds (type.wrap number) :=
  type.wrap_wrap number

/-- Converting to a wider type first makes no difference. -/
theorem wrap_wrap_of_le {narrow wide : IntType} (order : narrow.size ≤ wide.size) (number : Int) :
    narrow.wrap (wide.wrap number) = narrow.wrap number := by
  apply wrap_congr
  have divides : (2 : Int) ^ narrow.width ∣ 2 ^ wide.width :=
    pow_dvd_pow 2 (Nat.mul_le_mul_left 8 order)
  rw [← Int.emod_emod_of_dvd _ divides, wide.wrap_emod, Int.emod_emod_of_dvd _ divides]

end IntType

/-! ## Bytes of numbers -/

/-- The number that bytes stand for, least significant byte first. -/
def littleEndian (bytes : Nat → Byte) : Nat → Nat → Nat
  | _, 0 => 0
  | start, count + 1 => (bytes start).toNat + 256 * littleEndian bytes (start + 1) count

/-- A byte of a number. -/
def byteOf (number : Int) (index : Nat) : Byte := BitVec.ofInt 8 (number / 256 ^ index)

/-- Only the bytes of a number matter. -/
theorem littleEndian_congr {left right : Nat → Byte} {start count : Nat}
    (same : ∀ position, start ≤ position → position < start + count →
      left position = right position) :
    littleEndian left start count = littleEndian right start count := by
  induction count generalizing start with
  | zero => rfl
  | succ count ih =>
      rw [littleEndian, littleEndian, same start (by omega) (by omega)]
      rw [ih fun position above below => same position (by omega) (by omega)]

/-- A number split after some of its bytes. -/
theorem littleEndian_add (bytes : Nat → Byte) (start low high : Nat) :
    littleEndian bytes start (low + high) =
      littleEndian bytes start low + 256 ^ low * littleEndian bytes (start + low) high := by
  induction low generalizing start with
  | zero => simp [littleEndian]
  | succ low ih =>
      rw [show low + 1 + high = low + high + 1 by omega, littleEndian, littleEndian, ih,
        show start + 1 + low = start + (low + 1) by omega, Nat.pow_succ]
      ring

theorem littleEndian_lt (bytes : Nat → Byte) (start count : Nat) :
    littleEndian bytes start count < 256 ^ count := by
  induction count generalizing start with
  | zero => simp [littleEndian]
  | succ count ih =>
      have low := (bytes start).isLt
      have high := ih (start + 1)
      rw [littleEndian, Nat.pow_succ]
      omega

/-- The lower bytes of a number. -/
theorem littleEndian_mod (bytes : Nat → Byte) (start : Nat) {low count : Nat} (few : low ≤ count) :
    littleEndian bytes start count % 256 ^ low = littleEndian bytes start low := by
  obtain ⟨high, rfl⟩ := Nat.exists_eq_add_of_le few
  rw [littleEndian_add, Nat.add_mul_mod_self_left,
    Nat.mod_eq_of_lt (littleEndian_lt bytes start low)]

/-- A remainder, split after the lowest byte. -/
theorem emod_byte_mul (number modulus : Int) :
    number % (256 * modulus) = number % 256 + 256 * (number / 256 % modulus) := by
  rw [Int.emod_def, Int.emod_def number 256, Int.emod_def (number / 256),
    Int.ediv_ediv_of_nonneg (by decide)]
  ring

/-- The bytes of a number give it back, up to those that were dropped. -/
theorem littleEndian_byteOf (number : Int) (start count : Nat) :
    (littleEndian (fun position => byteOf number (position - start)) start count : Int) =
      number % 256 ^ count := by
  induction count generalizing number start with
  | zero => simp [littleEndian]
  | succ count ih =>
      have low : ((byteOf number (start - start)).toNat : Int) = number % 256 := by
        rw [byteOf, Nat.sub_self, pow_zero, Int.ediv_one, BitVec.toNat_ofInt]
        omega
      have rest : littleEndian (fun position => byteOf number (position - start)) (start + 1) count =
          littleEndian (fun position => byteOf (number / 256) (position - (start + 1)))
            (start + 1) count := by
        apply littleEndian_congr
        intro position above _
        rw [byteOf, byteOf, Int.ediv_ediv_of_nonneg (by decide), ← pow_succ',
          show position - start = position - (start + 1) + 1 by omega]
      rw [littleEndian, Nat.cast_add, Nat.cast_mul, low, rest, ih, pow_succ', emod_byte_mul]
      rfl

/-! ## Objects -/

/-- The bytes of every object. -/
abbrev Store (κ : Type) := κ → Nat → Byte

/-- An integer in an object. -/
structure Place (κ : Type) where
  object : κ
  offset : Nat
  type : IntType
  deriving DecidableEq

namespace Place

variable {κ : Type}

/-- Whether a byte of an object belongs to a place. -/
def Covers (place : Place κ) (object : κ) (position : Nat) : Prop :=
  object = place.object ∧ place.offset ≤ position ∧ position < place.offset + place.type.size

instance [DecidableEq κ] (place : Place κ) (object : κ) (position : Nat) :
    Decidable (place.Covers object position) :=
  inferInstanceAs (Decidable (_ ∧ _))

end Place

namespace Store

variable {κ : Type} {store : Store κ} {place other : Place κ}

def read (store : Store κ) (place : Place κ) : Int :=
  place.type.wrap (littleEndian (store place.object) place.offset place.type.size)

/-- A place has a number of its type. -/
theorem holds_read (store : Store κ) (place : Place κ) : place.type.Holds (store.read place) :=
  place.type.holds_wrap _

/-- A byte that is read. -/
theorem ofInt_read_byte (store : Store κ) (object : κ) (offset : Nat) :
    BitVec.ofInt 8 (store.read ⟨object, offset, .u8⟩) = store object offset := by
  have bound := (store object offset).isLt
  apply BitVec.eq_of_toNat_eq
  rw [read, IntType.wrap_unsigned, BitVec.toNat_ofInt]
  simp only [littleEndian]
  omega

/-- A narrower member of a union. -/
theorem read_narrow {object : κ} {offset : Nat} {narrow wide : IntType}
    (order : narrow.size ≤ wide.size) :
    store.read ⟨object, offset, narrow⟩ = narrow.wrap (store.read ⟨object, offset, wide⟩) := by
  simp only [read]
  rw [IntType.wrap_wrap_of_le order]
  apply IntType.wrap_congr
  have low := littleEndian_mod (store object) offset order
  rw [IntType.width, pow_mul, ← low]
  push_cast
  exact Int.emod_emod_of_dvd _ dvd_rfl

variable [DecidableEq κ]

/-- Assign a number, which is converted to the type of the place. -/
def write (store : Store κ) (place : Place κ) (number : Int) : Store κ :=
  fun object position =>
    if place.Covers object position then byteOf number (position - place.offset)
    else store object position

/-- A byte that is not assigned to. -/
theorem write_of_not_covers {object : κ} {position : Nat} {number : Int}
    (apart : ¬place.Covers object position) :
    store.write place number object position = store object position :=
  if_neg apart

/-- Another object is not assigned to. -/
theorem write_of_ne {object : κ} {number : Int} (apart : object ≠ place.object) :
    store.write place number object = store object := by
  ext position
  rw [write_of_not_covers fun covers => apart covers.1]

/-- A byte that is assigned to. -/
theorem write_byte (store : Store κ) (object : κ) (offset : Nat) (number : Int) :
    store.write ⟨object, offset, .u8⟩ number =
      fun other position =>
        if other = object ∧ position = offset then BitVec.ofInt 8 number
        else store other position := by
  funext other position
  have same : (⟨object, offset, .u8⟩ : Place κ).Covers other position ↔
      other = object ∧ position = offset :=
    and_congr_right fun _ => ⟨fun covers => Nat.le_antisymm (Nat.le_of_lt_succ covers.2) covers.1,
      fun here => ⟨Nat.le_of_eq here.symm, Nat.lt_succ_of_le (Nat.le_of_eq here)⟩⟩
  by_cases here : other = object ∧ position = offset
  · rw [write, if_pos (same.mpr here), if_pos here, here.2, byteOf, Nat.sub_self, pow_zero,
      Int.ediv_one]
  · rw [write, if_neg (mt same.mp here), if_neg here]

/-- A place of an object that is not assigned to. -/
theorem read_write_of_ne {number : Int} (apart : other.object ≠ place.object) :
    (store.write place number).read other = store.read other := by
  rw [read, write_of_ne apart, read]

/-- The number that was assigned, read as a type that is not wider. -/
theorem read_write_of_le {object : κ} {offset : Nat} {narrow wide : IntType} {number : Int}
    (order : narrow.size ≤ wide.size) :
    (store.write ⟨object, offset, wide⟩ number).read ⟨object, offset, narrow⟩ =
      narrow.wrap number := by
  have bytes : littleEndian (store.write ⟨object, offset, wide⟩ number object) offset narrow.size =
      littleEndian (fun position => byteOf number (position - offset)) offset narrow.size :=
    littleEndian_congr fun position above below =>
      if_pos ⟨rfl, above, by simp only; omega⟩
  rw [read, bytes]
  apply IntType.wrap_congr
  rw [littleEndian_byteOf, IntType.width, pow_mul]
  exact Int.emod_emod_of_dvd _ dvd_rfl

/-- The number that was assigned. -/
theorem read_write (number : Int) :
    (store.write place number).read place = place.type.wrap number :=
  read_write_of_le (Nat.le_refl _)

end Store

end UfcRecomp.Lib
