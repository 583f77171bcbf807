import Mathlib.Algebra.Order.Group.Nat
import Mathlib.Data.List.Induction

/-!
# Byte buffers

A buffer is a list of bytes. Every access names the bytes that it touches and has no
result when one of them lies outside the buffer, so that a computed result is also a
proof that no access left the buffer.
-/

namespace UfcRecomp.Lib

abbrev Byte := BitVec 8

/-- The contents of a buffer. -/
abbrev Bytes := List Byte

namespace Bytes

/-- The bytes of a buffer with some of them replaced. -/
def overlay (buffer : Bytes) (start : Nat) (bytes : Bytes) : Bytes :=
  buffer.take start ++ bytes ++ buffer.drop (start + bytes.length)

/-- Read bytes out of a buffer. -/
def read (buffer : Bytes) (start count : Nat) : Option Bytes :=
  if start + count ≤ buffer.length then some ((buffer.drop start).take count) else none

/-- Copy bytes into a buffer. -/
def write (buffer : Bytes) (start : Nat) (bytes : Bytes) : Option Bytes :=
  if start + bytes.length ≤ buffer.length then some (buffer.overlay start bytes) else none

/-- Zeros. -/
abbrev zeros (count : Nat) : Bytes := List.replicate count 0

/-- Set bytes of a buffer to zero. -/
def fill (buffer : Bytes) (start count : Nat) : Option Bytes := buffer.write start (zeros count)

/-- Copy bytes within a buffer; the ranges may overlap. -/
def move (buffer : Bytes) (target source count : Nat) : Option Bytes :=
  (buffer.read source count).bind (buffer.write target)

/-- Two ranges of the same size have no position in common. -/
def Apart (left right count : Nat) : Prop :=
  count = 0 ∨ left + count ≤ right ∨ right + count ≤ left

instance (left right count : Nat) : Decidable (Apart left right count) :=
  inferInstanceAs (Decidable (_ ∨ _))

/-- Copy bytes within a buffer between ranges that are apart; of others `memcpy` promises
nothing. -/
def copyWithin (buffer : Bytes) (target source count : Nat) : Option Bytes :=
  if Apart target source count then buffer.move target source count else none

/-- Change the size of a buffer; new bytes are zero. -/
def resize (buffer : Bytes) (size : Nat) : Bytes :=
  buffer.take size ++ zeros (size - buffer.length)

/-! ## Big-endian numbers -/

/-- The number that bytes stand for, most significant byte first. -/
def value (bytes : Bytes) : Nat := bytes.foldl (fun high byte => high * 256 + byte.toNat) 0

/-- The last `count` bytes of a number, most significant byte first. -/
def encode : Nat → Nat → Bytes
  | 0, _ => []
  | count + 1, number => encode count (number / 256) ++ [BitVec.ofNat 8 number]

/-- Read a number out of a buffer. -/
def number (buffer : Bytes) (start count : Nat) : Option Nat :=
  (buffer.read start count).map value

/-- The number at a place, as far as the buffer has bytes there. -/
def peek (buffer : Bytes) (start count : Nat) : Nat := value ((buffer.drop start).take count)

/-- The bytes at a place, as far as the buffer has them. -/
def slice (buffer : Bytes) (start count : Nat) : Bytes := (buffer.drop start).take count

theorem read_of_le {buffer : Bytes} {start count : Nat} (inside : start + count ≤ buffer.length) :
    buffer.read start count = some (buffer.slice start count) :=
  if_pos inside

theorem number_of_le {buffer : Bytes} {start count : Nat} (inside : start + count ≤ buffer.length) :
    buffer.number start count = some (buffer.peek start count) := by
  rw [number, read_of_le inside, Option.map_some]
  rfl

theorem le_of_read {buffer bytes : Bytes} {start count : Nat}
    (found : buffer.read start count = some bytes) : start + count ≤ buffer.length := by
  unfold read at found
  split at found
  next inside => exact inside
  next => cases found

theorem le_of_number {buffer : Bytes} {start count result : Nat}
    (found : buffer.number start count = some result) : start + count ≤ buffer.length := by
  obtain ⟨bytes, taken, -⟩ := Option.map_eq_some_iff.mp found
  exact le_of_read taken

/-- What is read out of a part of a buffer stands in the buffer. -/
theorem read_of_slice {buffer bytes : Bytes} {start size place count : Nat}
    (room : start + size ≤ buffer.length)
    (found : (buffer.slice start size).read place count = some bytes) :
    buffer.read (start + place) count = some bytes := by
  have inside := le_of_read found
  rw [slice, List.length_take, List.length_drop] at inside
  rw [read_of_le (by rw [slice, List.length_take, List.length_drop]; omega)] at found
  rw [read_of_le (by omega), ← found, slice, slice, slice, List.drop_take, List.take_take,
    List.drop_drop, Nat.min_eq_left (by omega)]

theorem number_of_slice {buffer : Bytes} {start size place count result : Nat}
    (room : start + size ≤ buffer.length)
    (found : (buffer.slice start size).number place count = some result) :
    buffer.number (start + place) count = some result := by
  obtain ⟨bytes, taken, rfl⟩ := Option.map_eq_some_iff.mp found
  rw [number, read_of_slice room taken, Option.map_some]

@[simp] theorem length_encode (count number : Nat) : (encode count number).length = count := by
  induction count generalizing number with
  | zero => rfl
  | succ count ih => simp [encode, ih]

theorem value_append_singleton (bytes : Bytes) (byte : Byte) :
    value (bytes ++ [byte]) = value bytes * 256 + byte.toNat := by
  simp [value]

/-- Decoding inverts encoding, up to the bytes that were dropped. -/
theorem value_encode (count number : Nat) : value (encode count number) = number % 256 ^ count := by
  induction count generalizing number with
  | zero => simp [encode, value, Nat.mod_one]
  | succ count ih =>
      have split : 256 ^ (count + 1) = 256 * 256 ^ count := Nat.pow_succ'
      rw [encode, value_append_singleton, ih, BitVec.toNat_ofNat, split, Nat.mod_mul]
      omega

theorem value_encode_of_lt {count number : Nat} (small : number < 256 ^ count) :
    value (encode count number) = number := by
  rw [value_encode, Nat.mod_eq_of_lt small]

/-- A number is below its bound. -/
theorem value_lt (bytes : Bytes) : value bytes < 256 ^ bytes.length := by
  induction bytes using List.reverseRecOn with
  | nil => simp [value]
  | append_singleton bytes byte ih =>
      have low := byte.isLt
      rw [value_append_singleton, List.length_append, List.length_singleton, Nat.pow_succ]
      omega

theorem peek_lt (buffer : Bytes) (start count : Nat) : buffer.peek start count < 256 ^ count := by
  apply Nat.lt_of_lt_of_le (value_lt _)
  exact Nat.pow_le_pow_right (by decide) (by rw [List.length_take]; omega)

/-- Encoding inverts decoding. -/
theorem encode_value (bytes : Bytes) : encode bytes.length (value bytes) = bytes := by
  induction bytes using List.reverseRecOn with
  | nil => rfl
  | append_singleton bytes byte ih =>
      have low := byte.isLt
      have high : (value bytes * 256 + byte.toNat) / 256 = value bytes := by omega
      have last : BitVec.ofNat 8 (value bytes * 256 + byte.toNat) = byte := by
        apply BitVec.eq_of_toNat_eq
        rw [BitVec.toNat_ofNat]
        omega
      rw [List.length_append, List.length_singleton, value_append_singleton, encode, high, ih, last]

/-! ## Sizes -/

theorem length_overlay {buffer bytes : Bytes} {start : Nat}
    (room : start + bytes.length ≤ buffer.length) :
    (buffer.overlay start bytes).length = buffer.length := by
  simp [overlay]
  omega

theorem le_of_write {buffer bytes after : Bytes} {start : Nat}
    (written : buffer.write start bytes = some after) : start + bytes.length ≤ buffer.length := by
  unfold write at written
  split at written
  next room => exact room
  next => cases written

theorem length_of_write {buffer bytes after : Bytes} {start : Nat}
    (written : buffer.write start bytes = some after) : after.length = buffer.length := by
  unfold write at written
  split at written
  next room => exact Option.some.inj written ▸ length_overlay room
  next => cases written

@[simp] theorem length_resize (buffer : Bytes) (size : Nat) :
    (buffer.resize size).length = size := by
  simp [resize]
  omega

/-! ## Single bytes -/

/-- The bytes of an overlaid buffer. -/
theorem getElem?_overlay {buffer bytes : Bytes} {start : Nat}
    (room : start + bytes.length ≤ buffer.length) (position : Nat) :
    (buffer.overlay start bytes)[position]? =
      if start ≤ position ∧ position < start + bytes.length then bytes[position - start]?
      else buffer[position]? := by
  have front : (buffer.take start).length = start := by simp; omega
  rw [overlay, List.append_assoc, List.getElem?_append, front]
  split
  next before =>
    rw [if_neg (by omega), List.getElem?_take_of_lt before]
  next behind =>
    rw [List.getElem?_append]
    split
    next inside => rw [if_pos (by omega)]
    next outside =>
      rw [if_neg (by omega), List.getElem?_drop]
      congr 1
      omega

/-- A longer overlay covers one at the same place. -/
theorem overlay_overlay {buffer bytes longer : Bytes} {start : Nat}
    (covers : bytes.length ≤ longer.length) (room : start + longer.length ≤ buffer.length) :
    (buffer.overlay start bytes).overlay start longer = buffer.overlay start longer := by
  have size := @length_overlay buffer bytes start (by omega)
  apply List.ext_getElem?
  intro position
  rw [getElem?_overlay (by omega), getElem?_overlay room, getElem?_overlay (by omega)]
  split_ifs
  · rfl
  · omega
  · rfl

@[simp] theorem overlay_nil (buffer : Bytes) (start : Nat) : buffer.overlay start [] = buffer := by
  rw [overlay, List.append_nil, List.length_nil, Nat.add_zero, List.take_append_drop]

/-- What is read outside an overlay is not changed by it. -/
theorem read_overlay_of_apart {buffer bytes : Bytes} {start place count : Nat}
    (room : start + bytes.length ≤ buffer.length)
    (apart : place + count ≤ start ∨ start + bytes.length ≤ place) :
    (buffer.overlay start bytes).read place count = buffer.read place count := by
  unfold read
  rw [length_overlay room]
  split_ifs
  · congr 1
    apply List.ext_getElem?
    intro position
    by_cases within : position < count
    · rw [List.getElem?_take_of_lt within, List.getElem?_take_of_lt within, List.getElem?_drop,
        List.getElem?_drop, getElem?_overlay room, if_neg (by omega)]
    · rw [List.getElem?_eq_none (by rw [List.length_take]; omega),
        List.getElem?_eq_none (by rw [List.length_take]; omega)]
  · rfl

/-- Reading gives the bytes at their places. -/
theorem read_eq_some {buffer bytes : Bytes} {start count : Nat} :
    buffer.read start count = some bytes ↔
      start + count ≤ buffer.length ∧ bytes.length = count ∧
        ∀ position < count, bytes[position]? = buffer[start + position]? := by
  unfold read
  constructor
  · intro found
    split at found
    next room =>
      obtain rfl := Option.some.inj found
      refine ⟨room, by simp; omega, fun position inside => ?_⟩
      rw [List.getElem?_take_of_lt inside, List.getElem?_drop]
    next => cases found
  · rintro ⟨room, size, same⟩
    rw [if_pos room]
    congr 1
    apply List.ext_getElem?
    intro position
    by_cases inside : position < count
    · rw [List.getElem?_take_of_lt inside, List.getElem?_drop, same position inside]
    · rw [List.getElem?_eq_none (by simp; omega), List.getElem?_eq_none (by omega)]

/-- A number is below the bound of its bytes. -/
theorem lt_of_number {buffer : Bytes} {start count result : Nat}
    (found : buffer.number start count = some result) : result < 256 ^ count := by
  obtain ⟨bytes, taken, rfl⟩ := Option.map_eq_some_iff.mp found
  obtain ⟨_, size, _⟩ := read_eq_some.mp taken
  exact size ▸ value_lt bytes

/-- A write changes the bytes that it writes and no others. -/
theorem getElem?_of_write {buffer bytes after : Bytes} {start position : Nat}
    (written : buffer.write start bytes = some after)
    (outside : ¬ (start ≤ position ∧ position < start + bytes.length)) :
    after[position]? = buffer[position]? := by
  unfold write at written
  split at written
  next room =>
    obtain rfl := Option.some.inj written
    rw [getElem?_overlay room, if_neg outside]
  next => cases written

/-! ## Buffers in parts -/

/-- Reading the middle part. -/
theorem read_append {front middle back : Bytes} {start count : Nat} (here : start = front.length)
    (size : count = middle.length) : (front ++ middle ++ back).read start count = some middle := by
  subst here size
  rw [read, if_pos (by simp)]
  simp

/-- An overlay is read back. -/
theorem read_overlay {buffer bytes : Bytes} {start : Nat} (room : start ≤ buffer.length) :
    (buffer.overlay start bytes).read start bytes.length = some bytes := by
  rw [overlay, read_append (by rw [List.length_take]; omega) rfl]

/-- Overlaying the middle part. -/
theorem overlay_append {front middle back bytes : Bytes} {start : Nat}
    (here : start = front.length) (size : bytes.length = middle.length) :
    (front ++ middle ++ back).overlay start bytes = front ++ bytes ++ back := by
  subst here
  simp [overlay, size, List.drop_append]

/-- Two overlays, one behind the other. -/
theorem overlay_behind {buffer bytes behind : Bytes} {start : Nat}
    (room : start + bytes.length + behind.length ≤ buffer.length) :
    (buffer.overlay start bytes).overlay (start + bytes.length) behind =
      buffer.overlay start (bytes ++ behind) := by
  have parts : buffer.overlay start bytes = buffer.take start ++ bytes ++
      (buffer.drop (start + bytes.length)).take behind.length ++
        buffer.drop (start + bytes.length + behind.length) := by
    rw [overlay, List.append_assoc _ (List.take _ _), ← @List.drop_drop _ behind.length (start + bytes.length) buffer,
      List.take_append_drop]
  rw [parts, overlay_append (by simp; omega) (by simp; omega), overlay, List.append_assoc _ bytes,
    List.length_append, Nat.add_assoc start]

/-- Writing the middle part. -/
theorem write_append {front middle back bytes : Bytes} {start : Nat}
    (here : start = front.length) (size : bytes.length = middle.length) :
    (front ++ middle ++ back).write start bytes = some (front ++ bytes ++ back) := by
  rw [write, if_pos (by simp; omega), overlay_append here size]

/-- Reading a number out of the middle part. -/
theorem number_append {front middle back : Bytes} {start count : Nat}
    (here : start = front.length) (size : count = middle.length) :
    (front ++ middle ++ back).number start count = some (value middle) := by
  rw [number, read_append here size, Option.map_some]

/-- Reading the last part. -/
theorem read_append_right (front back : Bytes) (start count : Nat) :
    (front ++ back).read (front.length + start) count = back.read start count := by
  unfold read
  rw [List.length_append, List.drop_length_add_append]
  split_ifs
  · rfl
  · omega
  · omega
  · rfl

theorem number_append_right (front back : Bytes) (start count : Nat) :
    (front ++ back).number (front.length + start) count = back.number start count := by
  rw [number, read_append_right, number]

/-! ## Longer buffers -/

/-- Bytes behind a buffer do not change what is read out of it. -/
theorem read_append_of_some {buffer bytes : Bytes} {start count : Nat}
    (found : buffer.read start count = some bytes) (behind : Bytes) :
    (buffer ++ behind).read start count = some bytes := by
  obtain ⟨room, size, same⟩ := read_eq_some.mp found
  refine read_eq_some.mpr ⟨by simp; omega, size, fun position inside => ?_⟩
  rw [List.getElem?_append_left (by omega), same position inside]

theorem number_append_of_some {buffer : Bytes} {start count result : Nat}
    (found : buffer.number start count = some result) (behind : Bytes) :
    (buffer ++ behind).number start count = some result := by
  obtain ⟨bytes, taken, rfl⟩ := Option.map_eq_some_iff.mp found
  rw [number, read_append_of_some taken, Option.map_some]

end Bytes

end UfcRecomp.Lib
