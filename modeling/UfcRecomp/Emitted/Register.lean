import UfcRecomp.Lib.Memory

/-!
# Registers of the emitted code

A guest register is a union of integers of several widths, on a host that stores integers with
their least significant byte first. Guest memory has the most significant byte first, so the
emitted code reverses the bytes of what it loads and stores.
-/

namespace UfcRecomp.Emitted

open UfcRecomp.Lib

/-- `PPCRegister`, as its member `u64`. -/
structure PpcRegister where
  u64 : BitVec 64
  deriving DecidableEq

namespace PpcRegister

/-- The unsigned member of a width. -/
def unsigned (width : Nat) (register : PpcRegister) : BitVec width := register.u64.setWidth width

/-- The signed member of a width. -/
def signed (width : Nat) (register : PpcRegister) : Int := (register.unsigned width).toInt

/-- Write the unsigned member of a width; the bytes above it stay. -/
def setUnsigned (register : PpcRegister) {width : Nat} (value : BitVec width) : PpcRegister where
  u64 := (register.u64 >>> width <<< width) ||| value.setWidth 64

/-- The member that was written is read. -/
theorem unsigned_setUnsigned (register : PpcRegister) {width : Nat} (value : BitVec width)
    (fits : width ≤ 64) : (register.setUnsigned value).unsigned width = value := by
  ext bit inside
  simp only [unsigned, setUnsigned, BitVec.getElem_setWidth, BitVec.getLsbD_or,
    BitVec.getLsbD_shiftLeft, BitVec.getLsbD_setWidth]
  simp [inside, show bit < 64 by omega]

/-- Converting a signed member back to an unsigned integer gives the unsigned member. -/
theorem ofInt_signed (register : PpcRegister) (width : Nat) :
    BitVec.ofInt width (register.signed width) = register.unsigned width :=
  BitVec.ofInt_toInt

end PpcRegister

/-- The registers `r0` to `r31`. -/
abbrev Registers := Nat → PpcRegister

/-! ## Byte order -/

/-- The bytes of an integer in host memory. -/
def hostBytes (count : Nat) (value : BitVec (8 * count)) : Bytes :=
  (Bytes.encode count value.toNat).reverse

/-- The integer that the host loads. -/
def hostLoad (memory : Memory) (address count : Nat) : BitVec (8 * count) :=
  BitVec.ofNat _ (Bytes.value (memory.load address count).reverse)

/-- The store of an integer by the host. -/
def hostStore (memory : Memory) (address count : Nat) (value : BitVec (8 * count)) : Memory :=
  memory.store address (hostBytes count value)

/-- `__builtin_bswap32` and `__builtin_bswap64`. -/
def bswap {count : Nat} (value : BitVec (8 * count)) : BitVec (8 * count) :=
  BitVec.ofNat _ (Bytes.value (hostBytes count value))

/-- The integer that the guest has at an address. -/
def guestLoad (memory : Memory) (address count : Nat) : BitVec (8 * count) :=
  BitVec.ofNat _ (Bytes.value (memory.load address count))

theorem value_lt_of_length {bytes : Bytes} {count : Nat} (size : bytes.length = count) :
    Bytes.value bytes < 2 ^ (8 * count) := by
  have bound := Bytes.value_lt bytes
  rw [size, show 256 = 2 ^ 8 from rfl, ← Nat.pow_mul] at bound
  exact bound

/-- The bytes of an integer that the host loads are those in memory. -/
theorem hostBytes_ofNat {bytes : Bytes} {count : Nat} (size : bytes.length = count) :
    hostBytes count (BitVec.ofNat _ (Bytes.value bytes.reverse)) = bytes := by
  have length : bytes.reverse.length = count := by rw [List.length_reverse, size]
  have encoded := Bytes.encode_value bytes.reverse
  rw [length] at encoded
  rw [hostBytes, BitVec.toNat_ofNat, Nat.mod_eq_of_lt (value_lt_of_length length), encoded,
    List.reverse_reverse]

/-- A reversed load has the guest's value. -/
theorem bswap_hostLoad (memory : Memory) (address count : Nat) :
    bswap (hostLoad memory address count) = guestLoad memory address count := by
  rw [bswap, hostLoad, hostBytes_ofNat (by simp), guestLoad]

/-- The host bytes of a reversed integer are the guest's encoding. -/
theorem hostBytes_bswap {count : Nat} (value : BitVec (8 * count)) :
    hostBytes count (bswap value) = Bytes.encode count value.toNat := by
  rw [bswap, hostBytes, hostBytes, BitVec.toNat_ofNat,
    Nat.mod_eq_of_lt (value_lt_of_length (by simp))]
  have encoded := Bytes.encode_value (Bytes.encode count value.toNat).reverse
  rw [List.length_reverse, Bytes.length_encode] at encoded
  rw [encoded, List.reverse_reverse]

/-- A reversed integer that is stored has the guest's value. -/
theorem guestLoad_hostStore (memory : Memory) (address : Nat) {count : Nat}
    (value : BitVec (8 * count)) :
    guestLoad (hostStore memory address count (bswap value)) address count = value := by
  have bound : value.toNat < 256 ^ count := by
    rw [show 256 = 2 ^ 8 from rfl, ← Nat.pow_mul]
    exact value.isLt
  rw [guestLoad, hostStore, hostBytes_bswap, Memory.load_store (by simp),
    Bytes.value_encode_of_lt bound, BitVec.ofNat_toNat, BitVec.setWidth_eq]

end UfcRecomp.Emitted
