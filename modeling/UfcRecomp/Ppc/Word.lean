import Mathlib.Data.Int.Bitwise
import Mathlib.Tactic.NormNum

/-!
# Instruction words and their fields

The field macros of the disassembler's `ppc.h`, over big-endian words that have
already been byte-swapped to host order.
-/

namespace UfcRecomp.Ppc

/-- A guest instruction word in host order. -/
abbrev Word := BitVec 32

/-- The major opcode. -/
def ppcOp (i : Word) : Nat := ((i >>> 26) &&& 0x3f#32).toNat

/-- The extended opcode. -/
def ppcXop (i : Word) : Nat := ((i >>> 1) &&& 0x3ff#32).toNat

/-- The branch displacement of a conditional branch, in bytes. -/
def ppcBd (i : Word) : Int := (((i &&& 0xFFFC#32) ^^^ 0x8000#32) - 0x8000#32).toInt

/-- The branch displacement of an immediate branch, in bytes. -/
def ppcBi (i : Word) : Int := (((i &&& 0x3FFFFFC#32) ^^^ 0x2000000#32) - 0x2000000#32).toInt

/-- Whether the branch is absolute. -/
def ppcBa (i : Word) : Bool := i &&& 2#32 != 0#32

/-- Whether the branch is a link. -/
def ppcBl (i : Word) : Bool := i &&& 1#32 != 0#32

/-- The branch operation. -/
def ppcBo (i : Word) : Nat := ((i >>> 21) &&& 0x1F#32).toNat

def ppcOpBc : Nat := 0x10
def ppcOpB : Nat := 0x12
def ppcOpCtr : Nat := 0x13

/-- Subtracting the sign bit after flipping it does not wrap, as a signed number. -/
private theorem signExtend_field (x sign : Word) (low : x.toNat < 2 * sign.toNat)
    (small : 2 * sign.toNat < 2 ^ 31) :
    (x - sign).toInt = (x.toNat : Int) - sign.toNat := by
  have range : (x - sign).toInt = ((x.toNat : Int) - sign.toNat).bmod (2 ^ 32) := by
    rw [BitVec.toInt_sub, BitVec.toInt_eq_toNat_of_lt (by omega),
      BitVec.toInt_eq_toNat_of_lt (by omega)]
  rw [range, Int.bmod_eq_of_le] <;> omega

private theorem bdField_lt (i : Word) : ((i &&& 0xFFFC#32) ^^^ 0x8000#32).toNat < 2 ^ 16 := by
  rw [BitVec.toNat_xor, BitVec.toNat_and]
  exact Nat.xor_lt_two_pow (Nat.and_lt_two_pow _ (by decide)) (by decide)

private theorem biField_lt (i : Word) :
    ((i &&& 0x3FFFFFC#32) ^^^ 0x2000000#32).toNat < 2 ^ 26 := by
  rw [BitVec.toNat_xor, BitVec.toNat_and]
  exact Nat.xor_lt_two_pow (Nat.and_lt_two_pow _ (by decide)) (by decide)

theorem ppcBd_eq (i : Word) :
    ppcBd i = ((i &&& 0xFFFC#32) ^^^ 0x8000#32).toNat - ((0x8000#32).toNat : Int) :=
  signExtend_field _ _ (by simpa using bdField_lt i) (by decide)

theorem ppcBi_eq (i : Word) :
    ppcBi i = ((i &&& 0x3FFFFFC#32) ^^^ 0x2000000#32).toNat - ((0x2000000#32).toNat : Int) :=
  signExtend_field _ _ (by simpa using biField_lt i) (by decide)

theorem ppcBd_bounds (i : Word) : -0x8000 ≤ ppcBd i ∧ ppcBd i < 0x8000 := by
  have low := bdField_lt i
  rw [ppcBd_eq]
  simp only [BitVec.toNat_ofNat] at low ⊢
  omega

theorem ppcBi_bounds (i : Word) : -0x2000000 ≤ ppcBi i ∧ ppcBi i < 0x2000000 := by
  have low := biField_lt i
  rw [ppcBi_eq]
  simp only [BitVec.toNat_ofNat] at low ⊢
  omega

/-- A field whose two low bits are masked out is a multiple of four. -/
private theorem field_dvd (i mask sign : Word) (maskLow : mask.toNat % 2 ^ 2 = 0)
    (signLow : sign.toNat % 2 ^ 2 = 0) : ((i &&& mask) ^^^ sign).toNat % 2 ^ 2 = 0 := by
  rw [BitVec.toNat_xor, BitVec.toNat_and, Nat.xor_mod_two_pow, Nat.and_mod_two_pow, maskLow,
    signLow, Nat.and_zero, Nat.xor_self]

theorem ppcBd_dvd (i : Word) : 4 ∣ ppcBd i := by
  have aligned := field_dvd i 0xFFFC#32 0x8000#32 (by decide) (by decide)
  rw [ppcBd_eq]
  simp only [BitVec.toNat_ofNat]
  omega

theorem ppcBi_dvd (i : Word) : 4 ∣ ppcBi i := by
  have aligned := field_dvd i 0x3FFFFFC#32 0x2000000#32 (by decide) (by decide)
  rw [ppcBi_eq]
  simp only [BitVec.toNat_ofNat]
  omega

end UfcRecomp.Ppc
