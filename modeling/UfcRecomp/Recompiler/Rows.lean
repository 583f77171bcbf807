import UfcRecomp.Ppc.Disasm
import UfcRecomp.Recompiler.IntegerRuns
import Mathlib.Data.Nat.Bitwise

/-!
# Rows of rotations and shifts

The rows of the opcode table for the rotations and the shifts that `Recompile` has a case for, in
table order. An instruction is that of the first row that matches its word, so that an alias in
front of a general form takes the words that both match.
-/

namespace UfcRecomp.Recompiler

open UfcRecomp.Lib UfcRecomp.Ppc

/-! ## Fields -/

/-- `extract_sh6`: the shift of a doubleword, which is split. -/
def sh6 (insn : Word) : Word := ((insn >>> 11) &&& 0x1f#32) ||| ((insn <<< 4) &&& 0x20#32)

/-- `extract_mb6`: the bound of a mask of a doubleword, which is split. -/
def mb6 (insn : Word) : Word := ((insn >>> 6) &&& 0x1f#32) ||| (insn &&& 0x20#32)

/-- An operand that is a field of the word. -/
def field (operand : PowerpcOperand) (insn : Word) : Word := operand.decode insn 0

theorem toNat_field {shift : Nat} {bitm : Word} {first last : Nat} (insn : Word)
    (place : shift = 31 - last) (ones : bitm.toNat = 2 ^ (last + 1 - first) - 1) :
    (field { bitm, shift } insn).toNat = bits insn first last := by
  have value : (field { bitm, shift } insn).toNat = ((insn >>> shift) &&& bitm).toNat := by
    have bound := ((insn >>> shift) &&& bitm).isLt
    simp only [field, PowerpcOperand.decode, PowerpcOperand.value, BitVec.toNat_ofInt,
      Bool.false_eq_true, if_false]
    omega
  rw [value, BitVec.toNat_and, ones, Nat.and_two_pow_sub_one_eq_mod, BitVec.toNat_ushiftRight,
    Nat.shiftRight_eq_div_pow, place, bits]

/-- A single bit of a word. -/
theorem toNat_and_bit (value : Word) : (value &&& 0x20#32).toNat = 32 * (value.toNat / 32 % 2) := by
  rw [BitVec.toNat_and, show (0x20#32).toNat = 2 ^ 5 from rfl, Nat.and_two_pow,
    Nat.testBit_eq_decide_div_mod_eq]
  rcases Nat.mod_two_eq_zero_or_one (value.toNat / 2 ^ 5) with even | odd
  · rw [even]
    simp
    omega
  · rw [odd]
    simp
    omega

/-- A bit in front of five others. -/
theorem toNat_split {high low : Word} {bit : Nat} (highBit : high.toNat = 32 * bit)
    (fits : low.toNat < 32) : (low ||| high).toNat = 32 * bit + low.toNat := by
  rw [BitVec.toNat_or, Nat.or_comm, highBit]
  exact (@Nat.two_pow_add_eq_or_of_lt 5 _ fits bit).symm

theorem toNat_low_field (value : Word) : (value &&& 0x1f#32).toNat = value.toNat % 32 := by
  rw [BitVec.toNat_and, show (0x1f#32).toNat = 2 ^ 5 - 1 from rfl,
    Nat.and_two_pow_sub_one_eq_mod]

theorem toNat_sh6 (insn : Word) : (sh6 insn).toNat = Rotation.sh6 insn := by
  have high : ((insn <<< 4) &&& 0x20#32).toNat = 32 * bits insn 30 30 := by
    rw [toNat_and_bit, BitVec.toNat_shiftLeft, Nat.shiftLeft_eq, bits]
    omega
  have low : ((insn >>> 11) &&& 0x1f#32).toNat = bits insn 16 20 := by
    rw [toNat_low_field, BitVec.toNat_ushiftRight, Nat.shiftRight_eq_div_pow]
    rfl
  have fits : bits insn 16 20 < 32 := Nat.mod_lt _ (by decide)
  rw [sh6, toNat_split high (by omega), low, Rotation.sh6]

theorem toNat_mb6 (insn : Word) : (mb6 insn).toNat = Rotation.mb6 insn := by
  have high : (insn &&& 0x20#32).toNat = 32 * bits insn 26 26 := toNat_and_bit insn
  have low : ((insn >>> 6) &&& 0x1f#32).toNat = bits insn 21 25 := by
    rw [toNat_low_field, BitVec.toNat_ushiftRight, Nat.shiftRight_eq_div_pow]
    rfl
  have fits : bits insn 21 25 < 32 := Nat.mod_lt _ (by decide)
  rw [mb6, toNat_split high (by omega), low, Rotation.mb6]

/-! ## Rows -/

/-- A row of the opcode table: what a word must be under the mask, the operands, the case of the
recompiler, and whether there is a dot in the name. -/
structure IntegerOpcode where
  opcode : Word
  mask : Word
  operands : List (Word → Word)
  inst : IntegerInst
  record : Bool

namespace IntegerOpcode

def Matches (row : IntegerOpcode) (insn : Word) : Prop := insn &&& row.mask = row.opcode

instance (row : IntegerOpcode) (insn : Word) : Decidable (row.Matches insn) :=
  inferInstanceAs (Decidable (_ = _))

/-- An operand; the decoder clears those that a row does not set. -/
def operand (row : IntegerOpcode) (insn : Word) (index : Nat) : Word :=
  (row.operands[index]?).elim 0 fun operand => operand insn

/-- The statements of the case, for the operands of a word. -/
def statements (row : IntegerOpcode) (insn : Word) : List (CStatement Object) :=
  row.inst.statements row.record (row.operand insn)

/-- A word that a row matches has the bits of the opcode under the mask. -/
theorem Matches.bits {row : IntegerOpcode} {insn : Word} (matched : row.Matches insn)
    (first last : Nat)
    (covered : BitVec.ofNat 32 (2 ^ (last + 1 - first) - 1) &&& (row.mask >>> (31 - last)) =
      BitVec.ofNat 32 (2 ^ (last + 1 - first) - 1)) (wide : last + 1 - first ≤ 32) :
    Ppc.bits insn first last = Ppc.bits row.opcode first last := by
  have same := @field_congr insn row.opcode row.mask (31 - last) _ covered (by
    rw [← show insn &&& row.mask = row.opcode from matched, BitVec.and_assoc, BitVec.and_self])
  have ones : (BitVec.ofNat 32 (2 ^ (last + 1 - first) - 1)).toNat = 2 ^ (last + 1 - first) - 1 := by
    have bound := Nat.pow_le_pow_right (show 0 < 2 by decide) wide
    have pos := Nat.two_pow_pos (last + 1 - first)
    rw [BitVec.toNat_ofNat]
    omega
  have numbers := congrArg BitVec.toNat same
  rw [BitVec.toNat_and, BitVec.toNat_and, ones, Nat.and_two_pow_sub_one_eq_mod,
    Nat.and_two_pow_sub_one_eq_mod, BitVec.toNat_ushiftRight, BitVec.toNat_ushiftRight,
    Nat.shiftRight_eq_div_pow, Nat.shiftRight_eq_div_pow] at numbers
  exact numbers

/-- Whether a row fixes some bits of its words. -/
def Fixes (row : IntegerOpcode) (first last value : Nat) : Prop :=
  BitVec.ofNat 32 (2 ^ (last + 1 - first) - 1) &&& (row.mask >>> (31 - last)) =
      BitVec.ofNat 32 (2 ^ (last + 1 - first) - 1) ∧
    last + 1 - first ≤ 32 ∧ Ppc.bits row.opcode first last = value

instance (row : IntegerOpcode) (first last value : Nat) : Decidable (row.Fixes first last value) :=
  inferInstanceAs (Decidable (_ ∧ _))

theorem Matches.fixed {row : IntegerOpcode} {insn : Word} {first last value : Nat}
    (matched : row.Matches insn) (fixes : row.Fixes first last value) :
    Ppc.bits insn first last = value :=
  (matched.bits first last fixes.1 fixes.2.1).trans fixes.2.2

end IntegerOpcode

/-! ## The macros that form opcodes and masks -/

namespace Form

def md (x xop rc : Word) : Word := Ppc.Form.op x ||| ((xop &&& 0x7) <<< 2) ||| (rc &&& 1)
def xrc (y xop rc : Word) : Word := Ppc.Form.x y xop ||| (rc &&& 1)
def xs (x xop rc : Word) : Word := Ppc.Form.op x ||| ((xop &&& 0x1ff) <<< 2) ||| (rc &&& 1)

def mb6Mask : Word := 0x3f <<< 5
def sh6Mask : Word := (0x1f <<< 11) ||| (1 <<< 1)
def mdMask : Word := md 0x3f 0x7 1
def mdmbMask : Word := mdMask ||| mb6Mask
def mdshMask : Word := mdMask ||| sh6Mask
def xrcMask : Word := xrc 0x3f 0x3ff 1
def xsMask : Word := xs 0x3f 0x1ff 1

end Form

/-- The rows of an instruction with an immediate or a register in the place of `last`. -/
def shiftRows (xop : Word) (last : Word → Word) (inst : IntegerInst) : List IntegerOpcode :=
  [ ⟨Form.xrc 31 xop 0, Form.xrcMask, [field .ra, field .rt, last], inst, false⟩,
    ⟨Form.xrc 31 xop 1, Form.xrcMask, [field .ra, field .rt, last], inst, true⟩ ]

open Form Ppc.Form PowerpcOperand in
def rotateOpcodes : List IntegerOpcode :=
  [ ⟨m 20 0, mMask, [field ra, field rt, field sh, field mb, field me], .rlwimi, false⟩,
    ⟨m 20 1, mMask, [field ra, field rt, field sh, field mb, field me], .rlwimi, true⟩,
    ⟨mme 21 31 0, mmbmeMask, [field ra, field rt, field sh], .rotlwi, false⟩,
    ⟨mme 21 31 0, mshmeMask, [field ra, field rt, field mb], .clrlwi, false⟩,
    ⟨m 21 0, mMask, [field ra, field rt, field sh, field mb, field me], .rlwinm, false⟩,
    ⟨mme 21 31 1, mmbmeMask, [field ra, field rt, field sh], .rotlwi, true⟩,
    ⟨mme 21 31 1, mshmeMask, [field ra, field rt, field mb], .clrlwi, true⟩,
    ⟨m 21 1, mMask, [field ra, field rt, field sh, field mb, field me], .rlwinm, true⟩,
    ⟨mme 23 31 0, mmbmeMask, [field ra, field rt, field rb], .rotlw, false⟩,
    ⟨mme 23 31 1, mmbmeMask, [field ra, field rt, field rb], .rotlw, true⟩,
    ⟨md 30 0 0, mdmbMask, [field ra, field rt, sh6], .rotldi, false⟩,
    ⟨md 30 0 0, mdshMask, [field ra, field rt, mb6], .clrldi, false⟩,
    ⟨md 30 0 0, mdMask, [field ra, field rt, sh6, mb6], .rldicl, false⟩,
    ⟨md 30 0 1, mdmbMask, [field ra, field rt, sh6], .rotldi, true⟩,
    ⟨md 30 0 1, mdshMask, [field ra, field rt, mb6], .clrldi, true⟩,
    ⟨md 30 0 1, mdMask, [field ra, field rt, sh6, mb6], .rldicl, true⟩,
    ⟨md 30 1 0, mdMask, [field ra, field rt, sh6, mb6], .rldicr, false⟩,
    ⟨md 30 1 1, mdMask, [field ra, field rt, sh6, mb6], .rldicr, true⟩,
    ⟨md 30 3 0, mdMask, [field ra, field rt, sh6, mb6], .rldimi, false⟩,
    ⟨md 30 3 1, mdMask, [field ra, field rt, sh6, mb6], .rldimi, true⟩ ]

open Form PowerpcOperand in
def shiftOpcodes : List IntegerOpcode :=
  shiftRows 24 (field rb) .slw ++ shiftRows 27 (field rb) .sld ++
  [ ⟨xs 31 413 0, xsMask, [field ra, field rt, sh6], .sradi, false⟩,
    ⟨xs 31 413 1, xsMask, [field ra, field rt, sh6], .sradi, true⟩ ] ++
  shiftRows 536 (field rb) .srw ++ shiftRows 539 (field rb) .srd ++
  shiftRows 792 (field rb) .sraw ++ shiftRows 794 (field rb) .srad ++
  shiftRows 824 (field sh) .srawi

/-- The row of a word. -/
def findRow (rows : List IntegerOpcode) (insn : Word) : Option IntegerOpcode :=
  rows.find? fun row => row.Matches insn

/-- A row that is found is one of the table and matches. -/
theorem of_findRow {rows : List IntegerOpcode} {insn : Word} {row : IntegerOpcode}
    (found : findRow rows insn = some row) : row ∈ rows ∧ row.Matches insn := by
  have matched := List.find?_some found
  exact ⟨List.mem_of_find?_eq_some found, of_decide_eq_true matched⟩

/-! ## Operands of a row -/

section

variable (insn : Word)

@[simp] theorem toNat_ra : (field .ra insn).toNat = bits insn 11 15 := toNat_field insn rfl rfl
@[simp] theorem toNat_rt : (field .rt insn).toNat = bits insn 6 10 := toNat_field insn rfl rfl
@[simp] theorem toNat_rb : (field .rb insn).toNat = bits insn 16 20 := toNat_field insn rfl rfl
@[simp] theorem toNat_sh : (field .sh insn).toNat = bits insn 16 20 := toNat_field insn rfl rfl
@[simp] theorem toNat_mb : (field .mb insn).toNat = bits insn 21 25 := toNat_field insn rfl rfl
@[simp] theorem toNat_me : (field .me insn).toNat = bits insn 26 30 := toNat_field insn rfl rfl

theorem bits_five (first : Nat) : bits insn first (first + 4) < 32 := by
  rw [bits, show first + 4 + 1 - first = 5 by omega]
  exact Nat.mod_lt _ (by decide)

theorem sh6_lt : Rotation.sh6 insn < 64 := by
  have low : bits insn 16 20 < 32 := bits_five insn 16
  have high : bits insn 30 30 < 2 := Nat.mod_lt _ (by decide)
  rw [Rotation.sh6]
  omega

theorem mb6_lt : Rotation.mb6 insn < 64 := by
  have low : bits insn 21 25 < 32 := bits_five insn 21
  have high : bits insn 26 26 < 2 := Nat.mod_lt _ (by decide)
  rw [Rotation.mb6]
  omega

end

section

variable {store : Store Object} {insn : Word} {row : IntegerOpcode}

theorem source_row {last : List (Word → Word)}
    (fields : row.operands = field .ra :: field .rt :: last) :
    source store (row.operand insn) 1 = Ppc.source insn (view store) := by
  rw [source, IntegerOpcode.operand, fields]
  exact congrArg _ (toNat_rt insn)

theorem target_row {last : List (Word → Word)} (fields : row.operands = field .ra :: last) :
    source store (row.operand insn) 0 = (view store).r (target insn) := by
  rw [source, IntegerOpcode.operand, fields]
  exact congrArg _ (toNat_ra insn)

theorem operand_row {index : Nat} {fields : List (Word → Word)} (same : row.operands = fields) :
    row.operand insn index = (fields[index]?).elim 0 fun operand => operand insn := by
  rw [IntegerOpcode.operand, same]

end

end UfcRecomp.Recompiler
