import UfcRecomp.Lib.VectorOrder
import UfcRecomp.Ppc.Branch
import UfcRecomp.Ppc.Integer

/-!
# Dispatch instructions

The instructions that lead an index through a table to the count register, by the fields of their
words. The low words of the registers behind them depend on low words only, in the way that the
operands of the disassembler say.
-/

namespace UfcRecomp.Ppc

open UfcRecomp.Lib

/-! ## The instructions -/

/-- The registers that a dispatch uses. -/
structure DispatchState where
  r : Nat → BitVec 64
  ctr : BitVec 64

/-- The number that bytes of memory stand for, the most significant one first. -/
def loadNumber (memory : BitVec 32 → Byte) (address : BitVec 32) (size : Nat) : Nat :=
  bigEndian (fun i => memory (address + BitVec.ofNat 32 i)) 0 size

/-- The immediate of an instruction. -/
def immediate (insn : Word) : BitVec 16 := insn.setWidth 16

namespace DispatchState

variable (memory : BitVec 32 → Byte) (insn : Word) (state : DispatchState)

def set (index : Nat) (value : BitVec 64) : DispatchState :=
  { state with r := Function.update state.r index value }

/-- A register that an address is relative to; `r0` stands for zero. -/
def base (index : Nat) : BitVec 64 := if index = 0 then 0 else state.r index

/-- An addition of an immediate that was shifted. -/
def addImmediate (shift : Nat) : DispatchState :=
  state.set (bits insn 6 10)
    (state.base (bits insn 11 15) + (immediate insn).signExtend 64 <<< shift)

/-- An indexed load of some bytes. -/
def load (size : Nat) : DispatchState :=
  let address := state.base (bits insn 11 15) + state.r (bits insn 16 20)
  state.set (bits insn 6 10) (BitVec.ofNat 64 (loadNumber memory (address.setWidth 32) size))

/-- Run an instruction word. -/
def exec : Option DispatchState :=
  match ppcOp insn, ppcXop insn with
  | 14, _ => some (state.addImmediate insn 0)
  | 15, _ => some (state.addImmediate insn 16)
  | 21, _ => (Rotation.exec insn ⟨state.r, 0⟩).map fun rotated => { state with r := rotated.r }
  | 31, 23 => some (state.load memory insn 4)
  | 31, 87 => some (state.load memory insn 1)
  | 31, 279 => some (state.load memory insn 2)
  | 31, 266 =>
    some (state.set (bits insn 6 10) (state.r (bits insn 11 15) + state.r (bits insn 16 20)))
  | 31, 467 =>
    if bits insn 11 20 = 9 * 2 ^ 5 then some { state with ctr := state.r (bits insn 6 10) }
    else none
  | _, _ => none

/-- Run instruction words one after the other. -/
def execAll : List Word → DispatchState → Option DispatchState
  | [], state => some state
  | insn :: rest, state => (state.exec memory insn).bind (execAll rest)

end DispatchState

/-! ## Low words -/

/-- The low words of the registers, by the operands that name them. -/
@[ext]
structure LowState where
  r : Word → Word
  ctr : Word

def DispatchState.low (state : DispatchState) : LowState where
  r operand := (state.r operand.toNat).setWidth 32
  ctr := state.ctr.setWidth 32

namespace LowState

variable (memory : BitVec 32 → Byte) (insn : Insn) (state : LowState)

def set (operand value : Word) : LowState :=
  { state with r := Function.update state.r operand value }

def base (operand : Word) : Word := if operand = 0 then 0 else state.r operand

def load (size : Nat) : LowState :=
  state.set (insn.operand 0) (BitVec.ofNat 32
    (loadNumber memory (state.base (insn.operand 1) + state.r (insn.operand 2)) size))

/-- Run a decoded instruction, where a rotation is a shift to the left. -/
def exec : LowState :=
  match insn.opcode with
  | some .lis => state.set (insn.operand 0) (insn.operand 1 <<< 16)
  | some .addi => state.set (insn.operand 0) (state.r (insn.operand 1) + insn.operand 2)
  | some .rlwinm =>
    state.set (insn.operand 0) (state.r (insn.operand 1) <<< (insn.operand 2).toNat)
  | some .lwzx => state.load memory insn 4
  | some .lbzx => state.load memory insn 1
  | some .lhzx => state.load memory insn 2
  | some .add =>
    state.set (insn.operand 0) (state.r (insn.operand 1) + state.r (insn.operand 2))
  | some .mtctr => { state with ctr := state.r (insn.operand 0) }
  | _ => state

/-- Run decoded instructions one after the other. -/
def execAll : List Insn → LowState → LowState
  | [], state => state
  | insn :: rest, state => execAll rest (state.exec memory insn)

end LowState

/-- The low words behind a write to a register. -/
theorem DispatchState.low_set {state : DispatchState} {index : Nat} {value : BitVec 64}
    {operand word : Word} (same : operand.toNat = index) (low : value.setWidth 32 = word) :
    (state.set index value).low = state.low.set operand word := by
  subst same low
  ext i
  · dsimp only [DispatchState.low, set, LowState.set]
    rw [Function.update_apply, Function.update_apply]
    by_cases here : i = operand
    · rw [if_pos here, if_pos (congrArg BitVec.toNat here)]
    · rw [if_neg here, if_neg fun equal => here (BitVec.eq_of_toNat_eq equal)]
  · rfl

/-- A write leaves the other registers. -/
theorem DispatchState.r_set {state : DispatchState} {index other : Nat} {value : BitVec 64}
    {operand : Word} (same : operand.toNat = index) (apart : other ≠ operand.toNat) :
    (state.set index value).r other = state.r other := by
  subst same
  exact Function.update_of_ne apart _ _

/-! ## Forms -/

/-- How an instruction is encoded, and the operands of its mnemonic. -/
structure DispatchForm where
  op : Nat
  xop : Option Nat
  operands : List PowerpcOperand

def PpcInst.dispatchForm : PpcInst → Option DispatchForm
  | .lis => some ⟨15, none, [.rt, .si]⟩
  | .addi => some ⟨14, none, [.rt, .ra, .si]⟩
  | .rlwinm => some ⟨21, none, [.ra, .rt, .sh, .mb, .me]⟩
  | .lwzx => some ⟨31, some 23, [.rt, .ra, .rb]⟩
  | .lbzx => some ⟨31, some 87, [.rt, .ra, .rb]⟩
  | .lhzx => some ⟨31, some 279, [.rt, .ra, .rb]⟩
  | .add => some ⟨31, some 266, [.rt, .ra, .rb]⟩
  | .mtctr => some ⟨31, some 467, [.rt]⟩
  | _ => none

/-- Every row has the form of its mnemonic. -/
theorem row_dispatchForm : ∀ row ∈ powerpcOpcodes, ∀ form ∈ row.id.dispatchForm,
    ppcOp row.opcode = form.op ∧ row.operands = form.operands ∧
      ∀ xop ∈ form.xop, 0x3ff &&& (row.mask >>> 1) = 0x3ff ∧ ppcXop row.opcode = xop := by
  decide

/-- The rows that fix a register or a special register. -/
theorem row_fixed : ∀ row ∈ powerpcOpcodes,
    (row.id = .lis → 0x1f &&& (row.mask >>> 16) = 0x1f ∧ (row.opcode >>> 16) &&& 0x1f = 0) ∧
      (row.id = .mtctr →
        0x3ff &&& (row.mask >>> 11) = 0x3ff ∧ (row.opcode >>> 11) &&& 0x3ff = 9 * 2 ^ 5) := by
  decide

section Operands

variable (insn : Word) (address : Nat)

theorem rt_decode : (PowerpcOperand.rt.decode insn address).toNat = bits insn 6 10 :=
  (@decode_field .rt rfl rfl insn address).trans (@toNat_and_ones insn 0x1f#32 21 5 rfl)

theorem ra_decode : (PowerpcOperand.ra.decode insn address).toNat = bits insn 11 15 :=
  (@decode_field .ra rfl rfl insn address).trans (@toNat_and_ones insn 0x1f#32 16 5 rfl)

theorem rb_decode : (PowerpcOperand.rb.decode insn address).toNat = bits insn 16 20 :=
  (@decode_field .rb rfl rfl insn address).trans (@toNat_and_ones insn 0x1f#32 11 5 rfl)

theorem mb_decode : (PowerpcOperand.mb.decode insn address).toNat = bits insn 21 25 :=
  (@decode_field .mb rfl rfl insn address).trans (@toNat_and_ones insn 0x1f#32 6 5 rfl)

theorem me_decode : (PowerpcOperand.me.decode insn address).toNat = bits insn 26 30 :=
  (@decode_field .me rfl rfl insn address).trans (@toNat_and_ones insn 0x1f#32 1 5 rfl)

/-- To turn a sign bit over and to take it away is to give it a negative weight. -/
theorem xor_two_pow_sub {number n : Nat} (small : number < 2 ^ (n + 1)) :
    ((number ^^^ 2 ^ n : Nat) : Int) - 2 ^ n =
      if number < 2 ^ n then (number : Int) else number - 2 ^ (n + 1) := by
  have pos := Nat.two_pow_pos n
  have low : (number ^^^ 2 ^ n) % 2 ^ n = number % 2 ^ n := by
    rw [Nat.xor_mod_two_pow, Nat.mod_self, Nat.xor_zero]
  have high : (number ^^^ 2 ^ n) / 2 ^ n = (number / 2 ^ n) ^^^ 1 := by
    rw [Nat.xor_div_two_pow, Nat.div_self pos]
  have parts := Nat.div_add_mod (number ^^^ 2 ^ n) (2 ^ n)
  have cast : ((2 ^ n : Nat) : Int) = 2 ^ n := Int.natCast_pow 2 n
  rw [low, high] at parts
  rw [Nat.pow_succ] at small
  by_cases below : number < 2 ^ n
  · rw [if_pos below, ← parts, Nat.div_eq_of_lt below, Nat.mod_eq_of_lt below]
    change ((2 ^ n * 1 + number : Nat) : Int) - 2 ^ n = number
    omega
  · have one : number / 2 ^ n = 1 :=
      Nat.div_eq_of_lt_le (by omega) (by omega)
    have rest := Nat.div_add_mod number (2 ^ n)
    rw [one] at parts rest
    change 2 ^ n * 0 + _ = _ at parts
    rw [if_neg below, ← parts, Int.pow_succ]
    omega

/-- A signed immediate. -/
theorem si_decode : PowerpcOperand.si.decode insn address = (immediate insn).signExtend 32 := by
  have field : (insn &&& 0xffff#32).toNat = (immediate insn).toNat := by
    rw [immediate, BitVec.toNat_setWidth, BitVec.toNat_and]
    exact Nat.and_two_pow_sub_one_eq_mod _ 16
  have value : PowerpcOperand.si.value insn = (immediate insn).toInt := by
    change ((((insn >>> 0) &&& 0xffff#32) ^^^ 0x8000#32).toNat : Int) - ((2 ^ 15 : Nat) : Int) = _
    rw [BitVec.ushiftRight_zero, BitVec.toNat_xor, field,
      show (0x8000#32).toNat = 2 ^ 15 from rfl]
    have signed := @xor_two_pow_sub (immediate insn).toNat 15 (immediate insn).isLt
    rw [BitVec.toInt_eq_toNat_cond]
    split_ifs at signed ⊢ <;> omega
  rw [PowerpcOperand.decode, value, BitVec.signExtend]
  exact congrArg (BitVec.ofInt 32) (Int.add_zero _)

end Operands

/-! ## Simulation -/

theorem DispatchState.low_r {state : DispatchState} {index : Nat} {operand : Word}
    (same : operand.toNat = index) : (state.r index).setWidth 32 = state.low.r operand := by
  subst same
  rfl

/-- The low word of a register, or zero for `r0`. -/
theorem DispatchState.low_base {state : DispatchState} {index : Nat} {operand : Word}
    (same : operand.toNat = index) :
    (state.base index).setWidth 32 = state.low.base operand := by
  subst same
  rw [base, LowState.base]
  by_cases zero : operand = 0
  · have none : operand.toNat = 0 := congrArg BitVec.toNat zero
    rw [if_pos zero, if_pos none]
    rfl
  · have some : operand.toNat ≠ 0 := fun equal => zero (BitVec.eq_of_toNat_eq equal)
    rw [if_neg zero, if_neg some]
    rfl

/-- A rotation under the mask of a shift is a shift. -/
theorem rotate_shift (word : Word) {count : Nat} (short : count < 32) :
    (((word ++ word).rotateLeft count &&& maskBits 32 (63 - count)).setWidth 32 : Word) =
      word <<< count := by
  apply BitVec.eq_of_getMsbD_eq
  intro index below
  rw [BitVec.getMsbD_setWidth, BitVec.getMsbD_and, BitVec.getMsbD_rotateLeft_of_lt (by omega),
    getMsbD_append_self _ (Nat.mod_lt _ (by decide)), getMsbD_maskBits, if_pos (by omega),
    BitVec.getMsbD_shiftLeft, show index + (32 + 32) - 32 = index + 32 by omega]
  by_cases inside : index + count < 32
  · rw [show (count + (index + 32)) % (32 + 32) % 32 = index + count by omega]
    simp [show index + 32 < 64 by omega, show index + 32 ≤ 63 - count by omega]
  · rw [BitVec.getMsbD_of_ge word (index + count) (by omega)]
    simp [show ¬index + 32 ≤ 63 - count by omega]

/-- The rotation is a shift to the left: its mask keeps what is not shifted out. -/
def Insn.ShiftsLeft (insn : Insn) : Prop :=
  insn.opcode = some .rlwinm →
    (insn.operand 3).toNat = 0 ∧ (insn.operand 4).toNat = 31 - (insn.operand 2).toNat

section Exec

variable {dis : Disassembler} {insn : Word} {address : Nat} {id : PpcInst}

/-- The parts of a decoded instruction with a form. -/
theorem form_of_disassemble (decoded : (dis.disassemble insn address).opcode = some id)
    {form : DispatchForm} (isForm : id.dispatchForm = some form) :
    ppcOp insn = form.op ∧ (∀ xop ∈ form.xop, ppcXop insn = xop) ∧
      (∀ (index : Nat) (field : PowerpcOperand), form.operands[index]? = some field →
        (dis.disassemble insn address).operand index = field.decode insn address) ∧
      (id = .lis → bits insn 11 15 = 0) ∧ (id = .mtctr → bits insn 11 20 = 9 * 2 ^ 5) := by
  obtain ⟨row, member, matched, rfl, operands⟩ := row_of_disassemble decoded
    (by rintro rfl; cases isForm) (by rintro number rfl; cases isForm)
  obtain ⟨op, fields, xops⟩ := row_dispatchForm row member form isForm
  obtain ⟨lis, mtctr⟩ := row_fixed row member
  refine ⟨(matched.op member).trans op, fun xop isXop => ?_, fun index field here => ?_,
    fun isLis => ?_, fun isMtctr => ?_⟩
  · obtain ⟨covered, value⟩ := xops xop isXop
    rw [← value]
    exact congrArg BitVec.toNat (matched.field 1 0x3ff covered)
  · rw [Insn.operand, operands, List.getD_eq_getElem?_getD, List.getElem?_map, fields, here]
    rfl
  · obtain ⟨covered, value⟩ := lis isLis
    have zero := congrArg BitVec.toNat ((matched.field 16 0x1f covered).trans value)
    rwa [@toNat_and_ones insn 0x1f 16 5 rfl] at zero
  · obtain ⟨covered, value⟩ := mtctr isMtctr
    have nine := congrArg BitVec.toNat ((matched.field 11 0x3ff covered).trans value)
    rwa [@toNat_and_ones insn 0x3ff 11 10 rfl] at nine

/-- A field that is zero under its mask. -/
theorem and_shiftLeft_eq_zero {field : Word} {shift : Nat} (zero : (insn >>> shift) &&& field = 0) :
    insn &&& field <<< shift = 0 := by
  apply BitVec.eq_of_getLsbD_eq
  intro index below
  have bit := congrArg (fun word => word.getLsbD (index - shift)) zero
  simp only [BitVec.getLsbD_and, BitVec.getLsbD_ushiftRight] at bit
  rw [BitVec.getLsbD_and, BitVec.getLsbD_shiftLeft]
  by_cases low : index < shift
  · simp [low]
  · rw [Nat.add_sub_of_le (Nat.not_lt.mp low)] at bit
    simpa [low, below] using bit

/-- With `r0` as its source, an addition of an immediate has another mnemonic. -/
theorem addi_source_ne_zero (decoded : (dis.disassemble insn address).opcode = some .addi) :
    bits insn 11 15 ≠ 0 := by
  intro zero
  have noSource : (insn >>> 16) &&& 0x1f = 0 :=
    BitVec.eq_of_toNat_eq ((@toNat_and_ones insn 0x1f 16 5 rfl).trans zero)
  rw [Disassembler.disassemble] at decoded
  cases search : powerpcOpcodes.find? fun row => row.Matches insn with
  | none =>
      rw [search] at decoded
      dsimp only at decoded
      split_ifs at decoded
      · cases decoded
      · split at decoded <;> cases decoded
  | some row =>
      rw [search] at decoded
      have isAddi : row.id = .addi := Option.some.inj decoded
      obtain ⟨matched, i, inside, here, earlier⟩ := List.find?_eq_some_iff_getElem.mp search
      have behind : 1 < i := by
        rcases i with _ | _ | i
        · subst here
          cases isAddi
        · subst here
          cases isAddi
        · omega
      have rows : ∀ row ∈ powerpcOpcodes, row.id = .addi →
          row.mask = Form.opMask ∧ row.opcode = Form.op 14 := by decide
      obtain ⟨mask, opcode⟩ := rows row (List.mem_of_find?_eq_some search) isAddi
      have whole : insn &&& row.mask = row.opcode := of_decide_eq_true matched
      -- The row of `li` comes first, and matches as well.
      have unmatched := earlier 1 behind
      rw [Bool.not_eq_true', decide_eq_false_iff_not] at unmatched
      apply unmatched
      change insn &&& (Form.opMask ||| (0x1f : Word) <<< 16) = Form.op 14
      rw [BitVec.and_or_distrib_left, and_shiftLeft_eq_zero noSource, ← mask, whole, opcode]
      rfl

/-- The low word of an extended immediate. -/
theorem setWidth_signExtend (number : BitVec 16) :
    (number.signExtend 64).setWidth 32 = number.signExtend 32 := by
  apply BitVec.eq_of_getLsbD_eq
  intro index below
  rw [BitVec.getLsbD_setWidth, BitVec.getLsbD_signExtend, BitVec.getLsbD_signExtend]
  simp [below, show index < 64 by omega]

section Writes

variable {memory : BitVec 32 → Byte} {state : DispatchState}

/-- An instruction that writes a register is a write of its low word, and leaves the others. -/
theorem exists_write {index : Nat} {value : BitVec 64} {operand word : Word}
    (ran : state.exec memory insn = some (state.set index value)) (same : operand.toNat = index)
    (low : value.setWidth 32 = word) :
    ∃ next, state.exec memory insn = some next ∧ next.low = state.low.set operand word ∧
      ∀ other ≠ operand.toNat, next.r other = state.r other :=
  ⟨_, ran, DispatchState.low_set same low, fun _ apart => DispatchState.r_set same apart⟩

/-- The low word of the sum of a register and an immediate. -/
theorem setWidth_addImmediate (base : BitVec 64) (shift : Nat) :
    (base + (immediate insn).signExtend 64 <<< shift).setWidth 32 =
      base.setWidth 32 + (immediate insn).signExtend 32 <<< shift := by
  rw [BitVec.setWidth_add _ _ (by decide), BitVec.setWidth_shiftLeft_of_le (by decide),
    setWidth_signExtend]

/-- An indexed load has the same address for the low words. -/
theorem exists_load {code : Insn} {size : Nat}
    (ran : state.exec memory insn = some (state.load memory insn size))
    (target : (code.operand 0).toNat = bits insn 6 10)
    (source : (code.operand 1).toNat = bits insn 11 15)
    (index : (code.operand 2).toNat = bits insn 16 20) :
    ∃ next, state.exec memory insn = some next ∧ next.low = state.low.load memory code size ∧
      ∀ other ≠ (code.operand 0).toNat, next.r other = state.r other := by
  refine exists_write ran target ?_
  rw [BitVec.setWidth_add _ _ (by decide), DispatchState.low_base source, ← index,
    BitVec.setWidth_ofNat_of_le (by decide)]
  rfl

/-- A rotation under the mask of a shift writes the shifted low word. -/
theorem exec_shift (op : ppcOp insn = 21) (first : bits insn 21 25 = 0)
    (last : bits insn 26 30 = 31 - bits insn 16 20) :
    ∃ value, state.exec memory insn = some (state.set (bits insn 11 15) value) ∧
      value.setWidth 32 =
        (state.r (bits insn 6 10)).setWidth 32 <<< bits insn 16 20 := by
  have word : bits insn 0 5 = 21 := (@toNat_and_ones insn 0x3f 26 6 rfl).symm.trans op
  have rotation := @Rotation.decode_rlwinm insn ⟨state.r, 0⟩ word
  have short : bits insn 16 20 < 32 := Nat.mod_lt _ (by decide)
  refine ⟨(Rotation.word insn ⟨state.r, 0⟩ false).result (state.r (bits insn 11 15)), ?_, ?_⟩
  · simp only [DispatchState.exec, op, Rotation.exec, rotation, Option.map_some]
    rfl
  · rw [Rotation.result, Rotation.word, Rotation.mb, Rotation.me, Rotation.sh, first, last]
    dsimp only
    rw [show 31 - bits insn 16 20 + 32 = 63 - bits insn 16 20 by omega, if_neg Bool.false_ne_true,
      BitVec.or_zero]
    exact rotate_shift ((state.r (bits insn 6 10)).setWidth 32) short

end Writes

/-- Behind an instruction of a dispatch, the low words are what its operands say, and the other
registers are as they were. -/
theorem low_exec (memory : BitVec 32 → Byte)
    (decoded : (dis.disassemble insn address).opcode = some id) {form : DispatchForm}
    (isForm : id.dispatchForm = some form) (shifts : (dis.disassemble insn address).ShiftsLeft)
    (state : DispatchState) :
    ∃ next, state.exec memory insn = some next ∧
      next.low = state.low.exec memory (dis.disassemble insn address) ∧
      ∀ index ≠ ((dis.disassemble insn address).operand 0).toNat,
        next.r index = state.r index := by
  obtain ⟨op, xops, operands, lis, mtctr⟩ := form_of_disassemble decoded isForm
  have source := fun isAddi : id = .addi => addi_source_ne_zero (isAddi ▸ decoded)
  rw [LowState.exec, decoded]
  generalize dis.disassemble insn address = code at decoded shifts operands
  have operand : ∀ {index : Nat} {field : PowerpcOperand}, form.operands[index]? = some field →
      code.operand index = field.decode insn address := fun here => operands _ _ here
  have xop : ∀ {number : Nat}, form.xop = some number → ppcXop insn = number := xops _
  have rt : ∀ {index : Nat}, form.operands[index]? = some .rt →
      (code.operand index).toNat = bits insn 6 10 := fun here => by rw [operand here, rt_decode]
  have ra : ∀ {index : Nat}, form.operands[index]? = some .ra →
      (code.operand index).toNat = bits insn 11 15 := fun here => by rw [operand here, ra_decode]
  have rb : ∀ {index : Nat}, form.operands[index]? = some .rb →
      (code.operand index).toNat = bits insn 16 20 := fun here => by rw [operand here, rb_decode]
  have si : ∀ {index : Nat}, form.operands[index]? = some .si →
      code.operand index = (immediate insn).signExtend 32 :=
    fun here => by rw [operand here, si_decode]
  have low : ∀ {index : Nat} {operand : Nat}, (code.operand operand).toNat = index →
      (state.r index).setWidth 32 = state.low.r (code.operand operand) := DispatchState.low_r
  cases id
  case lis =>
    obtain rfl := Option.some.inj isForm
    refine exists_write (by simp only [DispatchState.exec, op]; rfl) (rt rfl) ?_
    rw [setWidth_addImmediate, lis rfl, @si 1 rfl]
    exact BitVec.zero_add _
  case addi =>
    obtain rfl := Option.some.inj isForm
    refine exists_write (by simp only [DispatchState.exec, op]; rfl) (rt rfl) ?_
    rw [setWidth_addImmediate, DispatchState.base, if_neg (source rfl), @si 2 rfl,
      BitVec.shiftLeft_zero, @low _ 1 (ra rfl)]
  case rlwinm =>
    obtain rfl := Option.some.inj isForm
    obtain ⟨first, last⟩ := shifts decoded
    have count : (code.operand 2).toNat = bits insn 16 20 := by
      rw [@operand 2 .sh rfl]
      exact rb_decode insn address
    rw [@operand 3 .mb rfl, mb_decode] at first
    rw [@operand 4 .me rfl, me_decode, count] at last
    obtain ⟨value, ran, shifted⟩ := exec_shift op first last
    refine exists_write ran (ra rfl) ?_
    rw [shifted, count, @low _ 1 (rt rfl)]
  case lwzx =>
    obtain rfl := Option.some.inj isForm
    exact exists_load (by simp only [DispatchState.exec, op, xop rfl]) (rt rfl) (ra rfl) (rb rfl)
  case lbzx =>
    obtain rfl := Option.some.inj isForm
    exact exists_load (by simp only [DispatchState.exec, op, xop rfl]) (rt rfl) (ra rfl) (rb rfl)
  case lhzx =>
    obtain rfl := Option.some.inj isForm
    exact exists_load (by simp only [DispatchState.exec, op, xop rfl]) (rt rfl) (ra rfl) (rb rfl)
  case add =>
    obtain rfl := Option.some.inj isForm
    refine exists_write (by simp only [DispatchState.exec, op, xop rfl]; rfl) (rt rfl) ?_
    rw [BitVec.setWidth_add _ _ (by decide), @low _ 1 (ra rfl), @low _ 2 (rb rfl)]
  case mtctr =>
    obtain rfl := Option.some.inj isForm
    refine ⟨{ state with ctr := state.r (bits insn 6 10) },
      by simp only [DispatchState.exec, op, xop rfl, mtctr rfl, if_true], ?_, fun _ _ => rfl⟩
    dsimp only
    rw [← @low _ 0 (rt rfl)]
    rfl
  all_goals cases isForm

/-- A decoded instruction of a dispatch. -/
def Insn.Dispatches (dis : Disassembler) (code : Insn) : Prop :=
  code.ShiftsLeft ∧ ∃ address id form, code = dis.disassemble code.instruction address ∧
    code.opcode = some id ∧ id.dispatchForm = some form

/-- Instructions of a dispatch one after the other. -/
theorem low_execAll (memory : BitVec 32 → Byte) {codes : List Insn}
    (all : ∀ code ∈ codes, code.Dispatches dis) (state : DispatchState) :
    ∃ last, DispatchState.execAll memory (codes.map Insn.instruction) state = some last ∧
      last.low = LowState.execAll memory codes state.low ∧
      ∀ index, (∀ code ∈ codes, index ≠ (code.operand 0).toNat) →
        last.r index = state.r index := by
  induction codes generalizing state with
  | nil => exact ⟨state, rfl, rfl, fun _ _ => rfl⟩
  | cons code rest ih =>
      obtain ⟨shifts, address, id, form, same, decoded, isForm⟩ := all code List.mem_cons_self
      rw [same] at decoded shifts
      obtain ⟨next, ran, low, keeps⟩ := low_exec memory decoded isForm shifts state
      obtain ⟨last, ranAll, lowAll, keepsAll⟩ :=
        ih (fun other member => all other (List.mem_cons_of_mem _ member)) next
      refine ⟨last, ?_, ?_, fun index apart => ?_⟩
      · rw [List.map_cons, DispatchState.execAll, ran]
        exact ranAll
      · rw [lowAll, low, ← same]
        rfl
      · rw [← same] at keeps
        rw [keepsAll index fun other member => apart other (List.mem_cons_of_mem _ member),
          keeps index (apart code List.mem_cons_self)]

end Exec

/-! ## Blocks of a dispatch -/

/-- The address that two instructions put together. -/
def assembledAddress (high low : Insn) : Word := high.operand 1 <<< 16 + low.operand 2

namespace Insn

/-- The sources of an instruction, in one order or the other. -/
def Pairs (code : Insn) (left right : Word) : Prop :=
  code.operand 1 = left ∧ code.operand 2 = right ∨ code.operand 1 = right ∧ code.operand 2 = left

/-- The sources of a load, which is not relative to `r0`. -/
def Reads (code : Insn) (left right : Word) : Prop := code.operand 1 ≠ 0 ∧ code.Pairs left right

/-- An index is scaled by shifting it. -/
structure Scales (code : Insn) (index : Word) (count : Nat) : Prop where
  source : code.operand 1 = index
  count : (code.operand 2).toNat = count

/-- From an instruction on, an address is added to an entry and the sum is moved. -/
structure Offsets (code : Nat → Insn) (first : Nat) (entry : Word) : Prop where
  linked : (code (first + 1)).operand 1 = (code first).operand 0
  notHigh : entry ≠ (code first).operand 0
  notLow : entry ≠ (code (first + 1)).operand 0
  adds : (code (first + 2)).Pairs ((code (first + 1)).operand 0) entry
  moves : (code (first + 3)).operand 0 = (code (first + 2)).operand 0

end Insn

/-- The number of bytes that an instruction loads. -/
def PpcInst.loads : PpcInst → Option Nat
  | .lwzx => some 4
  | .lbzx => some 1
  | .lhzx => some 2
  | _ => none

namespace LowState

variable {memory : BitVec 32 → Byte} {code : Insn} {state : LowState}

theorem r_set_self (operand value : Word) : (state.set operand value).r operand = value :=
  Function.update_self _ _ _

theorem r_set_of_ne {operand other : Word} (value : Word) (apart : other ≠ operand) :
    (state.set operand value).r other = state.r other :=
  Function.update_of_ne apart _ _

theorem exec_rlwinm (opcode : code.opcode = some .rlwinm) :
    state.exec memory code =
      state.set (code.operand 0) (state.r (code.operand 1) <<< (code.operand 2).toNat) := by
  rw [exec, opcode]

theorem exec_mtctr (opcode : code.opcode = some .mtctr) :
    (state.exec memory code).ctr = state.r (code.operand 0) := by
  rw [exec, opcode]

/-- An addition of two registers. -/
theorem exec_add {left right : Word} (opcode : code.opcode = some .add)
    (pairs : code.Pairs left right) :
    state.exec memory code = state.set (code.operand 0) (state.r left + state.r right) := by
  rw [exec, opcode]
  obtain ⟨rfl, rfl⟩ | ⟨rfl, rfl⟩ := pairs
  · rfl
  · dsimp only
    rw [BitVec.add_comm]

/-- A load of an entry. -/
theorem exec_load {left right : Word} {id : PpcInst} {size : Nat}
    (opcode : code.opcode = some id) (loads : id.loads = some size)
    (reads : code.Reads left right) :
    state.exec memory code = state.set (code.operand 0)
      (BitVec.ofNat 32 (loadNumber memory (state.r left + state.r right) size)) := by
  obtain ⟨relative, pairs⟩ := reads
  have loaded : state.exec memory code = state.load memory code size := by
    rw [exec, opcode]
    cases id
    case lwzx | lbzx | lhzx => cases loads; rfl
    all_goals cases loads
  rw [loaded, load, base, if_neg relative]
  obtain ⟨rfl, rfl⟩ | ⟨rfl, rfl⟩ := pairs
  · rfl
  · rw [BitVec.add_comm]

/-- Two instructions put an address in a register. -/
theorem execAll_address {high low : Insn} (isLis : high.opcode = some .lis)
    (isAddi : low.opcode = some .addi) (linked : low.operand 1 = high.operand 0)
    (state : LowState) :
    (execAll memory [high, low] state).r (low.operand 0) = assembledAddress high low ∧
      ∀ other, other ≠ high.operand 0 → other ≠ low.operand 0 →
        (execAll memory [high, low] state).r other = state.r other := by
  have ran : execAll memory [high, low] state =
      (state.set (high.operand 0) (high.operand 1 <<< 16)).set (low.operand 0)
        (assembledAddress high low) := by
    change (state.exec memory high).exec memory low = _
    rw [exec, isAddi, exec, isLis]
    dsimp only
    rw [linked, r_set_self]
    rfl
  rw [ran]
  exact ⟨r_set_self _ _, fun other notHigh notLow => by
    rw [r_set_of_ne _ notLow, r_set_of_ne _ notHigh]⟩

/-- An entry is added to an address, and the sum moved to the count register. -/
theorem execAll_offsets {code : Nat → Insn} {first : Nat} {entry : Word}
    (isLis : (code first).opcode = some .lis) (isAddi : (code (first + 1)).opcode = some .addi)
    (isAdd : (code (first + 2)).opcode = some .add)
    (isMtctr : (code (first + 3)).opcode = some .mtctr) (offsets : Insn.Offsets code first entry)
    (state : LowState) :
    (execAll memory [code first, code (first + 1), code (first + 2), code (first + 3)] state).ctr =
      assembledAddress (code first) (code (first + 1)) + state.r entry := by
  obtain ⟨linked, notHigh, notLow, adds, moves⟩ := offsets
  obtain ⟨address, keeps⟩ := @execAll_address memory _ _ isLis isAddi linked state
  change (((execAll memory [code first, code (first + 1)] state).exec memory
    (code (first + 2))).exec memory (code (first + 3))).ctr = _
  rw [exec_mtctr isMtctr, exec_add isAdd adds, moves, r_set_self, address,
    keeps entry notHigh notLow]

end LowState

end UfcRecomp.Ppc
