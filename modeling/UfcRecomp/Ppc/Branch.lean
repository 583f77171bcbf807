import UfcRecomp.Ppc.Disasm

/-!
# Decoded branches

What the disassembler says about a branch and what the field macros say about its word.
-/

namespace UfcRecomp.Ppc

/-! ## Operands -/

/-- The displacement of a conditional branch. -/
theorem bd_value (insn : Word) : PowerpcOperand.bd.value insn = ppcBd insn := by
  rw [ppcBd_eq]
  change ((((insn >>> 0) &&& 0xFFFC#32) ^^^ 0x8000#32).toNat : Int) - ((0x8000#32).toNat : Int) = _
  rw [BitVec.ushiftRight_zero]

/-- The displacement of an immediate branch. -/
theorem li_value (insn : Word) : PowerpcOperand.li.value insn = ppcBi insn := by
  rw [ppcBi_eq]
  change ((((insn >>> 0) &&& 0x3FFFFFC#32) ^^^ 0x2000000#32).toNat : Int) -
    ((0x2000000#32).toNat : Int) = _
  rw [BitVec.ushiftRight_zero]

/-- The target of a conditional branch. -/
theorem bd_decode (insn : Word) (address : Nat) :
    ((PowerpcOperand.bd.decode insn address).toNat : Int) = (address + ppcBd insn) % 2 ^ 32 := by
  rw [PowerpcOperand.decode, bd_value, BitVec.toNat_ofInt]
  simp only [PowerpcOperand.bd, if_true]
  omega

/-- The target of an immediate branch. -/
theorem li_decode (insn : Word) (address : Nat) :
    ((PowerpcOperand.li.decode insn address).toNat : Int) = (address + ppcBi insn) % 2 ^ 32 := by
  rw [PowerpcOperand.decode, li_value, BitVec.toNat_ofInt]
  simp only [PowerpcOperand.li, if_true]
  omega

/-! ## Rows -/

/-- The operand that holds the target of a direct branch with a case in the recompiler. -/
def PpcInst.targetOperand : PpcInst → Option Nat
  | .b | .bl | .bdz | .bdnz => some 0
  | .bdnzf | .bdnzt | .bdzf | .beq | .bge | .bgt | .ble | .blt | .bne => some 1
  | _ => none

/-- The returns that look at a bit of the condition register. -/
def PpcInst.isConditionalReturn : PpcInst → Bool
  | .beqlr | .bgelr | .bgtlr | .blelr | .bltlr | .bnelr => true
  | _ => false

/-- The instructions that are no branches. -/
def PpcInst.isOrdinary : PpcInst → Bool
  | .cmplwi | .li | .lis | .addi | .rotlwi | .clrlwi | .rlwinm => true
  | .lwzx | .lbzx | .lhzx | .add | .mtctr | .other _ => true
  | _ => false

/-- Every row fixes the major opcode. -/
theorem row_op : ∀ row ∈ powerpcOpcodes, 0x3f &&& (row.mask >>> 26) = 0x3f := by
  decide

/-- The rows of the direct branches. -/
theorem row_target : ∀ row ∈ powerpcOpcodes, ∀ index ∈ row.id.targetOperand,
    1 &&& (row.mask >>> 0) = 1 ∧
      ((row.id = .b ∨ row.id = .bl) ∧ ppcOp row.opcode = ppcOpB ∧
          ppcBl row.opcode = decide (row.id = .bl) ∧ row.operands[index]? = some .li ∨
        (row.id ≠ .b ∧ row.id ≠ .bl) ∧ ppcOp row.opcode = ppcOpBc ∧ ppcBl row.opcode = false ∧
          row.operands[index]? = some .bd) := by
  decide

theorem PowerpcOpcode.Matches.op {row : PowerpcOpcode} (member : row ∈ powerpcOpcodes)
    {insn : Word} (matched : row.Matches insn) : ppcOp insn = ppcOp row.opcode :=
  congrArg BitVec.toNat (matched.field 26 0x3f (row_op row member))

theorem PowerpcOpcode.Matches.link {row : PowerpcOpcode} {insn : Word}
    (matched : row.Matches insn) (covered : 1 &&& (row.mask >>> 0) = 1) :
    ppcBl insn = ppcBl row.opcode := by
  have same := matched.field 0 1 covered
  rw [BitVec.ushiftRight_zero, BitVec.ushiftRight_zero] at same
  exact congrArg (· != 0#32) same

/-- An instruction that the model names was decoded by one of the rows. -/
theorem row_of_disassemble {dis : Disassembler} {insn : Word} {address : Nat} {id : PpcInst}
    (decoded : (dis.disassemble insn address).opcode = some id) (listed : id ≠ .unlistedBranch)
    (named : ∀ number, id ≠ .other number) :
    ∃ row ∈ powerpcOpcodes, row.Matches insn ∧ row.id = id ∧
      (dis.disassemble insn address).operands =
        row.operands.map fun operand => operand.decode insn address := by
  unfold Disassembler.disassemble at decoded ⊢
  cases search : powerpcOpcodes.find? fun row => row.Matches insn with
  | some row =>
      simp only [search, Option.some.injEq] at decoded
      exact ⟨row, List.mem_of_find?_eq_some search, by simpa using List.find?_some search, decoded,
        rfl⟩
  | none =>
      simp only [search] at decoded
      split_ifs at decoded
      · exact absurd (Option.some.inj decoded).symm listed
      · split at decoded
        · exact absurd (Option.some.inj decoded).symm (named _)
        · simp at decoded

/-- The word and the target of a direct branch. -/
theorem target_of_disassemble {dis : Disassembler} {insn : Word} {address index : Nat}
    {id : PpcInst} (decoded : (dis.disassemble insn address).opcode = some id)
    (target : id.targetOperand = some index) :
    (id = .b ∨ id = .bl) ∧ ppcOp insn = ppcOpB ∧ ppcBl insn = decide (id = .bl) ∧
        (((dis.disassemble insn address).operand index).toNat : Int) =
          (address + ppcBi insn) % 2 ^ 32 ∨
      (id ≠ .b ∧ id ≠ .bl) ∧ ppcOp insn = ppcOpBc ∧ ppcBl insn = false ∧
        (((dis.disassemble insn address).operand index).toNat : Int) =
          (address + ppcBd insn) % 2 ^ 32 := by
  obtain ⟨row, member, matched, rfl, operands⟩ := row_of_disassemble decoded
    (by rintro rfl; simp [PpcInst.targetOperand] at target)
    (by rintro number rfl; simp [PpcInst.targetOperand] at target)
  have operand : ∀ field, row.operands[index]? = some field →
      (dis.disassemble insn address).operand index = field.decode insn address := by
    intro field here
    rw [Insn.operand, operands, List.getD_eq_getElem?_getD, List.getElem?_map, here]
    rfl
  obtain ⟨covered, ⟨isB, op, link, field⟩ | ⟨isBc, op, link, field⟩⟩ :=
    row_target row member index target
  · refine .inl ⟨isB, (matched.op member).trans op, (matched.link covered).trans link, ?_⟩
    rw [operand _ field, li_decode]
  · refine .inr ⟨isBc, (matched.op member).trans op, (matched.link covered).trans link, ?_⟩
    rw [operand _ field, bd_decode]

/-! ## Conditions -/

/-- What the condition of a branch looks at. -/
structure BranchState where
  ctr : BitVec 64
  cr : Nat → Bool

/-- The bit of the condition register that a branch names. -/
def conditionBit (insn : Word) : Nat := ((insn >>> 16) &&& 0x1f#32).toNat

/-- A flag of the branch operation. -/
def branchFlag (insn flag : Word) : Bool := (insn >>> 21) &&& flag ≠ 0

/-- The count register behind a branch. -/
def branchCtr (insn : Word) (ctr : BitVec 64) : BitVec 64 :=
  if branchFlag insn 4 then ctr else ctr - 1

/-- Whether a branch that tests a bit of the condition register is taken. Of the count register
it tests the low word. -/
def takenOn (insn : Word) (state : BranchState) (bit : Nat) : Bool :=
  (branchFlag insn 4 ||
    ((branchCtr insn state.ctr).setWidth 32 ≠ 0#32) != branchFlag insn 2) &&
  (branchFlag insn 0x10 || state.cr bit == branchFlag insn 8)

/-- Whether a branch is taken. -/
def taken (insn : Word) (state : BranchState) : Bool := takenOn insn state (conditionBit insn)

/-- What a mnemonic says about its condition: whether the counter must be zero behind the branch,
and whether the bit must be clear. -/
structure BranchTest where
  counter : Option Bool
  bit : Option Bool
  deriving DecidableEq

def PpcInst.branchTest : PpcInst → Option BranchTest
  | .bdz | .bdzlr => some ⟨some true, none⟩
  | .bdnz => some ⟨some false, none⟩
  | .bdnzf => some ⟨some false, some true⟩
  | .bdnzt => some ⟨some false, some false⟩
  | .bdzf => some ⟨some true, some true⟩
  | .beq | .beqlr | .bgt | .bgtlr | .blt | .bltlr => some ⟨none, some false⟩
  | .bge | .bgelr | .ble | .blelr | .bne | .bnectr | .bnelr => some ⟨none, some true⟩
  | _ => none

namespace BranchTest

/-- The condition of a mnemonic, for the counter behind the branch and the bit. -/
def holds (test : BranchTest) (ctr : BitVec 32) (bit : Bool) : Bool :=
  (test.counter.all fun zero => (ctr = 0#32) == zero) && test.bit.all fun clear => bit != clear

/-- The flags of the branch operation that a mnemonic stands for. -/
def flags (test : BranchTest) : List (Word × Bool) :=
  [(4, test.counter.isNone), (0x10, test.bit.isNone)] ++
    (test.counter.map fun zero => ((2 : Word), zero)).toList ++
    (test.bit.map fun clear => ((8 : Word), !clear)).toList

end BranchTest

/-- The rows of conditional branches fix the flags. -/
theorem row_flags : ∀ row ∈ powerpcOpcodes, ∀ test ∈ row.id.branchTest, ∀ flag ∈ test.flags,
    flag.1 &&& (row.mask >>> 21) = flag.1 ∧ branchFlag row.opcode flag.1 = flag.2 := by
  have checked : (powerpcOpcodes.all fun row => row.id.branchTest.all fun test =>
      test.flags.all fun flag => (flag.1 &&& (row.mask >>> 21) == flag.1) &&
        (branchFlag row.opcode flag.1 == flag.2)) = true := by decide
  intro row member test known flag listed
  have rowChecked := List.all_eq_true.mp checked row member
  rw [show row.id.branchTest = some test from known, Option.all_some] at rowChecked
  have flagChecked := List.all_eq_true.mp rowChecked flag listed
  rw [Bool.and_eq_true, beq_iff_eq, beq_iff_eq] at flagChecked
  exact flagChecked

theorem PowerpcOpcode.Matches.flags {row : PowerpcOpcode} (member : row ∈ powerpcOpcodes)
    {insn : Word} (matched : row.Matches insn) {test : BranchTest}
    (known : row.id.branchTest = some test) :
    ∀ flag ∈ test.flags, branchFlag insn flag.1 = flag.2 := by
  intro flag listed
  obtain ⟨covered, value⟩ := row_flags row member test known flag listed
  rw [← value, branchFlag, branchFlag, matched.field 21 flag.1 covered]

/-- What the flags of a mnemonic make of a branch. -/
theorem takenOn_of_flags {insn : Word} {test : BranchTest}
    (flags : ∀ flag ∈ test.flags, branchFlag insn flag.1 = flag.2) (state : BranchState)
    (bit : Nat) :
    branchCtr insn state.ctr = (if test.counter.isSome then state.ctr - 1 else state.ctr) ∧
      takenOn insn state bit =
        test.holds ((branchCtr insn state.ctr).setWidth 32) (state.cr bit) := by
  have keeps : branchFlag insn 4 = test.counter.isNone := flags (4, _) (List.mem_cons_self ..)
  have always : branchFlag insn 0x10 = test.bit.isNone :=
    flags (0x10, _) (List.mem_cons_of_mem _ (List.mem_cons_self ..))
  constructor
  · rw [branchCtr, keeps]
    cases test.counter <;> rfl
  · rw [takenOn, keeps, always, BranchTest.holds]
    congr 1
    · cases known : test.counter with
      | none => rfl
      | some zero =>
          have direction : branchFlag insn 2 = zero :=
            flags (2, zero) (by simp [BranchTest.flags, known])
          rw [direction]
          by_cases empty : (branchCtr insn state.ctr).setWidth 32 = 0#32 <;> cases zero <;>
            simp [empty]
    · cases known : test.bit with
      | none => rfl
      | some clear =>
          have direction : branchFlag insn 8 = !clear :=
            flags (8, !clear) (by simp [BranchTest.flags, known])
          rw [direction]
          cases state.cr bit <;> cases clear <;> rfl

/-- The bit of a field that a mnemonic names. -/
def PpcInst.branchBit : PpcInst → Option Nat
  | .blt | .bltlr | .bge | .bgelr => some 0
  | .bgt | .bgtlr | .ble | .blelr => some 1
  | .beq | .beqlr | .bne | .bnectr | .bnelr => some 2
  | _ => none

/-- The first operand of such a mnemonic is the field. -/
theorem row_branchBit : ∀ row ∈ powerpcOpcodes, ∀ bit ∈ row.id.branchBit,
    3#32 &&& (row.mask >>> 16) = 3#32 ∧ ((row.opcode >>> 16) &&& 3#32).toNat = bit ∧
      row.operands[0]? = some .cr := by
  decide

/-- The branches that test the counter and a bit. -/
def PpcInst.testsBoth : PpcInst → Bool
  | .bdnzf | .bdnzt | .bdzf => true
  | _ => false

/-- They have the bit as their first operand. -/
theorem row_conditionBit : ∀ row ∈ powerpcOpcodes, row.id.testsBoth = true →
    row.operands[0]? = some .bi := by
  decide

theorem toNat_and_ones {insn mask : Word} {shift width : Nat} (ones : mask.toNat = 2 ^ width - 1) :
    ((insn >>> shift) &&& mask).toNat = insn.toNat / 2 ^ shift % 2 ^ width := by
  rw [BitVec.toNat_and, ones, Nat.and_two_pow_sub_one_eq_mod, BitVec.toNat_ushiftRight,
    Nat.shiftRight_eq_div_pow]

/-- The value of an operand that is a plain field. -/
theorem decode_field {operand : PowerpcOperand} (unsigned : operand.signed = false)
    (fixed : operand.relative = false) (insn : Word) (address : Nat) :
    (operand.decode insn address).toNat = ((insn >>> operand.shift) &&& operand.bitm).toNat := by
  have bound := ((insn >>> operand.shift) &&& operand.bitm).isLt
  simp only [PowerpcOperand.decode, PowerpcOperand.value, BitVec.toNat_ofInt, unsigned, fixed,
    Bool.false_eq_true, if_false]
  omega

theorem cr_decode (insn : Word) (address : Nat) :
    (PowerpcOperand.cr.decode insn address).toNat = conditionBit insn / 4 := by
  have field := @toNat_and_ones insn 7#32 18 3 rfl
  have bit := @toNat_and_ones insn 0x1f#32 16 5 rfl
  have value : (PowerpcOperand.cr.decode insn address).toNat = ((insn >>> 18) &&& 7#32).toNat :=
    @decode_field .cr rfl rfl insn address
  rw [value, field, conditionBit, bit]
  omega

theorem bi_decode (insn : Word) (address : Nat) :
    (PowerpcOperand.bi.decode insn address).toNat = conditionBit insn :=
  @decode_field .bi rfl rfl insn address

/-- The bit that a mnemonic with a field names. -/
theorem PowerpcOpcode.Matches.conditionBit {row : PowerpcOpcode} (member : row ∈ powerpcOpcodes)
    {insn : Word} (matched : row.Matches insn) {bit : Nat} (named : row.id.branchBit = some bit) :
    Ppc.conditionBit insn % 4 = bit := by
  obtain ⟨covered, value, -⟩ := row_branchBit row member bit named
  have same := congrArg BitVec.toNat (matched.field 16 3#32 covered)
  have low := @toNat_and_ones insn 3#32 16 2 rfl
  have whole := @toNat_and_ones insn 0x1f#32 16 5 rfl
  rw [same, value] at low
  rw [Ppc.conditionBit, whole]
  omega

end UfcRecomp.Ppc
