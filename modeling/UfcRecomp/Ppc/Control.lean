import UfcRecomp.Ppc.Branch

/-!
# Where branches go

The branch forms of the architecture by their bits: a branch goes to its displacement, to the link
register or to the count register, if its condition holds, and may set the link register. The rows
of the opcode table say which mnemonics are which.
-/

namespace UfcRecomp.Ppc

/-- Where a branch has its target from. -/
inductive BranchSource where
  | displacement
  | link
  | count
  deriving DecidableEq

/-- What a branch has its target from; other instructions go on to the next word. -/
def branchSource (insn : Word) : Option BranchSource :=
  if ppcOp insn = ppcOpB ∨ ppcOp insn = ppcOpBc then
    some .displacement
  else if ppcOp insn = ppcOpCtr ∧ ppcXop insn = 16 then
    some .link
  else if ppcOp insn = ppcOpCtr ∧ ppcXop insn = 528 then
    some .count
  else
    none

/-- The displacement of a branch. -/
def branchDisplacement (insn : Word) : Int :=
  if ppcOp insn = ppcOpB then ppcBi insn else ppcBd insn

/-- An address in a register, without the bits that say nothing. -/
def instructionAddress (register : BitVec 32) : Nat := register.toNat / 4 * 4

/-- The target of a branch at an address. -/
def BranchSource.target (source : BranchSource) (insn : Word) (address : Nat)
    (lr ctr : BitVec 32) : Nat :=
  match source with
  | .displacement =>
    (((if ppcBa insn then 0 else (address : Int)) + branchDisplacement insn) % 2 ^ 32).toNat
  | .link => instructionAddress lr
  | .count => instructionAddress ctr

/-- Whether a branch decrements the counter. -/
def countsDown (insn : Word) : Bool := ppcOp insn ≠ ppcOpB ∧ branchFlag insn 4 = false

/-- Whether a branch is taken; one without a condition always is. -/
def isTaken (insn : Word) (state : BranchState) : Bool := ppcOp insn = ppcOpB || taken insn state

/-! ## Mnemonics -/

/-- What a mnemonic has its target from. -/
def PpcInst.source : PpcInst → Option BranchSource
  | .b | .bl | .bdz | .bdnz | .bdnzf | .bdnzt | .bdzf => some .displacement
  | .beq | .bge | .bgt | .ble | .blt | .bne => some .displacement
  | .blr | .blrl | .bdzlr | .beqlr | .bgelr | .bgtlr | .blelr | .bltlr | .bnelr => some .link
  | .bctr | .bctrl | .bnectr => some .count
  | _ => none

/-- The mnemonics that set the link register. -/
def PpcInst.links : PpcInst → Bool
  | .bl | .blrl | .bctrl => true
  | _ => false

/-- The branches to a register that are always taken. -/
def PpcInst.always : PpcInst → Bool
  | .blr | .blrl | .bctr | .bctrl => true
  | _ => false

/-- Every row fixes the bits that say what an instruction has its target from. -/
theorem row_source : ∀ row ∈ powerpcOpcodes,
    row.id.source = branchSource row.opcode ∧
      (ppcOp row.opcode = ppcOpCtr → 0x3ff &&& (row.mask >>> 1) = 0x3ff) := by
  decide

/-- The rows of branches fix the link bit, and the absolute bit where there is one. -/
theorem row_links : ∀ row ∈ powerpcOpcodes, row.id.source.isSome →
    1 &&& (row.mask >>> 0) = 1 ∧ ppcBl row.opcode = row.id.links ∧
      (row.id.source = some .displacement →
        2 &&& (row.mask >>> 0) = 2 ∧ ppcBa row.opcode = false) := by
  decide

/-- The rows of branches without a condition fix the flags. -/
theorem row_always : ∀ row ∈ powerpcOpcodes, row.id.always →
    (4 &&& (row.mask >>> 21) = 4 ∧ branchFlag row.opcode 4 = true) ∧
      0x10 &&& (row.mask >>> 21) = 0x10 ∧ branchFlag row.opcode 0x10 = true := by
  decide

/-- A mnemonic with a condition is a branch that does not link. -/
theorem PpcInst.source_of_branchTest {id : PpcInst} {test : BranchTest}
    (conditional : id.branchTest = some test) :
    (∃ source, id.source = some source) ∧ id.links = false ∧ id ≠ .unlistedBranch := by
  cases id
  case bdz | bdnz | bdnzf | bdnzt | bdzf | beq | bge | bgt | ble | blt | bne =>
    exact ⟨⟨.displacement, rfl⟩, rfl, by simp⟩
  case bdzlr | beqlr | bgelr | bgtlr | blelr | bltlr | bnelr => exact ⟨⟨.link, rfl⟩, rfl, by simp⟩
  case bnectr => exact ⟨⟨.count, rfl⟩, rfl, by simp⟩
  all_goals cases conditional

/-- A direct branch has a displacement. -/
theorem PpcInst.source_of_targetOperand {id : PpcInst} {index : Nat}
    (direct : id.targetOperand = some index) : id.source = some .displacement := by
  cases id
  case b | bl | bdz | bdnz | bdnzf | bdnzt | bdzf | beq | bge | bgt | ble | blt | bne => rfl
  all_goals cases direct

/-- The other branches with a condition go to the link register, or there is no counter in it. -/
theorem PpcInst.source_of_indirect {id : PpcInst} {test : BranchTest}
    (conditional : id.branchTest = some test) (indirect : id.targetOperand = none) :
    id = .bnectr ∧ test.counter = none ∨ id ≠ .bnectr ∧ id.source = some .link := by
  cases id
  case bnectr =>
    obtain rfl := Option.some.inj conditional
    exact .inl ⟨rfl, rfl⟩
  case bdzlr | beqlr | bgelr | bgtlr | blelr | bltlr | bnelr => exact .inr ⟨by simp, rfl⟩
  case bdz | bdnz | bdnzf | bdnzt | bdzf | beq | bge | bgt | ble | blt | bne => cases indirect
  all_goals cases conditional

/-- The other branches. -/
theorem PpcInst.eq_of_source {id : PpcInst} (isSource : id.source.isSome)
    (unconditional : id.branchTest = none) :
    id = .b ∨ id = .bl ∨ id = .blr ∨ id = .blrl ∨ id = .bctr ∨ id = .bctrl := by
  cases id
  case b | bl | blr | blrl | bctr | bctrl => simp
  case bdz | bdnz | bdnzf | bdnzt | bdzf | beq | bge | bgt | ble | blt | bne => cases unconditional
  case bdzlr | beqlr | bgelr | bgtlr | blelr | bltlr | bnelr | bnectr => cases unconditional
  all_goals cases isSource

section Decoded

variable {dis : Disassembler} {insn : Word} {address : Nat} {id : PpcInst}
  (decoded : (dis.disassemble insn address).opcode = some id)
include decoded

/-- A mnemonic has its target from where the bits say. -/
theorem source_of_disassemble (listed : id ≠ .unlistedBranch) : branchSource insn = id.source := by
  unfold Disassembler.disassemble at decoded
  cases search : powerpcOpcodes.find? fun row => row.Matches insn with
  | some row =>
      simp only [search, Option.some.injEq] at decoded
      have member := List.mem_of_find?_eq_some search
      have matched : row.Matches insn := by simpa using List.find?_some search
      obtain ⟨same, covered⟩ := row_source row member
      have op : ppcOp insn = ppcOp row.opcode := matched.op member
      rw [← decoded, same, branchSource, branchSource, op]
      by_cases isCtr : ppcOp row.opcode = ppcOpCtr
      · have xop : ppcXop insn = ppcXop row.opcode :=
          congrArg BitVec.toNat (matched.field 1 0x3ff (covered isCtr))
        rw [xop]
      · simp only [isCtr, false_and, if_false]
  | none =>
      simp only [search] at decoded
      split_ifs at decoded with isBranch isListed
      · exact absurd (Option.some.inj decoded).symm listed
      · split at decoded
        next number operands found =>
          obtain rfl := Option.some.inj decoded
          simp only [IsBranch, not_or, not_and] at isBranch
          obtain ⟨notBc, notB, notCtr⟩ := isBranch
          rw [branchSource, if_neg (not_or.mpr ⟨notB, notBc⟩), if_neg fun both => ?_,
            if_neg fun both => ?_]
          · rfl
          · exact (notCtr both.1).2 both.2
          · exact (notCtr both.1).1 both.2
        · simp at decoded

/-- A branch was decoded by one of the rows. -/
theorem row_of_source (isSource : id.source.isSome) :
    ∃ row ∈ powerpcOpcodes, row.Matches insn ∧ row.id = id := by
  obtain ⟨row, member, matched, same, -⟩ := row_of_disassemble decoded
    (by rintro rfl; simp [PpcInst.source] at isSource)
    (by rintro number rfl; simp [PpcInst.source] at isSource)
  exact ⟨row, member, matched, same⟩

theorem links_of_disassemble (isSource : id.source.isSome) : ppcBl insn = id.links := by
  obtain ⟨row, member, matched, rfl⟩ := row_of_source decoded isSource
  obtain ⟨covered, links, -⟩ := row_links row member isSource
  exact (matched.link covered).trans links

/-- The mnemonics have no absolute form. -/
theorem relative_of_disassemble (isSource : id.source = some .displacement) :
    ppcBa insn = false := by
  obtain ⟨row, member, matched, rfl⟩ := row_of_source decoded (by rw [isSource]; rfl)
  obtain ⟨-, -, absolute⟩ := row_links row member (by rw [isSource]; rfl)
  obtain ⟨covered, relative⟩ := absolute isSource
  have same := matched.field 0 2 covered
  rw [BitVec.ushiftRight_zero, BitVec.ushiftRight_zero] at same
  rw [← relative]
  exact congrArg (· != 0#32) same

/-- A branch that is always taken does not count. -/
theorem always_of_disassemble (always : id.always = true) (state : BranchState) :
    branchFlag insn 4 = true ∧ taken insn state = true := by
  have isSource : id.source.isSome := by
    cases id <;> first | rfl | cases always
  obtain ⟨row, member, matched, rfl⟩ := row_of_source decoded isSource
  obtain ⟨⟨coversCounter, counts⟩, coversBit, tests⟩ := row_always row member always
  have counter : branchFlag insn 4 = true := by
    rw [← counts, branchFlag, branchFlag, matched.field 21 4 coversCounter]
  have condition : branchFlag insn 0x10 = true := by
    rw [← tests, branchFlag, branchFlag, matched.field 21 0x10 coversBit]
  constructor
  · exact counter
  · rw [taken, takenOn, counter, condition, Bool.true_or, Bool.true_or, Bool.and_true]

/-- A branch without a condition is taken and does not count. -/
theorem unconditional_of_disassemble (isSource : id.source.isSome)
    (unconditional : id.branchTest = none) (state : BranchState) :
    countsDown insn = false ∧ isTaken insn state = true := by
  by_cases direct : id = .b ∨ id = .bl
  · have operand : id.targetOperand = some 0 := by
      rcases direct with rfl | rfl <;> rfl
    obtain ⟨-, op, -⟩ | ⟨⟨notB, notBl⟩, -⟩ := target_of_disassemble decoded operand
    · simp [countsDown, isTaken, op]
    · exact absurd direct (not_or.mpr ⟨notB, notBl⟩)
  · have always : id.always = true := by
      rcases PpcInst.eq_of_source isSource unconditional with rfl | rfl | rfl | rfl | rfl | rfl
      · exact absurd (.inl rfl) direct
      · exact absurd (.inr rfl) direct
      all_goals rfl
    obtain ⟨counter, taken⟩ := always_of_disassemble decoded always state
    rw [countsDown, isTaken, counter, taken]
    simp

end Decoded

end UfcRecomp.Ppc
