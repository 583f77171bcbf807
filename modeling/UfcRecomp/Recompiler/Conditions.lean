import UfcRecomp.Ppc.Branch
import UfcRecomp.Recompiler.LocalRuns

/-!
# Conditional branches

The statements of a conditional branch decrement the counter, where they do, and leave the line
when their condition holds. That is what the instruction does, except that `bdnzf`, `bdnzt` and
`bdzf` look at the `eq` of the field whose bit they name.
-/

namespace UfcRecomp.Recompiler

open UfcRecomp.Ppc UfcRecomp.Utils UfcRecomp.Analyze UfcRecomp.Lib

/-! ## Lines -/

/-- Run the statements of a branch: the members behind them, and the actions that were left to
do. -/
def runBranch : List Statement → Members → Members × List Action
  | .act .decrementCtr :: rest, members => runBranch rest (decremented members)
  | .ifThen condition actions :: _, members =>
    (members, if condition.holds members then actions else [])
  | _, members => (members, [])

/-- Whether actions go on elsewhere. -/
def leaves (actions : List Action) : Bool :=
  match actions.getLast? with
  | some (.goto _) | some .ret => true
  | _ => false

/-- Whether a member is not zero. -/
def isSet (members : Members) (member : Member) : Bool := members member ≠ 0

/-- What a branch looks at. -/
def branchState (members : Members) : BranchState where
  ctr := members .ctrHigh ++ members .ctrLow
  cr bit := isSet members (crb bit)

/-- Decrementing the two halves decrements the counter. -/
theorem branchState_decremented (members : Members) :
    branchState (decremented members) =
      { branchState members with ctr := (branchState members).ctr - 1 } := by
  have counter : ∀ value : BitVec 64,
      (value.extractLsb' 32 32 ++ value.setWidth 32 : BitVec 64) = value := by
    intro value
    ext i bound
    grind
  rw [branchState, decremented, decremented, counter]
  rfl

/-- A condition on the counter tests its low word. -/
theorem ctrLow_eq (members : Members) :
    members .ctrLow = (branchState members).ctr.setWidth 32 := by
  ext i bound
  rw [branchState]
  grind

/-! ## Cases -/

/-- The bit that the statements look at. A branch that tests the counter too takes the `eq` of the
field that it names a bit of. -/
def testedBit (id : PpcInst) (insn : Word) : Nat :=
  if id.testsBoth then 4 * (conditionBit insn / 4) + 2 else conditionBit insn

/-- The statements of a branch with a condition. -/
def printTest (test : BranchTest) (condition : Condition) (actions : List Action) :
    List Statement :=
  (if test.counter.isSome then [.act .decrementCtr] else []) ++ [.ifThen condition actions]

/-- A condition says what a test says, for the bit that is tested. -/
def Condition.Tests (condition : Condition) (test : BranchTest) (bit : Nat) : Prop :=
  ∀ members, condition.holds members = test.holds (members .ctrLow) (isSet members (crb bit))

theorem printConditionalBranchTo_eq (emitter : Emitter) (fn : Function) (target : Nat)
    (condition : Condition) :
    ∃ actions, leaves actions = true ∧
      emitter.printConditionalBranchTo fn target condition = [.ifThen condition actions] := by
  unfold Emitter.printConditionalBranchTo
  split_ifs
  · exact ⟨[.goto target], rfl, rfl⟩
  · exact ⟨emitter.printFunctionCall target ++ [.ret], by simp [leaves], rfl⟩

theorem tests_ctr (zero : Bool) (bit : Nat) :
    (Condition.ctr zero).Tests ⟨some zero, none⟩ bit := by
  intro members
  simp [Condition.holds, BranchTest.holds]

theorem tests_cr {cond : CrField} {bit : Nat} (named : crb bit = .cr (bit / 4) cond.member)
    (negated : Bool) :
    (Condition.cr negated (bit / 4) cond).Tests ⟨none, some negated⟩ bit := by
  intro members
  rw [BranchTest.holds, named]
  rfl

/-- The place of a member in its field. -/
def CrField.position : CrField → Nat
  | .lt => 0
  | .gt => 1
  | .eq => 2

theorem crb_of_position {bit : Nat} {cond : CrField} (low : bit % 4 = cond.position) :
    crb bit = .cr (bit / 4) cond.member := by
  cases cond <;> simp only [crb, low, CrField.position, CrField.member]

theorem tests_ctrAndEq (zero negated : Bool) (index : Nat) :
    (Condition.ctrAndEq zero negated index).Tests ⟨some zero, some negated⟩ (4 * index + 2) := by
  have field : (4 * index + 2) / 4 = index := by omega
  have bit : (4 * index + 2) % 4 = 2 := by omega
  have named : crb (4 * index + 2) = .cr index .eq := by simp only [crb, field, bit]
  intro members
  rw [BranchTest.holds, named]
  rfl

/-- The member that a mnemonic names, by its first operand. -/
theorem crb_conditionBit {dis : Disassembler} {insn : Word} {address bit : Nat} {id : PpcInst}
    (decoded : (dis.disassemble insn address).opcode = some id)
    (named : id.branchBit = some bit) :
    ((dis.disassemble insn address).operand 0).toNat = conditionBit insn / 4 ∧
      conditionBit insn % 4 = bit := by
  obtain ⟨row, member, matched, rfl, operands⟩ := row_of_disassemble decoded
    (by rintro rfl; simp [PpcInst.branchBit] at named)
    (by rintro number rfl; simp [PpcInst.branchBit] at named)
  obtain ⟨-, -, field⟩ := row_branchBit row member bit named
  constructor
  · rw [Insn.operand, operands, List.getD_eq_getElem?_getD, List.getElem?_map, field]
    exact cr_decode insn address
  · exact matched.conditionBit member named

theorem operand_testsBoth {dis : Disassembler} {insn : Word} {address : Nat} {id : PpcInst}
    (decoded : (dis.disassemble insn address).opcode = some id)
    (both : id.testsBoth = true) :
    ((dis.disassemble insn address).operand 0).toNat = conditionBit insn := by
  obtain ⟨row, member, matched, rfl, operands⟩ := row_of_disassemble decoded
    (by rintro rfl; simp [PpcInst.testsBoth] at both)
    (by rintro number rfl; simp [PpcInst.testsBoth] at both)
  rw [Insn.operand, operands, List.getD_eq_getElem?_getD, List.getElem?_map,
    row_conditionBit row member both]
  exact bi_decode insn address

/-- A case prints the statements of a test. -/
def Emitter.PrintsTest (emitter : Emitter) (fn : Function) (base : Nat) (insn : Insn)
    (id : PpcInst) (switchTable : Option RecompilerSwitchTable) (test : BranchTest) (bit : Nat) :
    Prop :=
  ∃ condition actions, leaves actions = true ∧ condition.Tests test bit ∧
    emitter.recompileCase fn base insn id switchTable =
      some (printTest test condition actions, switchTable)

section Prints

variable {emitter : Emitter} {fn : Function} {base : Nat} {insn : Insn} {id : PpcInst}
  {switchTable : Option RecompilerSwitchTable} {test : BranchTest} {bit : Nat}
  {condition : Condition}

theorem prints_branchTo {target : Nat} (tests : condition.Tests test bit)
    (printed : emitter.recompileCase fn base insn id switchTable =
      some ((if test.counter.isSome then [.act .decrementCtr] else []) ++
        emitter.printConditionalBranchTo fn target condition, switchTable)) :
    emitter.PrintsTest fn base insn id switchTable test bit := by
  obtain ⟨actions, leave, shape⟩ := printConditionalBranchTo_eq emitter fn target condition
  exact ⟨condition, actions, leave, tests, by rw [printed, shape, printTest]⟩

theorem prints_actions {actions : List Action} (tests : condition.Tests test bit)
    (leave : leaves actions = true)
    (printed : emitter.recompileCase fn base insn id switchTable =
      some (printTest test condition actions, switchTable)) :
    emitter.PrintsTest fn base insn id switchTable test bit :=
  ⟨condition, actions, leave, tests, printed⟩

end Prints

/-- The case of every conditional branch prints its test. -/
theorem recompileCase_branch (emitter : Emitter) (fn : Function) (base : Nat) {insn : Word}
    {address : Nat} {id : PpcInst} {test : BranchTest}
    (decoded : (emitter.dis.disassemble insn address).opcode = some id)
    (conditional : id.branchTest = some test) (switchTable : Option RecompilerSwitchTable) :
    emitter.PrintsTest fn base (emitter.dis.disassemble insn address) id switchTable test
      (testedBit id insn) := by
  -- The condition of a mnemonic with a field, for the bit that the word names.
  have field : ∀ (negated : Bool) (cond : CrField), id.branchBit = some cond.position →
      (Condition.cr negated ((emitter.dis.disassemble insn address).operand 0).toNat cond).Tests
        ⟨none, some negated⟩ (conditionBit insn) := by
    intro negated cond known
    obtain ⟨index, low⟩ := crb_conditionBit decoded known
    rw [index]
    exact tests_cr (crb_of_position low) negated
  have second : ∀ (zero negated : Bool), id.testsBoth = true →
      (Condition.ctrAndEq zero negated
        (((emitter.dis.disassemble insn address).operand 0).toNat / 4)).Tests
        ⟨some zero, some negated⟩ (testedBit id insn) := by
    intro zero negated known
    rw [operand_testsBoth decoded known, testedBit, if_pos known]
    exact tests_ctrAndEq zero negated _
  cases id <;> simp only [PpcInst.branchTest, Option.some.injEq, reduceCtorEq] at conditional <;>
    subst conditional
  case bdz => exact prints_branchTo (tests_ctr true _) rfl
  case bdnz => exact prints_branchTo (tests_ctr false _) rfl
  case bdzlr => exact prints_actions (tests_ctr true _) rfl rfl
  case bdnzf => exact prints_branchTo (second false true rfl) rfl
  case bdnzt => exact prints_branchTo (second false false rfl) rfl
  case bdzf => exact prints_branchTo (second true true rfl) rfl
  case beq => exact prints_branchTo (field false .eq rfl) rfl
  case bge => exact prints_branchTo (field true .lt rfl) rfl
  case bgt => exact prints_branchTo (field false .gt rfl) rfl
  case ble => exact prints_branchTo (field true .gt rfl) rfl
  case blt => exact prints_branchTo (field false .lt rfl) rfl
  case bne => exact prints_branchTo (field true .eq rfl) rfl
  case beqlr => exact prints_actions (field false .eq rfl) rfl rfl
  case bgelr => exact prints_actions (field true .lt rfl) rfl rfl
  case bgtlr => exact prints_actions (field false .gt rfl) rfl rfl
  case blelr => exact prints_actions (field true .gt rfl) rfl rfl
  case bltlr => exact prints_actions (field false .lt rfl) rfl rfl
  case bnelr => exact prints_actions (field true .eq rfl) rfl rfl
  case bnectr => exact prints_actions (field true .eq rfl) rfl rfl

/-- What the statements of a test do. -/
theorem runBranch_printTest {test : BranchTest} {condition : Condition} {bit : Nat}
    {actions : List Action} (tests : condition.Tests test bit) (members : Members) :
    let after := if test.counter.isSome then decremented members else members
    runBranch (printTest test condition actions) members =
      (after, if test.holds (after .ctrLow) (isSet after (crb bit)) then actions else []) := by
  intro after
  cases known : test.counter with
  | none => simp [after, known, printTest, runBranch, tests members]
  | some zero => simp [after, known, printTest, runBranch, tests (decremented members)]

theorem leaves_ite {actions : List Action} (holds : Bool) (leave : leaves actions = true) :
    leaves (if holds then actions else []) = holds := by
  cases holds
  · rfl
  · exact leave

/-- A conditional branch decrements the counter and is taken as it should be, with the bit that its
statements look at. The condition register stays. -/
theorem conditional_branch (emitter : Emitter) (fn : Function) (base : Nat) (insn : Word)
    (address : Nat) (id : PpcInst) (switchTable : Option RecompilerSwitchTable)
    (decoded : (emitter.dis.disassemble insn address).opcode = some id)
    (conditional : id.branchTest.isSome = true) :
    ∃ statements, emitter.recompileCase fn base (emitter.dis.disassemble insn address) id
        switchTable = some (statements, switchTable) ∧
      ∀ members,
        branchState (runBranch statements members).1 =
            { branchState members with ctr := branchCtr insn (branchState members).ctr } ∧
          leaves (runBranch statements members).2 =
            takenOn insn (branchState members) (testedBit id insn) := by
  obtain ⟨test, known⟩ := Option.isSome_iff_exists.mp conditional
  obtain ⟨condition, actions, leave, tests, printed⟩ :=
    recompileCase_branch emitter fn base decoded known switchTable
  refine ⟨_, printed, fun members => ?_⟩
  obtain ⟨row, member, matched, rfl, -⟩ := row_of_disassemble decoded
    (by rintro rfl; simp [PpcInst.branchTest] at known)
    (by rintro number rfl; simp [PpcInst.branchTest] at known)
  obtain ⟨counter, takes⟩ := takenOn_of_flags (matched.flags member known) (branchState members)
    (testedBit row.id insn)
  have state : branchState (if test.counter.isSome then decremented members else members) =
      { branchState members with ctr := branchCtr insn (branchState members).ctr } := by
    rw [counter]
    cases test.counter with
    | none => rfl
    | some zero => exact branchState_decremented members
  rw [runBranch_printTest tests members]
  constructor
  · exact state
  · have low := ctrLow_eq (if test.counter.isSome then decremented members else members)
    have bit := congrArg (fun after => after.cr (testedBit row.id insn)) state
    simp only [branchState] at bit
    rw [takes, low, state, bit, leaves_ite _ leave]
    rfl

theorem conditional_branch_bdnzf :
    let emitter : Emitter := ⟨⟨fun _ => false, fun _ => none⟩, {}, .empty, fun _ => true⟩
    ∃ statements, emitter.recompileCase { base := 0, size := 16 } 0
        (emitter.dis.disassemble 0x40020008 0) .bdnzf none = some (statements, none) ∧
      ∀ members,
        branchState (runBranch statements members).1 =
            { branchState members with ctr := branchCtr 0x40020008 (branchState members).ctr } ∧
          leaves (runBranch statements members).2 =
            takenOn 0x40020008 (branchState members) (testedBit .bdnzf 0x40020008) :=
  conditional_branch _ _ 0 0x40020008 0 .bdnzf none (by decide) rfl

/-- Members where the counter is two and of the first field only `lt` is set. -/
def onlyLess : Members := fun member =>
  if member = .ctrLow then 2 else if member = .cr 0 .lt then 1 else 0

/-- Both a `bdnzf` that names `lt` and its statements decrement the counter to one, and the bit is
not clear; but the statements look at `eq`. -/
theorem not_conditional_branch :
    ∃ (emitter : Emitter) (fn : Function) (insn : Word) (statements : List Statement),
      (emitter.dis.disassemble insn 0).opcode = some .bdnzf ∧
        emitter.recompileCase fn 0 (emitter.dis.disassemble insn 0) .bdnzf none =
          some (statements, none) ∧
        leaves (runBranch statements onlyLess).2 = true ∧
        taken insn (branchState onlyLess) = false := by
  refine ⟨⟨⟨fun _ => false, fun _ => none⟩, {}, .empty, fun _ => true⟩, { base := 0, size := 16 },
    0x40000008, [.act .decrementCtr, .ifThen (.ctrAndEq false true 0) [.goto 8]], ?_⟩
  decide

end UfcRecomp.Recompiler
