import UfcRecomp.Analyze.Taken
import UfcRecomp.Recompiler.FlushLines

/-!
# Going on with the next word

The analysis goes by the bits of a word, the emitter by its mnemonic. They disagree about a return
that only looks at the counter, which the analysis takes for unconditional, and about statements
that leave although the instruction does not: a hook that always leaves and a call of `longjmp`.
-/

namespace UfcRecomp.Recompiler

open UfcRecomp.Ppc UfcRecomp.Utils UfcRecomp.Analyze UfcRecomp.Lib

/-! ## What the analysis says -/

/-- Whether the analysis goes on behind an instruction. -/
def goesOn : PpcInst → Bool
  | .b | .bctr | .blr | .bdzlr => false
  | _ => true

/-- The bits that the analysis looks at are those that the rows of branches fix. -/
theorem row_fields : ∀ row ∈ powerpcOpcodes, ppcOp row.opcode ≠ 0 ∧
    (ppcOp row.opcode = ppcOpBc ∨ ppcOp row.opcode = ppcOpB ∨ ppcOp row.opcode = ppcOpCtr →
      1 &&& (row.mask >>> 0) = 1) ∧
    (ppcOp row.opcode = ppcOpCtr → 0x3ff &&& (row.mask >>> 1) = 0x3ff ∧
      0x1f &&& (row.mask >>> 21) = 0x1f) := by
  decide

/-- The rows behind which the analysis does not go on. -/
theorem row_goesOn : ∀ row ∈ powerpcOpcodes,
    (ppcOp row.opcode = ppcOpBc → goesOn row.id = true) ∧
    (ppcOp row.opcode = ppcOpB → goesOn row.id = ppcBl row.opcode) ∧
    (ppcOp row.opcode = ppcOpCtr → (ppcXop row.opcode = 16 ∨ ppcXop row.opcode = 528) ∧
      goesOn row.id = (ppcBl row.opcode || ppcBo row.opcode &&& 0x10 = 0)) ∧
    (ppcOp row.opcode ≠ ppcOpBc → ppcOp row.opcode ≠ ppcOpB → ppcOp row.opcode ≠ ppcOpCtr →
      goesOn row.id = true) := by
  decide

theorem fallsThrough_of_row {dis : Disassembler} {row : PowerpcOpcode}
    (member : row ∈ powerpcOpcodes) {insn : Word} (matched : row.Matches insn)
    (known : decodes dis insn = true) : (flow dis insn).fallsThrough = goesOn row.id := by
  obtain ⟨major, link, fields⟩ := row_fields row member
  obtain ⟨bc, b, ctr, ordinary⟩ := row_goesOn row member
  have op : ppcOp insn = ppcOp row.opcode := matched.op member
  have nonzero : insn ≠ 0 := by
    rintro rfl
    exact major op.symm
  unfold flow
  rw [op]
  by_cases isBc : ppcOp row.opcode = ppcOpBc
  · rw [if_pos isBc, bc isBc]
    split <;> rfl
  by_cases isB : ppcOp row.opcode = ppcOpB
  · rw [if_neg isBc, if_pos isB, b isB, matched.link (link (.inr (.inl isB)))]
    cases ppcBl row.opcode <;> rfl
  by_cases isCtr : ppcOp row.opcode = ppcOpCtr
  · obtain ⟨xop, bo⟩ := fields isCtr
    obtain ⟨returns, goes⟩ := ctr isCtr
    have sameXop : ppcXop insn = ppcXop row.opcode :=
      congrArg BitVec.toNat (matched.field 1 0x3ff xop)
    have sameBo : ppcBo insn = ppcBo row.opcode := congrArg BitVec.toNat (matched.field 21 0x1f bo)
    rw [if_neg isBc, if_neg isB, if_neg nonzero, sameXop, if_pos ⟨isCtr, returns⟩, sameBo,
      matched.link (link (.inr (.inr isCtr))), goes]
    cases ppcBl row.opcode with
    | true => rfl
    | false =>
        by_cases conditional : ppcBo row.opcode &&& 0x10 = 0
        · simp [conditional, Flow.fallsThrough]
        · simp [conditional, Flow.fallsThrough]
  · rw [if_neg isBc, if_neg isB, if_neg nonzero, if_neg fun both => isCtr both.1, if_pos known,
      ordinary isBc isB isCtr]
    rfl

/-- What the analysis does behind an instruction that the model names or does not know. -/
theorem fallsThrough_of_decoded {dis : Disassembler} (zero : dis.other 0 = none) {insn : Word}
    {address : Nat} {id : PpcInst} (decoded : (dis.disassemble insn address).opcode = some id)
    (listed : id ≠ .unlistedBranch) : (flow dis insn).fallsThrough = goesOn id := by
  have known : decodes dis insn = true := by
    rw [decodes, disassemble_opcode dis insn 0 address, decoded]
    rfl
  by_cases named : ∃ number, id = .other number
  · obtain ⟨number, rfl⟩ := named
    unfold Disassembler.disassemble at decoded
    cases search : powerpcOpcodes.find? fun row => row.Matches insn with
    | some row =>
        rw [search] at decoded
        have found : row.Matches insn := by simpa using List.find?_some search
        rw [fallsThrough_of_row (List.mem_of_find?_eq_some search) found known,
          Option.some.inj decoded]
    | none =>
        rw [search] at decoded
        dsimp only at decoded
        split_ifs at decoded with isBranch isListed
        · exact absurd (Option.some.inj decoded).symm listed
        · have nonzero : insn ≠ 0 := by
            rintro rfl
            rw [zero] at decoded
            cases decoded
          simp only [IsBranch, not_or] at isBranch
          unfold flow
          rw [if_neg isBranch.1, if_neg isBranch.2.1, if_neg nonzero, if_neg isBranch.2.2,
            if_pos known]
          rfl
  · obtain ⟨row, member, matched, rfl, -⟩ := row_of_disassemble decoded listed
      (not_exists.mp named)
    exact fallsThrough_of_row member matched known

/-! ## What the emitted statements do -/

/-- Whether control may go on behind an action. -/
def Action.mayContinue : Action → Bool
  | .goto _ | .ret | .longjmp => false
  | _ => true

/-- Whether control may go on behind a statement, whatever its condition is. -/
def Statement.mayContinue (statement : Statement) : Bool :=
  statement.branches.any fun actions => actions.all Action.mayContinue

/-- Whether control may come through statements. -/
def mayComplete (statements : List Statement) : Bool := statements.all Statement.mayContinue

@[simp]
theorem mayComplete_nil : mayComplete [] = true := rfl

@[simp]
theorem mayComplete_cons (statement : Statement) (statements : List Statement) :
    mayComplete (statement :: statements) = (statement.mayContinue && mayComplete statements) :=
  List.all_cons

@[simp]
theorem mayComplete_append (left right : List Statement) :
    mayComplete (left ++ right) = (mayComplete left && mayComplete right) :=
  List.all_append

theorem mayComplete_map_act (actions : List Action) :
    mayComplete (actions.map Statement.act) = actions.all Action.mayContinue := by
  induction actions with
  | nil => rfl
  | cons action rest ih => simp [ih, Statement.mayContinue, Statement.branches]

@[simp]
theorem mayContinue_ifThen (condition : Condition) (actions : List Action) :
    (Statement.ifThen condition actions).mayContinue = true := by
  simp [Statement.mayContinue, Statement.branches]

namespace Emitter

/-- The instructions that `Recompile` has a case for. -/
def accepts (emitter : Emitter) : PpcInst → Bool
  | .unlistedBranch => false
  | .other number => emitter.hasCase number
  | _ => true

/-- Whether the case of an instruction never goes on. -/
def ends (emitter : Emitter) (insn : Insn) (id : PpcInst) : Prop :=
  id = .b ∨ id = .bctr ∨ id = .blr ∨
    id = .bl ∧ (insn.operand 0).toNat = emitter.config.longJmpAddress

variable {emitter : Emitter} {fn : Function} {base : Nat} {insn : Insn} {id : PpcInst}
  {table next : Option RecompilerSwitchTable} {statements : List Statement}

theorem isSome_recompileCase :
    (emitter.recompileCase fn base insn id table).isSome = emitter.accepts id := by
  cases id
  case b =>
    simp only [recompileCase]
    split_ifs <;> rfl
  case bctr => cases table <;> rfl
  case other number =>
    simp only [recompileCase, accepts]
    split_ifs with has
    · exact has.symm
    · exact (Bool.eq_false_of_not_eq_true has).symm
  all_goals rfl

/-- A call goes on unless it is one of `longjmp`. -/
theorem all_printFunctionCall {address : Nat} :
    (emitter.printFunctionCall address).all Action.mayContinue =
      decide (address ≠ emitter.config.longJmpAddress) := by
  unfold printFunctionCall
  split_ifs with isLongjmp isSetjmp
  · simp [isLongjmp, Action.mayContinue]
  · simp [isLongjmp, Action.mayContinue]
  · cases emitter.symbols.find address with
    | none => simp [isLongjmp, Action.mayContinue]
    | some symbol =>
        dsimp only
        split_ifs <;> simp [isLongjmp, Action.mayContinue]

theorem mayComplete_printConditionalBranchTo {target : Nat} {condition : Condition} :
    mayComplete (emitter.printConditionalBranchTo fn target condition) = true := by
  unfold printConditionalBranchTo
  split_ifs <;> simp

theorem mayComplete_iff_of_printed (printed : Printed emitter fn base insn id table statements next) :
    mayComplete statements = true ↔ ¬emitter.ends insn id := by
  cases printed with
  | goto => simp [ends, Statement.mayContinue, Statement.branches, Action.mayContinue]
  | tailCall =>
      rw [mayComplete_map_act]
      simp [ends, Action.mayContinue]
  | call link =>
      rw [mayComplete_append, mayComplete_map_act, all_printFunctionCall]
      rcases link with rfl | rfl <;>
        simp [ends, Statement.mayContinue, Statement.branches, Action.mayContinue]
  | conditional target notJump notCall counts =>
      have notEnds : ¬emitter.ends insn id := by
        rintro (rfl | rfl | rfl | ⟨rfl, -⟩) <;> simp [PpcInst.targetOperand] at *
      rw [mayComplete_append, mayComplete_printConditionalBranchTo]
      rcases counts with rfl | rfl <;>
        simp [notEnds, Statement.mayContinue, Statement.branches, Action.mayContinue]
  | @«switch» table =>
      simp [ends, Statement.mayContinue, Statement.branches, printCase]
      intro label _
      split_ifs <;> simp [Action.mayContinue]
  | jumpIndirect => simp [ends, Statement.mayContinue, Statement.branches, Action.mayContinue]
  | callIndirect link =>
      rcases link with rfl | rfl <;>
        simp [ends, Statement.mayContinue, Statement.branches, Action.mayContinue]
  | bnectr => simp [ends]
  | bdzlr => simp [ends, Statement.mayContinue, Statement.branches, Action.mayContinue]
  | returnIf conditional =>
      have notEnds : ¬emitter.ends insn id := by
        rintro (rfl | rfl | rfl | ⟨rfl, -⟩) <;> simp [PpcInst.isConditionalReturn] at conditional
      simp [notEnds]
  | ret => simp [ends, Statement.mayContinue, Statement.branches, Action.mayContinue]
  | debugtrap => simp [ends, Statement.mayContinue, Statement.branches, Action.mayContinue]
  | compute ordinary =>
      have notEnds : ¬emitter.ends insn id := by
        rintro (rfl | rfl | rfl | ⟨rfl, -⟩) <;> simp [PpcInst.isOrdinary] at ordinary
      simp [notEnds, Statement.mayContinue, Statement.branches, Action.mayContinue]

/-- Whether the hook at an address always leaves. A hook behind an instruction without a case is not
printed. -/
def hookLeaves (emitter : Emitter) (address : Nat) (id : PpcInst) : Prop :=
  mayComplete (emitter.printedHooks (uint32 address) false) = false ∨
    emitter.accepts id = true ∧ mayComplete (emitter.printedHooks (uint32 address) true) = false

/-- Control may come through what a word prints unless its hook or its case ends it. -/
theorem mayComplete_printedInsn {code : Int → Word} {i : Nat}
    (decoded : (emitter.insn fn code i).opcode = some id) :
    mayComplete (emitter.printedInsn fn code i) = true ↔
      ¬emitter.hookLeaves (fn.base + 4 * i) id ∧ ¬emitter.ends (emitter.insn fn code i) id := by
  have comment : Statement.comment.mayContinue = true := rfl
  have accepted := @isSome_recompileCase emitter fn (uint32 (fn.base + 4 * i))
    (emitter.insn fn code i) id (emitter.pending fn code i)
  rw [printedInsn, decoded]
  dsimp only
  cases printed : emitter.recompileCase fn (uint32 (fn.base + 4 * i)) (emitter.insn fn code i) id
      (emitter.pending fn code i) with
  | none =>
      rw [printed, Option.isSome_none] at accepted
      have notEnds : ¬emitter.ends (emitter.insn fn code i) id := by
        rintro (rfl | rfl | rfl | ⟨rfl, -⟩) <;> simp [accepts] at accepted
      rw [recompileInsn_of_none printed]
      simp [hookLeaves, ← accepted, comment, notEnds]
  | some result =>
      rw [printed, Option.isSome_some] at accepted
      have case := mayComplete_iff_of_printed (printed_of_recompileCase printed)
      rw [recompileInsn_of_some printed]
      simp only [hookLeaves, ← accepted, mayComplete_append, mayComplete_cons, comment,
        Bool.and_eq_true, case, true_and]
      rw [← Bool.not_eq_true, ← Bool.not_eq_true]
      tauto

end Emitter

/-! ## Agreement -/

/-- Whether the analysis goes on with the next word. It takes a shifted tail call for two words,
without a look at the first one. -/
def FallsThrough (dis : Disassembler) (buffer : CodeBuffer) (i : Nat) : Prop :=
  if buffer.code 1 = 0x48000004 then i = 0
  else (flow dis (buffer.code i)).fallsThrough = true

/-- The words that the analysis of a buffer puts into the function: those in front of the first word
that it does not take. -/
def Front (dis : Disassembler) (buffer : CodeBuffer) (i : Nat) : Prop :=
  if buffer.code 1 = 0x48000004 then i < 2
  else ∀ j : Nat, j ≤ i → buffer.Takes dis j

/-- The decoded word of a buffer. -/
def insnAt (dis : Disassembler) (buffer : CodeBuffer) (i : Nat) : Insn :=
  dis.disassemble (buffer.code i) (buffer.base + 4 * i)

/-- Analysis and emitter agree on where control goes on with the next word. -/
structure SameFallthrough (emitter : Emitter) (buffer : CodeBuffer) (fn : Function) : Prop where
  /-- Behind an instruction that may go on, the next word is part of the function. -/
  explored : ∀ i id, 4 * i < fn.size → (insnAt emitter.dis buffer i).opcode = some id →
    emitter.accepts id = true → mayComplete (emitter.printedInsn fn buffer.code i) = true →
      4 * (i + 1) < fn.size
  /-- Behind an instruction that never goes on, the analysis does not go on either. -/
  stopped : ∀ i id, 4 * i < fn.size → (insnAt emitter.dis buffer i).opcode = some id →
    mayComplete (emitter.printedInsn fn buffer.code i) = false → ¬FallsThrough emitter.dis buffer i

/-- What the code and the configuration have to satisfy for that. -/
structure Predictable (emitter : Emitter) (buffer : CodeBuffer) : Prop where
  /-- The analysis comes to the word behind a `bdzlr`, or behind a conditional return that it
  overlooks, on some other way. -/
  counted : ∀ i id, Front emitter.dis buffer i → (insnAt emitter.dis buffer i).opcode = some id →
    id = .bdzlr ∨ buffer.code 1 ≠ 0x48000004 ∧ buffer.Overlooked emitter.dis i →
      emitter.accepts id = true → ¬emitter.hookLeaves (buffer.base + 4 * i) id →
        Front emitter.dis buffer (i + 1)
  /-- Behind an instruction with which the analysis goes on, no word is lost. -/
  kept : buffer.code 1 ≠ 0x48000004 → ∀ i id, Front emitter.dis buffer i →
    (insnAt emitter.dis buffer i).opcode = some id → emitter.accepts id = true →
      ¬emitter.hookLeaves (buffer.base + 4 * i) id → FallsThrough emitter.dis buffer i →
        ¬buffer.Lost emitter.dis (i + 1)
  /-- A hook that always leaves and a call of `longjmp` stand where the analysis does not go on. -/
  left : ∀ i id, Front emitter.dis buffer i → (insnAt emitter.dis buffer i).opcode = some id →
    emitter.hookLeaves (buffer.base + 4 * i) id ∨ id = .bl ∧
        ((insnAt emitter.dis buffer i).operand 0).toNat = emitter.config.longJmpAddress →
      ¬FallsThrough emitter.dis buffer i
  /-- The first word of a shifted tail call goes on. -/
  shifted : buffer.code 1 = 0x48000004 → ∀ id, (insnAt emitter.dis buffer 0).opcode = some id →
    id ≠ .b ∧ id ≠ .bctr ∧ id ≠ .blr

section

variable {dis : Disassembler} {buffer : CodeBuffer} {sorter : Sorted.Sorter Block.base}
  {fuel : Nat} {fn : Function}

/-- The words of a function that was analysed. -/
theorem front_iff (returned : buffer.analyze dis sorter fuel = some fn) (i : Nat) :
    4 * i < fn.size ↔ Front dis buffer i := by
  by_cases shifted : buffer.code 1 = 0x48000004
  · rw [CodeBuffer.analyze, if_pos shifted] at returned
    obtain rfl := Option.some.inj returned
    rw [Front, if_pos shifted]
    dsimp only
    omega
  · obtain ⟨-, words, size, taken, missing⟩ := size_of_analyze shifted returned
    rw [Front, if_neg shifted, size]
    constructor
    · intro inside j before
      exact taken j (by omega)
    · intro takes
      by_contra behind
      exact missing (takes words (by omega))

/-- A word with which the analysis goes on is followed by another one of the function, when that one
is not lost. -/
theorem Front.succ (returned : buffer.analyze dis sorter fuel = some fn) {i : Nat}
    (front : Front dis buffer i) (goesOn : FallsThrough dis buffer i)
    (kept : buffer.code 1 ≠ 0x48000004 →
      ¬buffer.Overlooked dis i ∧ ¬buffer.Lost dis (i + 1)) : Front dis buffer (i + 1) := by
  unfold Front FallsThrough at *
  split_ifs at * with shifted
  · omega
  · obtain ⟨⟨last, ended⟩, -⟩ := size_of_analyze shifted returned
    obtain ⟨noticed, found⟩ := kept shifted
    intro j before
    by_cases isNext : j = i + 1
    · subst isNext
      rw [Int.natCast_succ]
      exact (ended.takes_next_iff (by omega) (front i (Nat.le_refl i)) goesOn noticed).mpr found
    · exact front j (by omega)

/-- A word of the function is not lost. -/
theorem Front.not_lost (returned : buffer.analyze dis sorter fuel = some fn)
    (loops : buffer.code 1 ≠ 0x48000004) {i : Nat} (front : Front dis buffer i) :
    ¬buffer.Lost dis i := by
  obtain ⟨⟨last, ended⟩, -⟩ := size_of_analyze loops returned
  rw [Front, if_neg loops] at front
  exact ended.not_lost_of_takes (by omega) (front i (Nat.le_refl i))

end

section

variable {emitter : Emitter} {buffer : CodeBuffer} {sorter : Sorted.Sorter Block.base}
  {fuel : Nat} {fn : Function} {i : Nat} {id : PpcInst}

/-- When the code that is printed for a word of an analysed function may complete. -/
theorem mayComplete_iff (returned : buffer.analyze emitter.dis sorter fuel = some fn)
    (decoded : (insnAt emitter.dis buffer i).opcode = some id) :
    mayComplete (emitter.printedInsn fn buffer.code i) = true ↔
      ¬emitter.hookLeaves (buffer.base + 4 * i) id ∧
        ¬emitter.ends (insnAt emitter.dis buffer i) id := by
  obtain ⟨base, -⟩ := analyze_extent returned
  have decode : insnAt emitter.dis buffer i = emitter.insn fn buffer.code i := by
    rw [insnAt, ← base]
    rfl
  rw [decode] at decoded ⊢
  rw [Emitter.mayComplete_printedInsn decoded, base]

/-- The analysis goes on with an instruction whose case may go on, unless it is a `bdzlr`. -/
theorem fallsThrough_of_not_ends (zero : emitter.dis.other 0 = none)
    (front : Front emitter.dis buffer i)
    (decoded : (insnAt emitter.dis buffer i).opcode = some id)
    (accepted : emitter.accepts id = true) (notBdzlr : id ≠ .bdzlr)
    (goes : ¬emitter.ends (insnAt emitter.dis buffer i) id) :
    FallsThrough emitter.dis buffer i := by
  have listed : id ≠ .unlistedBranch := by
    rintro rfl
    cases accepted
  unfold FallsThrough
  split_ifs with isShifted
  · -- the second word of a shifted tail call is a jump
    by_contra second
    rw [Front, if_pos isShifted] at front
    obtain rfl : i = 1 := by omega
    have isB : (insnAt emitter.dis buffer 1).opcode = some .b := by
      rw [insnAt, show buffer.code ((1 : Nat) : Int) = 0x48000004 from isShifted]
      rfl
    obtain rfl : id = .b := Option.some.inj (decoded.symm.trans isB)
    exact goes (.inl rfl)
  · rw [fallsThrough_of_decoded zero decoded listed]
    simp only [Emitter.ends, not_or] at goes
    unfold goesOn
    split <;> simp_all

/-- The analysis does not go on with a jump or a return. -/
theorem not_fallsThrough (zero : emitter.dis.other 0 = none)
    (decoded : (insnAt emitter.dis buffer i).opcode = some id)
    (isEnd : id = .b ∨ id = .bctr ∨ id = .blr)
    (shifted : buffer.code 1 = 0x48000004 → ∀ id, (insnAt emitter.dis buffer 0).opcode = some id →
      id ≠ .b ∧ id ≠ .bctr ∧ id ≠ .blr) : ¬FallsThrough emitter.dis buffer i := by
  unfold FallsThrough
  split_ifs with isShifted
  · rintro rfl
    have goes := shifted isShifted id decoded
    tauto
  · rw [fallsThrough_of_decoded zero decoded (by rintro rfl; simp at isEnd)]
    rcases isEnd with rfl | rfl | rfl <;> decide

/-- Where both agree, a word with which the analysis goes on is followed by another one of the
function. -/
theorem SameFallthrough.succ (same : SameFallthrough emitter buffer fn)
    (returned : buffer.analyze emitter.dis sorter fuel = some fn)
    (front : Front emitter.dis buffer i)
    (decoded : (insnAt emitter.dis buffer i).opcode = some id)
    (accepted : emitter.accepts id = true) (goesOn : FallsThrough emitter.dis buffer i) :
    Front emitter.dis buffer (i + 1) := by
  have inside := front_iff returned
  rw [← inside]
  refine same.explored i id ((inside i).mpr front) decoded accepted ?_
  by_contra ended
  exact same.stopped i id ((inside i).mpr front) decoded (Bool.not_eq_true _ ▸ ended) goesOn

theorem SameFallthrough.predictable (same : SameFallthrough emitter buffer fn)
    (returned : buffer.analyze emitter.dis sorter fuel = some fn) : Predictable emitter buffer where
  counted := by
    rintro i id front decoded (rfl | ⟨loops, returns, -⟩) accepted stays
    · rw [← front_iff returned]
      refine same.explored i .bdzlr ((front_iff returned i).mpr front) decoded rfl ?_
      rw [mayComplete_iff returned decoded]
      exact ⟨stays, by simp [Emitter.ends]⟩
    · refine same.succ returned front decoded accepted ?_
      rw [FallsThrough, if_neg loops, returns]
      rfl
  kept := by
    intro loops i id front decoded accepted stays goesOn
    have later := (same.succ returned front decoded accepted goesOn).not_lost returned loops
    rwa [Int.natCast_succ] at later
  left := by
    intro i id front decoded leaves
    refine same.stopped i id ((front_iff returned i).mpr front) decoded ?_
    rw [← Bool.not_eq_true, mayComplete_iff returned decoded]
    rintro ⟨stays, goes⟩
    rcases leaves with leaves | isLongjmp
    · exact stays leaves
    · exact goes (.inr (.inr (.inr isLongjmp)))
  shifted := by
    intro shifted id decoded
    have front : Front emitter.dis buffer 0 := by
      rw [Front, if_pos shifted]
      omega
    by_contra ends
    refine same.stopped 0 id ((front_iff returned 0).mpr front) decoded ?_
      (by rw [FallsThrough, if_pos shifted])
    rw [← Bool.not_eq_true, mayComplete_iff returned decoded]
    rintro ⟨-, goes⟩
    refine goes ?_
    unfold Emitter.ends
    tauto

theorem Predictable.sameFallthrough (predictable : Predictable emitter buffer)
    (zero : emitter.dis.other 0 = none)
    (returned : buffer.analyze emitter.dis sorter fuel = some fn) :
    SameFallthrough emitter buffer fn where
  explored := by
    intro i id member decoded accepted completes
    have front := (front_iff returned i).mp member
    obtain ⟨stays, goes⟩ := (mayComplete_iff returned decoded).mp completes
    rw [front_iff returned]
    by_cases other : id = .bdzlr ∨
        buffer.code 1 ≠ 0x48000004 ∧ buffer.Overlooked emitter.dis i
    · exact predictable.counted i id front decoded other accepted stays
    · obtain ⟨notBdzlr, noticed⟩ := not_or.mp other
      have goesOn := fallsThrough_of_not_ends zero front decoded accepted notBdzlr goes
      exact front.succ returned goesOn fun loops =>
        ⟨fun overlooked => noticed ⟨loops, overlooked⟩,
          predictable.kept loops i id front decoded accepted stays goesOn⟩
  stopped := by
    intro i id member decoded ended
    have front := (front_iff returned i).mp member
    by_cases leaves : emitter.hookLeaves (buffer.base + 4 * i) id ∨ id = .bl ∧
        ((insnAt emitter.dis buffer i).operand 0).toNat = emitter.config.longJmpAddress
    · exact predictable.left i id front decoded leaves
    · obtain ⟨stays, notLongjmp⟩ := not_or.mp leaves
      refine not_fallsThrough zero decoded ?_ predictable.shifted
      rw [← Bool.not_eq_true, mayComplete_iff returned decoded] at ended
      by_contra other
      refine ended ⟨stays, ?_⟩
      unfold Emitter.ends
      tauto

end

/-- A conditional return, a loop behind a conditional branch and a return. -/
def loopsBuffer : CodeBuffer where
  code position :=
    if position = 0 then 0x4D820020
    else if position = 1 then 0x41820008
    else if position = 2 then 0x38630001
    else if position = 3 then 0x4082FFF8
    else 0x4E800020
  size := 20
  base := 0x82000000
  fits := by decide

/-- An emitter without configuration that knows the listed instructions. -/
def listedEmitter : Emitter := ⟨⟨fun _ => false, fun _ => none⟩, {}, .empty, fun _ => true⟩

/-- A return that only looks at the counter and a return. -/
def counterBuffer : CodeBuffer where
  code position := if position = 0 then 0x4E400020 else 0x4E800020
  size := 8
  base := 0x82000000
  fits := twoWords_fits

end UfcRecomp.Recompiler
