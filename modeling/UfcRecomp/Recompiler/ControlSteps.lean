import UfcRecomp.Recompiler.BodyLines
import UfcRecomp.Recompiler.LocalSimulation

/-!
# Steps through the lines of a word

What the emitted functions do, without local registers, from the first line of a word on: labels and
comments are passed, a condition tests what the branch tests, and the statements of a case compute.
-/

namespace UfcRecomp.Recompiler

open UfcRecomp.Ppc UfcRecomp.Utils UfcRecomp.Analyze UfcRecomp.Lib

universe u v

/-! ## Lines -/

namespace Emitter.LinesAt

variable {body : TaggedBody} {insn : Insn} {first last : Nat} {statement : Statement}
  {statements others : List Statement}

theorem head (lines : LinesAt body insn first last (statement :: statements)) :
    body[first]? = some (insn, statement) :=
  lines.line 0 (Nat.zero_lt_succ _)

theorem append (lines : LinesAt body insn first last (statements ++ others)) :
    LinesAt body insn (first + statements.length) last others where
  line j inside := by
    have here := lines.line (statements.length + j) (by rw [List.length_append]; omega)
    rw [← Nat.add_assoc, List.getElem_append_right (Nat.le_add_right _ _)] at here
    simpa using here
  last := by
    rw [lines.last, List.length_append, Nat.add_assoc]

theorem tail (lines : LinesAt body insn first last (statement :: statements)) :
    LinesAt body insn (first + 1) last statements :=
  @append body insn first last [statement] statements lines

theorem nil (lines : LinesAt body insn first last []) : last = first := lines.last

end Emitter.LinesAt

/-- What a word without a hook prints behind its label. -/
theorem Emitter.printedInsn_of_case {emitter : Emitter} {fn : Function} {code : Int → Word}
    {i : Nat} {id : PpcInst} {statements : List Statement} {table : Option RecompilerSwitchTable}
    (decoded : (emitter.insn fn code i).opcode = some id)
    (noHook : emitter.config.midAsmHooks.find (uint32 (fn.base + 4 * i)) = none)
    (printed : emitter.recompileCase fn (uint32 (fn.base + 4 * i)) (emitter.insn fn code i) id
      (emitter.pending fn code i) = some (statements, table)) :
    emitter.printedInsn fn code i = .comment :: statements := by
  rw [Emitter.printedInsn, decoded]
  dsimp only
  rw [Emitter.recompileInsn_of_some printed]
  simp [Emitter.printedHooks, noHook]

/-! ## Members -/

theorem layers_read (places : List Member) (context locals : Members) :
    Layers.read (isOwn fun _ => false) places ⟨context, locals⟩ = context.restrict places := by
  rfl

theorem layers_assign (places : List Member) (values context locals : Members) :
    Layers.assign (isOwn fun _ => false) places values ⟨context, locals⟩ =
      ⟨context.assign places values, locals⟩ := by
  ext1
  · ext1 member
    simp [Layers.assign, Members.assign, isOwn]
  · ext1 member
    simp [Layers.assign, isOwn]

/-- A condition looks at its members only. -/
theorem holds_restrict (condition : Condition) (members : Members) :
    condition.holds (members.restrict condition.members) = condition.holds members := by
  cases condition <;> simp [Condition.holds, Condition.members, Members.restrict]

/-- Decrementing looks at both halves of the counter and changes nothing else. -/
theorem assign_decremented (members : Members) :
    members.assign [.ctrLow, .ctrHigh]
      (decremented (members.restrict [.ctrLow, .ctrHigh])) = decremented members := by
  ext1 member
  cases member <;> simp [Members.assign, Members.restrict, decremented]

/-! ## Conditions -/

/-- What a branch with a condition does when the condition holds. -/
def Emitter.branchActions (emitter : Emitter) (fn : Function) (insn : Insn) (id : PpcInst) :
    List Action :=
  match id.targetOperand with
  | some index =>
    let target := (insn.operand index).toNat
    if Inside fn target then [.goto target] else emitter.printFunctionCall target ++ [.ret]
  | none => if id = .bnectr then [.callIndirect, .ret] else [.ret]

theorem printConditionalBranchTo_actions (emitter : Emitter) (fn : Function) (target : Nat)
    (condition : Condition) : emitter.printConditionalBranchTo fn target condition =
      [.ifThen condition (if Inside fn target then [.goto target]
        else emitter.printFunctionCall target ++ [.ret])] := by
  rw [Emitter.printConditionalBranchTo]
  split_ifs <;> rfl

/-- The case of a branch with a condition prints a test in front of its actions. -/
theorem recompileCase_actions (emitter : Emitter) (fn : Function) (base : Nat) (insn : Insn)
    {id : PpcInst} {test : BranchTest} (conditional : id.branchTest = some test)
    (table : Option RecompilerSwitchTable) :
    ∃ condition, emitter.recompileCase fn base insn id table =
      some (printTest test condition (emitter.branchActions fn insn id), table) := by
  have branchTo : ∀ (index : Nat) (condition : Condition) (front : List Statement),
      id.targetOperand = some index →
      front ++ emitter.printConditionalBranchTo fn (insn.operand index).toNat condition =
        front ++ [.ifThen condition (emitter.branchActions fn insn id)] := by
    intro index condition front target
    rw [printConditionalBranchTo_actions, Emitter.branchActions, target]
  cases id <;> simp only [PpcInst.branchTest, Option.some.injEq, reduceCtorEq] at conditional <;>
    subst conditional
  case bdz | bdnz | bdnzf | bdnzt | bdzf =>
    exact ⟨_, congrArg (fun statements => some (statements, table))
      (branchTo _ _ [.act .decrementCtr] rfl)⟩
  case beq | bge | bgt | ble | blt | bne =>
    exact ⟨_, congrArg (fun statements => some (statements, table)) (branchTo _ _ [] rfl)⟩
  all_goals exact ⟨_, rfl⟩

theorem printTest_inj {test : BranchTest} {condition condition' : Condition}
    {actions actions' : List Action}
    (same : printTest test condition actions = printTest test condition' actions') :
    condition = condition' ∧ actions = actions' := by
  have last := List.append_cancel_left same
  simpa using last

/-- The rows of branches with a condition are not those of `b`. -/
theorem row_branchTest : ∀ row ∈ powerpcOpcodes, row.id.branchTest.isSome →
    ppcOp row.opcode ≠ ppcOpB := by
  decide

/-- A branch with a condition decrements the counter where it should, and its statements test what
the branch tests, when a branch that tests both names an `eq`. -/
theorem conditional_case (emitter : Emitter) (fn : Function) (base : Nat) {insn : Word}
    {address : Nat} {id : PpcInst} {test : BranchTest}
    (decoded : (emitter.dis.disassemble insn address).opcode = some id)
    (conditional : id.branchTest = some test) (table : Option RecompilerSwitchTable)
    (tested : id.testsBoth = true → conditionBit insn % 4 = 2) :
    ∃ condition, emitter.recompileCase fn base (emitter.dis.disassemble insn address) id table =
        some (printTest test condition
          (emitter.branchActions fn (emitter.dis.disassemble insn address) id), table) ∧
      ∀ members, membersBehind insn members =
          (if test.counter.isSome then decremented members else members) ∧
        condition.holds (membersBehind insn members) = isTaken insn (branchState members) := by
  obtain ⟨condition, printed⟩ := recompileCase_actions emitter fn base
    (emitter.dis.disassemble insn address) conditional table
  obtain ⟨condition', actions, -, tests, printed'⟩ :=
    recompileCase_branch emitter fn base decoded conditional table
  rw [printed, Option.some.injEq, Prod.mk.injEq] at printed'
  obtain ⟨rfl, -⟩ := printTest_inj printed'.1
  refine ⟨condition, printed, fun members => ?_⟩
  obtain ⟨row, member, matched, rfl, -⟩ := row_of_disassemble decoded
    (by rintro rfl; simp [PpcInst.branchTest] at conditional)
    (by rintro number rfl; simp [PpcInst.branchTest] at conditional)
  have notB : ppcOp insn ≠ ppcOpB := by
    rw [matched.op member]
    exact row_branchTest row member (by rw [conditional]; rfl)
  have bit : testedBit row.id insn = conditionBit insn := by
    rw [testedBit]
    split
    next both =>
      have field := tested both
      omega
    next => rfl
  have flags := matched.flags member conditional
  obtain ⟨counter, takes⟩ := takenOn_of_flags flags (branchState members) (conditionBit insn)
  have counts : branchFlag insn 4 = test.counter.isNone := flags (4, _) (List.mem_cons_self ..)
  have behind : membersBehind insn members =
      if test.counter.isSome then decremented members else members := by
    rw [membersBehind, countsDown, counts]
    cases test.counter <;> simp [notB]
  constructor
  · exact behind
  · have state : branchState (membersBehind insn members) =
        { branchState members with ctr := branchCtr insn (branchState members).ctr } := by
      rw [behind, counter]
      cases test.counter with
      | none => rfl
      | some zero => exact branchState_decremented members
    have kept := congrArg (fun after => after.cr (conditionBit insn)) state
    simp only [branchState] at kept
    rw [tests, bit, ctrLow_eq (membersBehind insn members), state, kept, isTaken, taken, takes,
      decide_eq_false notB, Bool.false_or]
    rfl

/-! ## Runs -/

section Runs

variable {World : Type u} {Scratch : Type v} {machine : Machine World Scratch}
  {functions : String → Option TaggedBody} {names : RegisterNames}
  {context locals : Members} {world : World} {body : TaggedBody} {next last : Nat}
  {before insn : Insn} {scratch : Scratch} {rest : List (Frame Scratch)}
  {calls : List (String × World)} {statement : Statement} {statements : List Statement}
  {left : List Work}

variable (machine functions names) in
/-- A step without local registers. -/
abbrev sharedStep : RunState World Scratch → Option (RunState World Scratch) :=
  runStep machine functions (fun _ => false) names

/-- The next line becomes work. -/
theorem step_line (here : body[next]? = some (insn, statement)) :
    sharedStep machine functions names
        ⟨context, world, ⟨body, next, before, [], locals, scratch⟩ :: rest, calls⟩ =
      some ⟨context, world,
        ⟨body, next + 1, insn, [.statement statement], locals, scratch⟩ :: rest, calls⟩ := by
  simp [runStep, here]

/-- A label or a comment is passed. -/
theorem visits_silent (silent : statement = .comment ∨ ∃ address, statement = .label address)
    (here : body[next]? = some (insn, statement)) :
    ∃ middle, sharedStep machine functions names
        ⟨context, world, ⟨body, next, before, [], locals, scratch⟩ :: rest, calls⟩ = some middle ∧
      Loop.Visits (sharedStep machine functions names) middle
        ⟨context, world, ⟨body, next + 1, insn, [], locals, scratch⟩ :: rest, calls⟩ := by
  refine ⟨_, step_line here, .tail .refl ?_⟩
  rcases silent with rfl | ⟨address, rfl⟩ <;> rfl

/-- The next line is come to. -/
theorem visits_line (here : body[next]? = some (insn, statement)) :
    Loop.Visits (sharedStep machine functions names)
      ⟨context, world, ⟨body, next, before, [], locals, scratch⟩ :: rest, calls⟩
      ⟨context, world,
        ⟨body, next + 1, insn, [.statement statement], locals, scratch⟩ :: rest, calls⟩ :=
  .tail .refl (step_line here)

/-- The link register is set. -/
theorem visits_setLr {address : Nat} (here : body[next]? = some (insn, .act (.setLr address))) :
    Loop.Visits (sharedStep machine functions names)
      ⟨context, world, ⟨body, next, before, [], locals, scratch⟩ :: rest, calls⟩
      ⟨context, machine.setLr address world,
        ⟨body, next + 1, insn, [], locals, scratch⟩ :: rest, calls⟩ :=
  (visits_line here).tail rfl

/-- The counter is decremented. -/
theorem visits_decrementCtr (here : body[next]? = some (insn, .act .decrementCtr)) :
    Loop.Visits (sharedStep machine functions names)
      ⟨context, world, ⟨body, next, before, [], locals, scratch⟩ :: rest, calls⟩
      ⟨decremented context, world, ⟨body, next + 1, insn, [], locals, scratch⟩ :: rest, calls⟩ := by
  refine (visits_line here).tail ?_
  rw [sharedStep, runStep]
  dsimp only [workStep, actStep, RunState.write, RunState.read]
  rw [layers_assign, layers_read, assign_decremented]

/-- A condition chooses what is left to do. -/
theorem step_ifThen {condition : Condition} {actions : List Action} :
    sharedStep machine functions names ⟨context, world,
        ⟨body, next, insn, [.statement (.ifThen condition actions)], locals, scratch⟩ :: rest,
        calls⟩ =
      some ⟨context, world, ⟨body, next, insn,
        workOf (if condition.holds context then actions else []), locals, scratch⟩ :: rest,
        calls⟩ := by
  rw [sharedStep, runStep]
  dsimp only [workStep, RunState.read, Frame.follow]
  rw [layers_read, holds_restrict, List.append_nil]

/-- A switch goes to the case of the register. -/
theorem step_switch {r : Nat} {cases_ : List (List Action)} {actions : List Action}
    (chosen : cases_[(machine.gpr r scratch world).toNat]? = some actions) :
    sharedStep machine functions names ⟨context, world,
        ⟨body, next, insn, [.statement (.switch r cases_)], locals, scratch⟩ :: rest, calls⟩ =
      some ⟨context, world, ⟨body, next, insn, workOf actions, locals, scratch⟩ :: rest,
        calls⟩ := by
  rw [sharedStep, runStep]
  dsimp only [workStep, Frame.follow]
  rw [chosen, Option.map_some, List.append_nil]

/-- A function that the table leads to is called by its name. -/
theorem step_callIndirect {name : String}
    (lookup : machine.lookup world (context .ctrLow) = some name) :
    sharedStep machine functions names ⟨context, world,
        ⟨body, next, insn, .statement (.act .callIndirect) :: left, locals, scratch⟩ :: rest,
        calls⟩ =
      RunState.call machine functions
        ⟨context, world, ⟨body, next, insn, left, locals, scratch⟩ :: rest, calls⟩ name := by
  rw [sharedStep, runStep]
  dsimp only [workStep, actStep, RunState.read]
  rw [layers_read, show context.restrict [.ctrLow] .ctrLow = context .ctrLow from rfl, lookup]
  rfl

/-- A statement of a case computes. -/
theorem step_piece (piece : Piece) (index : Nat) :
    let result := machine.compute insn index (context.restrict piece.reads) scratch world
    sharedStep machine functions names
        ⟨context, world, ⟨body, next, insn, .piece index piece :: left, locals, scratch⟩ :: rest,
          calls⟩ =
      some ⟨context.assign piece.writes result.1, result.2.2,
        ⟨body, next, insn, left, locals, result.2.1⟩ :: rest, calls⟩ := by
  intro result
  rw [sharedStep, runStep]
  dsimp only [workStep, RunState.read, RunState.write]
  rw [layers_assign, layers_read]

/-- The statements of a case compute. -/
theorem visits_pieces (pieces : List (Piece × Nat)) {scratch' : Scratch} {context' : Members}
    {world' : World}
    (computed : machine.computeAll insn pieces context scratch world =
      (context', scratch', world')) :
    Loop.Visits (sharedStep machine functions names)
      ⟨context, world, ⟨body, next, insn,
        (pieces.map fun entry => Work.piece entry.2 entry.1) ++ left, locals, scratch⟩ :: rest,
        calls⟩
      ⟨context', world', ⟨body, next, insn, left, locals, scratch'⟩ :: rest, calls⟩ := by
  induction pieces generalizing context scratch world with
  | nil =>
      obtain ⟨rfl, rest⟩ := Prod.mk.inj computed
      obtain ⟨rfl, rfl⟩ := Prod.mk.inj rest
      exact .refl
  | cons entry pieces ih =>
      exact .head (step_piece entry.1 entry.2) (ih computed)

end Runs

end UfcRecomp.Recompiler
