import UfcRecomp.Ppc.Branch
import UfcRecomp.Recompiler.Emit

/-!
# The second pass word by word

The body of a function is what each word prints, given the switch table that is pending in
front of it. `Printed` says once what the case of an instruction can print.
-/

namespace UfcRecomp.Recompiler

open UfcRecomp.Ppc UfcRecomp.Utils UfcRecomp.Analyze

namespace Emitter

/-! ## What a case prints -/

/-- What the case of an instruction prints for a pending table, and the table it leaves. -/
inductive Printed (emitter : Emitter) (fn : Function) (base : Nat) (insn : Insn) :
    PpcInst → Option RecompilerSwitchTable → List Statement → Option RecompilerSwitchTable →
      Prop where
  | goto {table} (inside : Inside fn (insn.operand 0).toNat) :
      Printed emitter fn base insn .b table [.act (.goto (insn.operand 0).toNat)] table
  | tailCall {table} (outside : ¬Inside fn (insn.operand 0).toNat) :
      Printed emitter fn base insn .b table
        ((emitter.printFunctionCall (insn.operand 0).toNat ++ [Action.ret]).map Statement.act) table
  | call {table setLr} (link : setLr = [] ∨ setLr = [.act (.setLr (uint32 (base + 4)))]) :
      Printed emitter fn base insn .bl table
        (setLr ++ (emitter.printFunctionCall (insn.operand 0).toNat).map Statement.act) table
  | conditional {id table index condition count} (target : id.targetOperand = some index)
      (notJump : id ≠ .b) (notCall : id ≠ .bl)
      (counts : count = [] ∨ count = [.act .decrementCtr]) :
      Printed emitter fn base insn id table (count ++
        emitter.printConditionalBranchTo fn (insn.operand index).toNat condition) table
  | switch {table} : Printed emitter fn base insn .bctr (some table)
      [.switch table.r (table.labels.map (printCase fn))] none
  | jumpIndirect : Printed emitter fn base insn .bctr none [.act .callIndirect, .act .ret] none
  | callIndirect {table setLr} (link : setLr = [] ∨ setLr = [.act (.setLr (uint32 (base + 4)))]) :
      Printed emitter fn base insn .bctrl table (setLr ++ [.act .callIndirect]) table
  | bnectr {table condition} : Printed emitter fn base insn .bnectr table
      [.ifThen condition [.callIndirect, .ret]] table
  | bdzlr {table} : Printed emitter fn base insn .bdzlr table
      [.act .decrementCtr, .ifThen (.ctr true) [.ret]] table
  | returnIf {id table condition} (conditional : id.isConditionalReturn) :
      Printed emitter fn base insn id table [.ifThen condition [.ret]] table
  | ret {table} : Printed emitter fn base insn .blr table [.act .ret] table
  | debugtrap {table} : Printed emitter fn base insn .blrl table [.act .debugtrap] table
  | compute {id table} (ordinary : id.isOrdinary) :
      Printed emitter fn base insn id table [.act (.compute id)] table

theorem printed_of_recompileCase {emitter : Emitter} {fn : Function} {base : Nat} {insn : Insn}
    {id : PpcInst} {table next : Option RecompilerSwitchTable} {statements : List Statement}
    (printed : emitter.recompileCase fn base insn id table = some (statements, next)) :
    Printed emitter fn base insn id table statements next := by
  have setLr : (if emitter.config.skipLr = true then [] else
      [Statement.act (.setLr (uint32 (base + 4)))]) = [] ∨
      (if emitter.config.skipLr = true then [] else
        [Statement.act (.setLr (uint32 (base + 4)))]) =
        [.act (.setLr (uint32 (base + 4)))] := by
    split_ifs <;> simp
  cases id
  case b =>
    simp only [recompileCase] at printed
    split_ifs at printed with outside
    · obtain ⟨rfl, rfl⟩ := Prod.mk.inj (Option.some.inj printed)
      exact .goto outside
    · obtain ⟨rfl, rfl⟩ := Prod.mk.inj (Option.some.inj printed)
      exact .tailCall outside
  case bctr =>
    cases table with
    | some table =>
        obtain ⟨rfl, rfl⟩ := Prod.mk.inj (Option.some.inj printed)
        exact .switch
    | none =>
        obtain ⟨rfl, rfl⟩ := Prod.mk.inj (Option.some.inj printed)
        exact .jumpIndirect
  case other number =>
    simp only [recompileCase] at printed
    split_ifs at printed
    obtain ⟨rfl, rfl⟩ := Prod.mk.inj (Option.some.inj printed)
    exact .compute rfl
  case unlistedBranch => simp [recompileCase] at printed
  all_goals obtain ⟨rfl, rfl⟩ := Prod.mk.inj (Option.some.inj printed)
  case bl => exact .call setLr
  case bctrl => exact .callIndirect setLr
  case blr => exact .ret
  case blrl => exact .debugtrap
  case bnectr => exact .bnectr
  case bdzlr => exact .bdzlr
  case bdz | bdnz | bdnzf | bdnzt | bdzf =>
    exact .conditional rfl (by simp) (by simp) (.inr rfl)
  case beq | bge | bgt | ble | blt | bne =>
    exact @Printed.conditional _ _ _ _ _ _ _ _ [] rfl (by simp) (by simp) (.inl rfl)
  case beqlr | bgelr | bgtlr | blelr | bltlr | bnelr => exact .returnIf rfl
  all_goals exact .compute rfl

/-- What the hook at an address prints in front of the instruction, or behind it. -/
def printedHooks (emitter : Emitter) (base : Nat) (afterInstruction : Bool) : List Statement :=
  (emitter.config.midAsmHooks.find base).elim [] fun hook =>
    if hook.afterInstruction = afterInstruction then printMidAsmHook hook else []

theorem mem_printedHooks {emitter : Emitter} {base : Nat} {afterInstruction : Bool}
    {statement : Statement} (member : statement ∈ emitter.printedHooks base afterInstruction) :
    ∃ hook, emitter.config.midAsmHooks.find base = some hook ∧
      statement ∈ printMidAsmHook hook := by
  rw [printedHooks] at member
  cases found : emitter.config.midAsmHooks.find base with
  | none =>
      rw [found] at member
      cases member
  | some hook =>
      rw [found, Option.elim] at member
      split_ifs at member
      · exact ⟨hook, rfl, member⟩
      · cases member

theorem recompileInsn_of_some {emitter : Emitter} {fn : Function} {base : Nat} {insn : Insn}
    {id : PpcInst} {table next : Option RecompilerSwitchTable} {statements : List Statement}
    (printed : emitter.recompileCase fn base insn id table = some (statements, next)) :
    emitter.recompileInsn fn base insn id table =
      (.comment :: emitter.printedHooks base false ++ statements ++ emitter.printedHooks base true,
        next, true) := by
  rw [recompileInsn, printed, printedHooks, printedHooks]
  cases emitter.config.midAsmHooks.find base <;> rfl

theorem recompileInsn_of_none {emitter : Emitter} {fn : Function} {base : Nat} {insn : Insn}
    {id : PpcInst} {table : Option RecompilerSwitchTable}
    (missing : emitter.recompileCase fn base insn id table = none) :
    emitter.recompileInsn fn base insn id table =
      (.comment :: emitter.printedHooks base false, table, false) := by
  rw [recompileInsn, missing, printedHooks]
  cases emitter.config.midAsmHooks.find base <;> rfl

/-- Only a `bctr` takes the pending table. -/
theorem table_recompileInsn {emitter : Emitter} {fn : Function} {base : Nat} {insn : Insn}
    {id : PpcInst} {table : Option RecompilerSwitchTable} :
    (emitter.recompileInsn fn base insn id table).2.1 = if id = .bctr then none else table := by
  unfold recompileInsn
  cases printed : emitter.recompileCase fn base insn id table with
  | none =>
      have notBctr : id ≠ .bctr := by
        rintro rfl
        cases table <;> simp [recompileCase] at printed
      simp [notBctr]
  | some result =>
      obtain ⟨statements, next⟩ := result
      cases printed_of_recompileCase printed with
      | conditional target =>
          have notBctr : id ≠ .bctr := by
            rintro rfl
            simp [PpcInst.targetOperand] at target
          simp [notBctr]
      | returnIf conditional =>
          have notBctr : id ≠ .bctr := by
            rintro rfl
            simp [PpcInst.isConditionalReturn] at conditional
          simp [notBctr]
      | compute ordinary =>
          have notBctr : id ≠ .bctr := by
            rintro rfl
            simp [PpcInst.isOrdinary] at ordinary
          simp [notBctr]
      | _ => simp

/-! ## Words -/

variable (emitter : Emitter) (fn : Function) (code : Int → Word)

/-- The second pass in front of a word. -/
def before (i : Nat) : Pass := (List.range i).foldl (emitter.recompileWord fn code) {}

/-- The table that is pending when a word is recompiled. -/
def pending (i : Nat) : Option RecompilerSwitchTable :=
  emitter.pendingAt (fn.base + 4 * i) (emitter.before fn code i).switchTable

/-- The decoded word. -/
def insn (i : Nat) : Insn := emitter.dis.disassemble (code i) (fn.base + 4 * i)

/-- The label in front of a word. -/
def printedLabel (i : Nat) : List Statement :=
  if fn.base + 4 * i ∈ emitter.labels fn code then [.label (fn.base + 4 * i)] else []

/-- What a word prints behind its label. -/
def printedInsn (i : Nat) : List Statement :=
  match (emitter.insn fn code i).opcode with
  | none => [.comment]
  | some id => (emitter.recompileInsn fn (uint32 (fn.base + 4 * i)) (emitter.insn fn code i) id
      (emitter.pending fn code i)).1

variable {emitter fn code}

theorem before_succ (i : Nat) : emitter.before fn code (i + 1) =
    emitter.recompileWord fn code (emitter.before fn code i) i := by
  rw [before, List.range_succ, List.foldl_append]
  rfl

theorem recompile_eq : emitter.recompile fn code = emitter.before fn code (words fn) := rfl

/-- A word appends its label and its statements. -/
theorem body_succ (i : Nat) : (emitter.before fn code (i + 1)).body =
    (emitter.before fn code i).body ++
      (emitter.printedLabel fn code i ++ emitter.printedInsn fn code i) := by
  rw [before_succ, recompileWord, printedInsn, ← List.append_assoc]
  cases decoded : (emitter.insn fn code i).opcode with
  | none =>
      rw [insn] at decoded
      simp only [decoded]
      rfl
  | some id =>
      rw [insn] at decoded
      simp only [decoded]
      rfl

/-- The table that is pending behind a word. -/
theorem switchTable_succ (i : Nat) : (emitter.before fn code (i + 1)).switchTable =
    if (emitter.insn fn code i).opcode = some .bctr then none else emitter.pending fn code i := by
  rw [before_succ, recompileWord]
  cases decoded : (emitter.insn fn code i).opcode with
  | none =>
      rw [insn] at decoded
      simp only [decoded]
      rfl
  | some id =>
      rw [insn] at decoded
      simp only [decoded, Option.some.injEq]
      exact table_recompileInsn

/-- A statement of the body belongs to a word. -/
theorem mem_body {n : Nat} {statement : Statement} :
    statement ∈ (emitter.before fn code n).body ↔ ∃ i < n,
      statement ∈ emitter.printedLabel fn code i ∨ statement ∈ emitter.printedInsn fn code i := by
  induction n with
  | zero => simp [before]
  | succ n ih =>
      rw [body_succ, List.mem_append, List.mem_append, ih]
      constructor
      · rintro (⟨i, less, printed⟩ | printed)
        · exact ⟨i, Nat.lt_succ_of_lt less, printed⟩
        · exact ⟨n, Nat.lt_succ_self n, printed⟩
      · rintro ⟨i, less, printed⟩
        rcases Nat.lt_succ_iff_lt_or_eq.mp less with earlier | rfl
        · exact .inl ⟨i, earlier, printed⟩
        · exact .inr printed

end Emitter

end UfcRecomp.Recompiler
