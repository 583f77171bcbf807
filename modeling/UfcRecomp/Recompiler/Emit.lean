import UfcRecomp.Ppc.Disasm
import UfcRecomp.Recompiler.Config
import UfcRecomp.Analyze.Function

/-!
# The statements of one instruction

The C++ statements that `Recompile` prints for an instruction, as far as they decide
where control goes. What an ordinary instruction computes is one statement here; a
statement that branches carries its condition and what it does when the condition holds.
-/

namespace UfcRecomp.Recompiler

open UfcRecomp.Ppc UfcRecomp.Utils UfcRecomp.Analyze

/-! ## Emitted statements -/

/-- The fields of a condition register that conditions look at. -/
inductive CrField where
  | lt
  | gt
  | eq
  deriving DecidableEq, Repr

/-- The conditions of emitted branches; a condition on the counter tests its low half. -/
inductive Condition where
  | cr (negated : Bool) (index : Nat) (cond : CrField)
  | ctr (zero : Bool)
  | ctrAndEq (zero negated : Bool) (index : Nat)
  deriving DecidableEq, Repr

/-- Statements without a condition. -/
inductive Action where
  | goto (address : Nat)
  | ret
  | call (name : String)
  | callIndirect
  | longjmp
  | setjmp
  | error (address : Nat)
  | setLr (address : Nat)
  | decrementCtr
  | debugtrap
  | hook (name : String) (registers : List String)
  | compute (id : PpcInst)
  deriving DecidableEq, Repr

inductive Statement where
  | comment
  | label (address : Nat)
  | act (action : Action)
  | ifThen (condition : Condition) (actions : List Action)
  | ifHook (name : String) (registers : List String) (onTrue onFalse : List Action)
  /-- A `switch` over all 64 bits of a register, with cases from zero on and an unreachable
  default. -/
  | switch (r : Nat) (cases : List (List Action))
  deriving DecidableEq, Repr

/-! ## Printing -/

/-- What `Recompile` reads besides the function itself. -/
structure Emitter where
  dis : Disassembler
  config : RecompilerConfig
  symbols : SymbolTable
  /-- Whether there is a case for an instruction that the model does not name. -/
  hasCase : Nat → Bool

/-- The conversion of an address to `uint32_t`. -/
def uint32 (address : Nat) : Nat := address % 2 ^ 32

/-- Whether an address lies in a function. -/
def Inside (fn : Function) (address : Nat) : Prop :=
  fn.base ≤ address ∧ address < fn.base + fn.size

instance (fn : Function) (address : Nat) : Decidable (Inside fn address) :=
  inferInstanceAs (Decidable (_ ∧ _))

/-- Whether a function is one of the helpers that save and restore registers, by its name. -/
def isSaveRestore (name : String) : Bool := name.startsWith "__rest" || name.startsWith "__save"

namespace Emitter

variable (emitter : Emitter) (fn : Function)

def printFunctionCall (address : Nat) : List Action :=
  if address = emitter.config.longJmpAddress then
    [.longjmp]
  else if address = emitter.config.setJmpAddress then
    [.setjmp]
  else
    match emitter.symbols.find address with
    | some targetSymbol =>
      if targetSymbol.address = address ∧ targetSymbol.type = .symbolFunction then
        if emitter.config.nonVolatileRegistersAsLocalVariables ∧ isSaveRestore targetSymbol.name then
          []
        else
          [.call targetSymbol.name]
      else
        [.error address]
    | none => [.error address]

def printConditionalBranchTo (target : Nat) (condition : Condition) : List Statement :=
  if ¬Inside fn target then
    [.ifThen condition (emitter.printFunctionCall target ++ [.ret])]
  else
    [.ifThen condition [.goto target]]

def printConditionalBranch (insn : Insn) (not_ : Bool) (cond : CrField) : List Statement :=
  emitter.printConditionalBranchTo fn (insn.operand 1).toNat
    (.cr not_ (insn.operand 0).toNat cond)

/-- A case of a `switch`: a label outside the function is reported and dropped. -/
def printCase (label : Nat) : List Action :=
  if ¬Inside fn label then [.error label, .ret] else [.goto label]

/-- What a hook does after it answered, or after it was called when it answers nothing. -/
def printLeave (ret : Bool) (jumpAddress : Nat) : List Action :=
  if ret then [.ret] else if jumpAddress ≠ 0 then [.goto jumpAddress] else []

def printMidAsmHook (hook : RecompilerMidAsmHook) : List Statement :=
  if hook.returnsBool then
    [.ifHook hook.name hook.registers (printLeave hook.returnOnTrue hook.jumpAddressOnTrue)
      (printLeave hook.returnOnFalse hook.jumpAddressOnFalse)]
  else
    .act (.hook hook.name hook.registers) ::
      (printLeave hook.ret hook.jumpAddress).map Statement.act

/-- The case of the instruction at an address, with the table that is pending for the next
`bctr`: what it prints and the table that is pending after it. There is no case for `none`. -/
def recompileCase (base : Nat) (insn : Insn) (id : PpcInst)
    (switchTable : Option RecompilerSwitchTable) :
    Option (List Statement × Option RecompilerSwitchTable) :=
  let setLr : List Statement := if emitter.config.skipLr then [] else [.act (.setLr (uint32 (base + 4)))]
  let target := (insn.operand 0).toNat
  let print (statements : List Statement) := some (statements, switchTable)
  let returnIf (condition : Condition) := print [.ifThen condition [.ret]]
  let index := (insn.operand 0).toNat
  match id with
  | .b =>
    if ¬Inside fn target then
      print ((emitter.printFunctionCall target ++ [Action.ret]).map Statement.act)
    else
      print [.act (.goto target)]
  | .bctr =>
    match switchTable with
    | some table => some ([.switch table.r (table.labels.map (printCase fn))], none)
    | none => print [.act .callIndirect, .act .ret]
  | .bctrl => print (setLr ++ [.act .callIndirect])
  | .bdz =>
    print (.act .decrementCtr :: emitter.printConditionalBranchTo fn target (.ctr true))
  | .bdzlr => print [.act .decrementCtr, .ifThen (.ctr true) [.ret]]
  | .bdnz =>
    print (.act .decrementCtr :: emitter.printConditionalBranchTo fn target (.ctr false))
  | .bdnzf =>
    print (.act .decrementCtr :: emitter.printConditionalBranchTo fn (insn.operand 1).toNat
      (.ctrAndEq false true (index / 4)))
  | .bdnzt =>
    print (.act .decrementCtr :: emitter.printConditionalBranchTo fn (insn.operand 1).toNat
      (.ctrAndEq false false (index / 4)))
  | .bdzf =>
    print (.act .decrementCtr :: emitter.printConditionalBranchTo fn (insn.operand 1).toNat
      (.ctrAndEq true true (index / 4)))
  | .beq => print (emitter.printConditionalBranch fn insn false .eq)
  | .beqlr => returnIf (.cr false index .eq)
  | .bge => print (emitter.printConditionalBranch fn insn true .lt)
  | .bgelr => returnIf (.cr true index .lt)
  | .bgt => print (emitter.printConditionalBranch fn insn false .gt)
  | .bgtlr => returnIf (.cr false index .gt)
  | .bl => print (setLr ++ (emitter.printFunctionCall target).map Statement.act)
  | .ble => print (emitter.printConditionalBranch fn insn true .gt)
  | .blelr => returnIf (.cr true index .gt)
  | .blr => print [.act .ret]
  | .blrl => print [.act .debugtrap]
  | .blt => print (emitter.printConditionalBranch fn insn false .lt)
  | .bltlr => returnIf (.cr false index .lt)
  | .bne => print (emitter.printConditionalBranch fn insn true .eq)
  | .bnectr => print [.ifThen (.cr true index .eq) [.callIndirect, .ret]]
  | .bnelr => returnIf (.cr true index .eq)
  | .unlistedBranch => none
  | .other number => if emitter.hasCase number then print [.act (.compute id)] else none
  | _ => print [.act (.compute id)]

/-- `Recompile` of an instruction: what is printed, the table that is pending afterwards, and
whether there was a case for the instruction. The address is passed as a `uint32_t`. -/
def recompileInsn (base : Nat) (insn : Insn) (id : PpcInst)
    (switchTable : Option RecompilerSwitchTable) :
    List Statement × Option RecompilerSwitchTable × Bool :=
  let midAsmHook := emitter.config.midAsmHooks.find base
  let hooks (afterInstruction : Bool) : List Statement :=
    match midAsmHook with
    | some hook =>
      if hook.afterInstruction = afterInstruction then printMidAsmHook hook else []
    | none => []
  match emitter.recompileCase fn base insn id switchTable with
  | some (statements, switchTable) =>
    (.comment :: hooks false ++ statements ++ hooks true, switchTable, true)
  | none => (.comment :: hooks false, switchTable, false)

/-! ## The two passes over a function -/

/-- The labels that the first pass takes from the word at an address. -/
def labelsAt (addr : Nat) (instruction : Word) : List Nat :=
  (if ppcOp instruction = ppcOpB then
    if ppcBl instruction then [] else [sizeT (addr + ppcBi instruction)]
  else if ppcOp instruction = ppcOpBc then
    [sizeT (addr + ppcBd instruction)]
  else
    []) ++
  (match emitter.config.switchTables.find (uint32 addr) with
  | some switchTable => switchTable.labels
  | none => []) ++
  match emitter.config.midAsmHooks.find (uint32 addr) with
  | some hook =>
    [hook.jumpAddress, hook.jumpAddressOnTrue, hook.jumpAddressOnFalse].filter (· ≠ 0)
  | none => []

/-- The number of words that both passes look at. -/
def words (fn : Function) : Nat := (fn.size + 3) / 4

/-- The labels of a function, given the words from its base on. -/
def labels (code : Int → Word) : List Nat :=
  (List.range (words fn)).flatMap fun i => emitter.labelsAt (fn.base + 4 * i) (code i)

/-- The second pass in front of a word: the body so far, the table that is pending for the next
`bctr`, and whether there was a case for every instruction. -/
structure Pass where
  body : List Statement := []
  switchTable : Option RecompilerSwitchTable := none
  allRecompiled : Bool := true

/-- The table that is pending at an address, given the one that was pending in front of it. -/
def pendingAt (base : Nat) (switchTable : Option RecompilerSwitchTable) :
    Option RecompilerSwitchTable :=
  match switchTable with
  | some table => some table
  | none => emitter.config.switchTables.find (uint32 base)

/-- The second pass takes a word. -/
def recompileWord (code : Int → Word) (pass : Pass) (i : Nat) : Pass :=
  let base := fn.base + 4 * i
  let label : List Statement := if base ∈ emitter.labels fn code then [.label base] else []
  let switchTable := emitter.pendingAt base pass.switchTable
  let insn := emitter.dis.disassemble (code i) base
  match insn.opcode with
  | none =>
    { pass with body := pass.body ++ label ++ [.comment], switchTable }
  | some id =>
    let (statements, switchTable, recompiled) :=
      emitter.recompileInsn fn (uint32 base) insn id switchTable
    { body := pass.body ++ label ++ statements, switchTable
      allRecompiled := pass.allRecompiled && recompiled }

/-- `Recompile` of a function, given the words from its base on. -/
def recompile (code : Int → Word) : Pass :=
  (List.range (words fn)).foldl (emitter.recompileWord fn code) {}

end Emitter

end UfcRecomp.Recompiler
