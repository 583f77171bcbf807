import UfcRecomp.Lib.TextPattern
import UfcRecomp.Recompiler.LocalRegisters

/-!
# The lines of the generated code

The text of the statements that a `bctr`, a load and a hook are made of. A line is what one
`println` prints. The comment of an instruction and the text of what an ordinary instruction
computes are given; the names of registers follow the configuration.
-/

namespace UfcRecomp.Recompiler

open UfcRecomp.Lib UfcRecomp.Lib.TextPattern UfcRecomp.Analyze

/-- A line of the generated code, without its end. -/
abbrev Text := List Char

/-! ## Names of registers -/

namespace RecompilerConfig

variable (config : RecompilerConfig)

/-- A register is a member of the context unless it is a local variable. -/
def nameText (isLocal : Bool) (name : Text) : Text :=
  if isLocal then name else "ctx.".toList ++ name

def registerText (index : Nat) : Text :=
  nameText
    ((config.nonArgumentRegistersAsLocalVariables &&
        (index = 0 || index = 2 || index = 11 || index = 12)) ||
      (config.nonVolatileRegistersAsLocalVariables && 14 ≤ index))
    ("r".toList ++ Radix.chars 10 index)

def floatText (index : Nat) : Text :=
  nameText
    ((config.nonArgumentRegistersAsLocalVariables && index = 0) ||
      (config.nonVolatileRegistersAsLocalVariables && 14 ≤ index))
    ("f".toList ++ Radix.chars 10 index)

def vectorText (index : Nat) : Text :=
  nameText
    ((config.nonArgumentRegistersAsLocalVariables && (32 ≤ index && index ≤ 63)) ||
      (config.nonVolatileRegistersAsLocalVariables &&
        ((14 ≤ index && index ≤ 31) || (64 ≤ index && index ≤ 127))))
    ("v".toList ++ Radix.chars 10 index)

/-- `ctr`, `xer`, `reserved` and `cr`. -/
def specialText (register : SpecialRegister) : Text :=
  nameText (config.isLocal register) <|
    match register with
    | .ctr => "ctr".toList
    | .xer => "xer".toList
    | .reserved => "reserved".toList
    | .cr index => "cr".toList ++ Radix.chars 10 index

/-! ## Calls of hooks -/

/-- An argument of a hook; a name that starts with another letter prints nothing. -/
def argumentText (reg : String) : Text :=
  match hookRegister reg with
  | some register => config.specialText register
  | none =>
    match reg.toList with
    | 'r' :: rest => config.registerText (atoi rest)
    | 'f' :: rest =>
      if reg = "fpscr" then "ctx.fpscr".toList else config.floatText (atoi rest)
    | 'v' :: rest => config.vectorText (atoi rest)
    | _ => []

/-- The loop over the arguments: there is a comma unless the text ends with the parenthesis. -/
def appendArgument (out : Text) (reg : String) : Text :=
  (if out.getLast? = some '(' then out else out ++ ", ".toList) ++ config.argumentText reg

/-- The call of a hook. -/
def hookText (name : String) (registers : List String) : Text :=
  registers.foldl config.appendArgument (name.toList ++ "(".toList) ++ ")".toList

/-! ## Statements -/

variable (comment computed : Text)

/-- The text of a statement without a condition, without the blanks in front of it. Statements that
neither a `bctr` nor a load nor a hook prints have no text here. -/
def actionText : Action → Option Text
  | .goto address => some ("goto loc_".toList ++ Radix.chars 16 address ++ ";".toList)
  | .ret => some "return;".toList
  | .callIndirect =>
    some ("PPC_CALL_INDIRECT_FUNC(".toList ++ config.specialText .ctr ++ ".u32);".toList)
  | .error address => some ("// ERROR: 0x".toList ++ Radix.chars 16 address)
  | .hook name registers => some (config.hookText name registers ++ ";".toList)
  | .compute _ => some computed
  | _ => none

/-- The lines of actions behind so many tabs. -/
def actionLines (tabs : Nat) (actions : List Action) : List Text :=
  (actions.filterMap (config.actionText computed)).map fun text => List.replicate tabs '\t' ++ text

def caseLine (i : Nat) : Text := "\tcase ".toList ++ Radix.chars 10 i ++ ":".toList

/-- The cases of a `switch` from number `i` on. -/
def caseLines : Nat → List (List Action) → List Text
  | _, [] => []
  | i, actions :: cases =>
    caseLine i :: (config.actionLines computed 2 actions ++ caseLines (i + 1) cases)

def switchLine (r : Nat) : Text :=
  "\tswitch (".toList ++ config.registerText r ++ ".u64) \x7b".toList

def defaultLine : Text := "\tdefault:".toList

def unreachableLine : Text := "\t\t__builtin_unreachable();".toList

def closingLine : Text := "\t\x7d".toList

def labelLine (address : Nat) : Text := "loc_".toList ++ Radix.chars 16 address ++ ":".toList

/-- The lines of a statement; a branch is none of those that have lines here. -/
def statementLines : Statement → List Text
  | .comment => [comment]
  | .label address => [labelLine address]
  | .act action => config.actionLines computed 1 [action]
  | .ifThen _ _ => []
  | .ifHook name registers onTrue onFalse =>
    ("\tif (".toList ++ config.hookText name registers ++ ") \x7b".toList) ::
      (config.actionLines computed 2 onTrue ++
        closingLine :: "\telse \x7b".toList ::
          (config.actionLines computed 2 onFalse ++ [closingLine]))
  | .switch r cases =>
    config.switchLine r ::
      (config.caseLines computed 0 cases ++ [defaultLine, unreachableLine, closingLine])

/-- The lines of statements. -/
def lines (statements : List Statement) : List Text :=
  statements.flatMap (config.statementLines comment computed)

/-- The lines of the hook at an address, in front of the instruction or behind it. -/
def hookLines (emitter : Emitter) (base : Nat) (afterInstruction : Bool) : List Text :=
  emitter.config.lines [] [] (emitter.printedHooks base afterInstruction)

variable {config comment computed}

@[simp]
theorem lines_nil : config.lines comment computed [] = [] := rfl

@[simp]
theorem lines_cons (statement : Statement) (statements : List Statement) :
    config.lines comment computed (statement :: statements) =
      config.statementLines comment computed statement ++
        config.lines comment computed statements :=
  List.flatMap_cons

@[simp]
theorem lines_append (front back : List Statement) :
    config.lines comment computed (front ++ back) =
      config.lines comment computed front ++ config.lines comment computed back :=
  List.flatMap_append

/-! ## The lines of a hook -/

/-- The call of a hook starts with its name. -/
theorem exists_hookText (config : RecompilerConfig) (name : String) (registers : List String) :
    ∃ rest, config.hookText name registers = name.toList ++ '(' :: rest := by
  have arguments : ∀ out : Text, (∃ rest, out = name.toList ++ '(' :: rest) →
      ∃ rest, registers.foldl config.appendArgument out = name.toList ++ '(' :: rest := by
    induction registers with
    | nil => exact fun out named => named
    | cons reg registers ih =>
        rintro _ ⟨rest, rfl⟩
        refine ih _ ?_
        unfold appendArgument
        split_ifs
        · exact ⟨rest ++ config.argumentText reg, by simp⟩
        · exact ⟨rest ++ ", ".toList ++ config.argumentText reg, by simp⟩
  obtain ⟨rest, named⟩ := arguments (name.toList ++ "(".toList) ⟨[], rfl⟩
  refine ⟨rest ++ ")".toList, ?_⟩
  rw [hookText, named, List.append_assoc, List.cons_append]

/-- A line of a hook: the call of a hook that answers nothing, or a line that starts with one of
these letters or with a bracket. -/
def HookLine (name : String) (line : Text) : Prop :=
  (∃ rest, line = '\t' :: (name.toList ++ '(' :: rest)) ∨
    ∃ start ∈ ['i', 'e', 'r', 'g', '\x7d'], ∃ rest, skipSpaces line = start :: rest

/-- What leaves a hook does not depend on what the instruction computes. -/
theorem actionLines_printLeave (config : RecompilerConfig) (computed : Text) (tabs : Nat)
    (ret : Bool) (jumpAddress : Nat) :
    config.actionLines computed tabs (Emitter.printLeave ret jumpAddress) =
      config.actionLines [] tabs (Emitter.printLeave ret jumpAddress) := by
  unfold Emitter.printLeave
  split_ifs <;> rfl

theorem lines_map_act (actions : List Action) :
    config.lines comment computed (actions.map Statement.act) =
      config.actionLines computed 1 actions := by
  induction actions with
  | nil => rfl
  | cons action actions ih =>
      rw [List.map_cons, lines_cons, ih, statementLines, actionLines, actionLines, actionLines,
        ← List.map_append, ← List.filterMap_append, List.singleton_append]

theorem lines_printMidAsmHook (config : RecompilerConfig) (comment computed : Text)
    (hook : RecompilerMidAsmHook) :
    config.lines comment computed (Emitter.printMidAsmHook hook) =
      config.lines [] [] (Emitter.printMidAsmHook hook) := by
  unfold Emitter.printMidAsmHook
  split_ifs
  · simp only [lines_cons, lines_nil, statementLines, actionLines_printLeave _ computed]
  · simp only [lines_cons, lines_map_act, statementLines, actionLines_printLeave _ computed]
    rfl

/-- The lines of a hook are the same at every instruction. -/
theorem lines_printedHooks (emitter : Emitter) (base : Nat) (afterInstruction : Bool)
    (comment computed : Text) :
    emitter.config.lines comment computed (emitter.printedHooks base afterInstruction) =
      hookLines emitter base afterInstruction := by
  rw [hookLines, Emitter.printedHooks]
  cases emitter.config.midAsmHooks.find base with
  | none => rfl
  | some hook =>
      simp only [Option.elim]
      split_ifs
      · exact lines_printMidAsmHook _ _ _ _
      · rfl

theorem skipSpaces_tabs (tabs : Nat) {start : Char} {rest : Text} (shown : isSpace start = false) :
    skipSpaces (List.replicate tabs '\t' ++ start :: rest) = start :: rest := by
  refine skipSpaces_append ?_ fun c here => Option.some.inj here ▸ shown
  rw [List.all_replicate]
  simp [isSpace]

theorem hookLine_of_mem_printLeave {config : RecompilerConfig} {computed : Text} {name : String}
    {line : Text} {tabs jumpAddress : Nat} {ret : Bool}
    (member : line ∈ config.actionLines computed tabs (Emitter.printLeave ret jumpAddress)) :
    HookLine name line := by
  unfold Emitter.printLeave at member
  split_ifs at member
  · obtain rfl := List.mem_singleton.mp member
    exact .inr ⟨'r', by decide, _, skipSpaces_tabs tabs rfl⟩
  · obtain rfl := List.mem_singleton.mp member
    exact .inr ⟨'g', by decide, _, skipSpaces_tabs tabs rfl⟩
  · exact absurd member List.not_mem_nil

theorem hookLine_of_mem {config : RecompilerConfig} {comment computed : Text}
    {hook : RecompilerMidAsmHook} {line : Text}
    (member : line ∈ config.lines comment computed (Emitter.printMidAsmHook hook)) :
    HookLine hook.name line := by
  obtain ⟨rest, called⟩ := exists_hookText config hook.name hook.registers
  have closing : HookLine hook.name closingLine := .inr ⟨'\x7d', by decide, [], rfl⟩
  unfold Emitter.printMidAsmHook at member
  split_ifs at member
  · simp only [lines_cons, lines_nil, List.append_nil, statementLines, List.mem_cons,
      List.mem_append, List.not_mem_nil, or_false] at member
    rcases member with rfl | onTrue | rfl | rfl | onFalse | rfl
    · exact .inr ⟨'i', by decide, _, rfl⟩
    · exact hookLine_of_mem_printLeave onTrue
    · exact closing
    · exact .inr ⟨'e', by decide, _, rfl⟩
    · exact hookLine_of_mem_printLeave onFalse
    · exact closing
  · rw [lines_cons, lines_map_act, List.mem_append] at member
    rcases member with call | leave
    · obtain rfl := List.mem_singleton.mp call
      refine .inl ⟨rest ++ ";".toList, ?_⟩
      rw [called]
      simp
    · exact hookLine_of_mem_printLeave leave

/-- A line of hooks is one of the hook at the address. -/
theorem hookLine_of_mem_hookLines {emitter : Emitter} {base : Nat} {afterInstruction : Bool}
    {line : Text} (member : line ∈ hookLines emitter base afterInstruction) :
    ∃ hook, emitter.config.midAsmHooks.find base = some hook ∧ HookLine hook.name line := by
  rw [hookLines, lines, List.mem_flatMap] at member
  obtain ⟨statement, printed, among⟩ := member
  obtain ⟨hook, found, hooked⟩ := Emitter.mem_printedHooks printed
  exact ⟨hook, found, hookLine_of_mem (List.mem_flatMap.mpr ⟨statement, hooked, among⟩)⟩

theorem length_actionLines_printLeave (config : RecompilerConfig) (tabs : Nat) (ret : Bool)
    (jumpAddress : Nat) :
    (config.actionLines [] tabs (Emitter.printLeave ret jumpAddress)).length ≤ 1 := by
  unfold Emitter.printLeave
  split_ifs <;> simp [actionLines, actionText]

/-- A hook has at most six lines. -/
theorem length_hookLines_le (emitter : Emitter) (base : Nat) (afterInstruction : Bool) :
    (hookLines emitter base afterInstruction).length ≤ 6 := by
  rw [hookLines, Emitter.printedHooks]
  cases emitter.config.midAsmHooks.find base with
  | none => exact Nat.zero_le 6
  | some hook =>
      have leave := length_actionLines_printLeave emitter.config 1 hook.ret hook.jumpAddress
      have onTrue := length_actionLines_printLeave emitter.config 2 hook.returnOnTrue
        hook.jumpAddressOnTrue
      have onFalse := length_actionLines_printLeave emitter.config 2 hook.returnOnFalse
        hook.jumpAddressOnFalse
      simp only [Option.elim, Emitter.printMidAsmHook]
      split_ifs
      · simp only [lines_cons, lines_nil, statementLines, List.length_append, List.length_cons,
          List.length_nil]
        omega
      · rw [lines_cons, lines_map_act, List.length_append]
        change 1 + _ ≤ 6
        omega
      · exact Nat.zero_le 6

end RecompilerConfig

end UfcRecomp.Recompiler
