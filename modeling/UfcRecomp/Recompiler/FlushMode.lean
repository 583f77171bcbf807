import UfcRecomp.Recompiler.Body

/-!
# Switches of the flush mode

In front of a floating-point statement `Recompile` prints a switch of the flush mode, unless it
already printed one for the same unit since the last label or call. The body that is printed is
the one of `Emitter.recompile` with these switches. Each line comes with what is known of the mode
where it is executed.
-/

namespace UfcRecomp.Recompiler

open UfcRecomp.Ppc UfcRecomp.Utils UfcRecomp.Analyze

/-! ## Floating-point instructions -/

/-- The instructions with a case that computes with floating-point numbers, and the two that move
the control register. -/
inductive FloatInst where
  | fabs | fadd | fadds | fcfid | fcmpu | fctid | fctidz | fctiwz | fdiv | fdivs | fmadd | fmadds
  | fmr | fmsub | fmsubs | fmul | fmuls | fnabs | fneg | fnmadds | fnmsub | fnmsubs | fres
  | frsqrte | frsp | fsel | fsqrt | fsqrts | fsub | fsubs
  | lfd | lfdu | lfdx | lfs | lfsu | lfsux | lfsx
  | mffs | mtfsf
  | stfd | stfdu | stfdx | stfiwx | stfs | stfsu | stfsux | stfsx
  | vaddfp | vaddfp128 | vctsxs | vcfpsxws128 | vcfsx | vcsxwfp128 | vctuxs | vcfpuxws128
  | vcfux | vcuxwfp128 | vcmpbfp | vcmpbfp128 | vcmpeqfp | vcmpeqfp128 | vcmpgefp | vcmpgefp128
  | vcmpgtfp | vcmpgtfp128 | vexptefp | vexptefp128 | vlogefp | vlogefp128 | vmaddcfp128
  | vmaddfp | vmaddfp128 | vmaxfp | vmaxfp128 | vminfp | vminfp128 | vmsum3fp128 | vmsum4fp128
  | vmulfp128 | vnmsubfp | vnmsubfp128 | vpkd3d128 | vrefp | vrefp128 | vrfim | vrfim128
  | vrfin | vrfin128 | vrfiz | vrfiz128 | vrsqrtefp | vrsqrtefp128 | vsubfp | vsubfp128
  deriving DecidableEq

/-- The scalar unit and the vector unit. -/
inductive FloatUnit where
  | fpu
  | vmx
  deriving DecidableEq

/-- The unit whose operations the statements of an instruction stand for. -/
def FloatInst.unit : FloatInst → Option FloatUnit
  | .fabs | .fadd | .fadds | .fcfid | .fcmpu | .fctid | .fctidz | .fctiwz | .fdiv | .fdivs
  | .fmadd | .fmadds | .fmr | .fmsub | .fmsubs | .fmul | .fmuls | .fnabs | .fneg | .fnmadds
  | .fnmsub | .fnmsubs | .fres | .frsqrte | .frsp | .fsel | .fsqrt | .fsqrts | .fsub | .fsubs
  | .lfd | .lfdu | .lfdx | .lfs | .lfsu | .lfsux | .lfsx
  | .stfd | .stfdu | .stfdx | .stfiwx | .stfs | .stfsu | .stfsux | .stfsx => some .fpu
  | .mffs | .mtfsf => none
  | _ => some .vmx

/-- The argument of `printSetFlushMode` in the case of an instruction. -/
def FloatInst.setsFlushMode : FloatInst → Option Bool
  | .fabs | .fadd | .fadds | .fcfid | .fcmpu | .fctid | .fctidz | .fctiwz => some false
  | .fdiv | .fdivs | .fmadd | .fmadds | .fmr | .fmsub | .fmsubs | .fmul | .fmuls => some false
  | .fnabs | .fneg | .fnmadds | .fnmsub | .fnmsubs | .fres | .frsqrte | .frsp => some false
  | .fsel | .fsqrt | .fsqrts | .fsub | .fsubs => some false
  | .lfd | .lfdu | .lfdx | .lfs | .lfsu | .lfsux | .lfsx => some false
  | .mffs => none
  | .mtfsf => none
  | .stfd | .stfdu | .stfdx | .stfiwx | .stfs | .stfsu | .stfsux | .stfsx => some false
  | .vaddfp | .vaddfp128 => some true
  | .vctsxs | .vcfpsxws128 => some true
  | .vcfsx | .vcsxwfp128 => some true
  | .vctuxs | .vcfpuxws128 => some true
  | .vcfux | .vcuxwfp128 => some true
  | .vcmpbfp | .vcmpbfp128 => some true
  | .vcmpeqfp | .vcmpeqfp128 => some true
  | .vcmpgefp | .vcmpgefp128 => some true
  | .vcmpgtfp | .vcmpgtfp128 => some true
  | .vexptefp | .vexptefp128 => some true
  | .vlogefp | .vlogefp128 => some true
  | .vmaddcfp128 | .vmaddfp | .vmaddfp128 => some true
  | .vmaxfp | .vmaxfp128 => some true
  | .vminfp | .vminfp128 => some true
  | .vmsum3fp128 => some true
  | .vmsum4fp128 => some true
  | .vmulfp128 => some true
  | .vnmsubfp | .vnmsubfp128 => some true
  | .vpkd3d128 => some true
  | .vrefp | .vrefp128 => some true
  | .vrfim | .vrfim128 => some true
  | .vrfin | .vrfin128 => some true
  | .vrfiz | .vrfiz128 => some true
  | .vrsqrtefp | .vrsqrtefp128 => some true
  | .vsubfp | .vsubfp128 => some true

/-- Every case asks for the mode of its unit. -/
theorem setsFlushMode_of_unit {inst : FloatInst} {unit : FloatUnit}
    (computes : inst.unit = some unit) : inst.setsFlushMode = some (unit == .vmx) := by
  cases inst <;> cases computes <;> rfl

/-! ## The printed lines -/

/-- `CSRState`. -/
inductive CsrState where
  | unknown
  | fpu
  | vmx
  deriving DecidableEq

/-- The state after a switch. -/
def CsrState.ofEnable (enable : Bool) : CsrState := if enable then .vmx else .fpu

/-- A statement of the body, or a switch of the flush mode. -/
inductive FlushStatement where
  | base (statement : Statement)
  | setFlushMode (enable unconditional : Bool)

/-- A statement with what is known of the mode where it is executed. -/
structure Line where
  known : CsrState
  statement : FlushStatement

/-- Whether a statement calls a function and goes on. -/
def Statement.calls : Statement → Bool
  | .act (.call _) | .act .callIndirect | .act .setjmp => true
  | _ => false

/-- Statements one after the other; nothing is known behind a call. -/
def linesOf : CsrState → List Statement → List Line
  | _, [] => []
  | known, statement :: rest =>
    ⟨known, .base statement⟩ :: linesOf (if statement.calls then .unknown else known) rest

/-- `printSetFlushMode`. -/
def printSetFlushMode (csrState : CsrState) (enable : Bool) : List Line :=
  if csrState ≠ .ofEnable enable then
    [⟨csrState, .setFlushMode enable (csrState ≠ .unknown)⟩]
  else
    []

namespace Emitter

variable (emitter : Emitter) (floatInst : Nat → Option FloatInst) (fn : Function)

/-- What the case of an instruction passes to `printSetFlushMode`. -/
def setsFlushMode : PpcInst → Option Bool
  | .other number => (floatInst number).bind FloatInst.setsFlushMode
  | _ => none

/-- `csrState` behind the switch that a case prints. -/
def switched (id : PpcInst) (csrState : CsrState) : CsrState :=
  match setsFlushMode floatInst id with
  | some enable => .ofEnable enable
  | none => csrState

/-- `csrState` behind a case. -/
def csrStateAfter (id : PpcInst) (csrState : CsrState) : CsrState :=
  match id with
  | .bl | .bctrl => .unknown
  | _ => switched floatInst id csrState

/-- The switch that a case prints. -/
def printedSwitch (id : PpcInst) (csrState : CsrState) : List Line :=
  (setsFlushMode floatInst id).elim [] fun enable => printSetFlushMode csrState enable

/-- `Recompile` of an instruction with the switches, and `csrState` after it. -/
def flushInsn (base : Nat) (insn : Insn) (id : PpcInst)
    (switchTable : Option RecompilerSwitchTable) (csrState : CsrState) : List Line × CsrState :=
  let front := linesOf csrState (.comment :: emitter.printedHooks base false)
  match emitter.recompileCase fn base insn id switchTable with
  | some (statements, _) =>
    let after := csrStateAfter floatInst id csrState
    (front ++ printedSwitch floatInst id csrState ++
      linesOf (switched floatInst id csrState) statements ++
      linesOf after (emitter.printedHooks base true), after)
  | none => (front, csrState)

variable (code : Int → Word)

/-- The second pass takes a word. -/
def flushWord (pass : List Line × CsrState) (i : Nat) : List Line × CsrState :=
  let label := linesOf .unknown (emitter.printedLabel fn code i)
  let csrState := if label = [] then pass.2 else .unknown
  match (emitter.insn fn code i).opcode with
  | none => (pass.1 ++ label ++ linesOf csrState [.comment], csrState)
  | some id =>
    let (lines, csrState) := emitter.flushInsn floatInst fn (uint32 (fn.base + 4 * i))
      (emitter.insn fn code i) id (emitter.pending fn code i) csrState
    (pass.1 ++ label ++ lines, csrState)

/-- The lines in front of a word, and `csrState` there. -/
def flushBefore (i : Nat) : List Line × CsrState :=
  (List.range i).foldl (emitter.flushWord floatInst fn code) ([], .unknown)

/-- The lines of a function. -/
def flushBody : List Line := (emitter.flushBefore floatInst fn code (words fn)).1

end Emitter

/-! ## The body without the switches -/

/-- The statements of the body among lines. -/
def statementsOf (lines : List Line) : List Statement :=
  lines.filterMap fun line =>
    match line.statement with
    | .base statement => some statement
    | .setFlushMode _ _ => none

theorem statementsOf_append (first second : List Line) :
    statementsOf (first ++ second) = statementsOf first ++ statementsOf second := by
  rw [statementsOf, List.filterMap_append]
  rfl

@[simp]
theorem statementsOf_linesOf (known : CsrState) (statements : List Statement) :
    statementsOf (linesOf known statements) = statements := by
  induction statements generalizing known with
  | nil => rfl
  | cons statement rest ih =>
      rw [linesOf]
      exact congrArg (List.cons statement) (ih _)

@[simp]
theorem statementsOf_printSetFlushMode (csrState : CsrState) (enable : Bool) :
    statementsOf (printSetFlushMode csrState enable) = [] := by
  rw [printSetFlushMode]
  split <;> rfl

namespace Emitter

variable {emitter : Emitter} {floatInst : Nat → Option FloatInst} {fn : Function}
  {code : Int → Word}

theorem statementsOf_flushInsn {base : Nat} {insn : Insn} {id : PpcInst}
    {switchTable : Option RecompilerSwitchTable} {csrState : CsrState} :
    statementsOf (emitter.flushInsn floatInst fn base insn id switchTable csrState).1 =
      (emitter.recompileInsn fn base insn id switchTable).1 := by
  have switch : statementsOf (printedSwitch floatInst id csrState) = [] := by
    rw [printedSwitch]
    cases setsFlushMode floatInst id with
    | none => rfl
    | some enable => exact statementsOf_printSetFlushMode _ _
  rw [flushInsn]
  cases printed : emitter.recompileCase fn base insn id switchTable with
  | none =>
      rw [recompileInsn_of_none printed]
      exact statementsOf_linesOf _ _
  | some result =>
      obtain ⟨statements, next⟩ := result
      rw [recompileInsn_of_some printed]
      simp only [statementsOf_append, statementsOf_linesOf, switch, List.append_nil]

/-- The lines of the first words are the body of the first words and switches. -/
theorem statementsOf_flushBefore (i : Nat) :
    statementsOf (emitter.flushBefore floatInst fn code i).1 = (emitter.before fn code i).body := by
  induction i with
  | zero => rfl
  | succ i ih =>
      rw [flushBefore, List.range_succ, List.foldl_append, ← flushBefore, body_succ, ← ih,
        printedInsn]
      change statementsOf (emitter.flushWord floatInst fn code _ i).1 = _
      rw [flushWord]
      dsimp only
      cases (emitter.insn fn code i).opcode with
      | none => simp [statementsOf_append]
      | some id =>
          dsimp only
          rw [statementsOf_append, statementsOf_append, statementsOf_linesOf,
            statementsOf_flushInsn, List.append_assoc]

/-- The switches are all that is added to the body. -/
theorem statementsOf_flushBody :
    statementsOf (emitter.flushBody floatInst fn code) = (emitter.recompile fn code).body :=
  statementsOf_flushBefore _

end Emitter

end UfcRecomp.Recompiler
