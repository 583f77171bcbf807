import Mathlib.Data.BitVec
import UfcRecomp.Lib.Layers
import UfcRecomp.Lib.Lockstep
import UfcRecomp.Recompiler.FlushLines
import UfcRecomp.Recompiler.LocalRegisters

/-!
# Runs with local registers

The emitted functions call each other with the context, and each has its own local variables, which
are zero at first. What statements compute, what hooks and functions from elsewhere do and where the
function table leads is the same with and without local variables; they see the rest of the context
and memory as a world. When every member of a local register is written before it is read, since the
entry and since the last call, both emissions do the same.
-/

namespace UfcRecomp.Recompiler

open UfcRecomp.Ppc UfcRecomp.Utils UfcRecomp.Analyze UfcRecomp.Lib

universe u v

/-! ## Machines -/

/-- What the emitted functions are compiled against and what their statements compute. The world is
memory and the rest of the context, the scratch variables are the other local variables. -/
structure Machine (World : Type u) (Scratch : Type v) where
  fresh : Scratch
  /-- All bits of a general register. -/
  gpr : Nat → Scratch → World → BitVec 64
  setLr : Nat → World → World
  /-- The function that the table has for an address. -/
  lookup : World → BitVec 32 → Option String
  /-- A function that is not recompiled. -/
  imported : String → World → Option World
  hook : String → List String → Members → Scratch → World → Members × Scratch × World × Bool
  /-- A statement of the case of an instruction. -/
  compute : Insn → Nat → Members → Scratch → World → Members × Scratch × World

/-- What is left to do of a line: statements of the body and statements of a case. -/
inductive Work where
  | statement (statement : Statement)
  | piece (index : Nat) (piece : Piece)

/-- The statements of a case. -/
def RegisterNames.work (names : RegisterNames) (insn : Insn) : List Work :=
  (names.pieces insn).zipIdx.map fun entry => .piece entry.2 entry.1

/-- Actions as work. -/
def workOf (actions : List Action) : List Work :=
  actions.map fun action => .statement (.act action)

/-- The body of a function, each statement with the instruction that it was printed for. -/
abbrev TaggedBody := List (Insn × Statement)

/-- An activation of a function. -/
structure Frame (Scratch : Type v) where
  body : TaggedBody
  next : Nat
  insn : Insn
  work : List Work
  locals : Members
  scratch : Scratch

/-- The members in the context, the world, the activations and the calls so far, each with the
world that the called function found. -/
structure RunState (World : Type u) (Scratch : Type v) where
  context : Members
  world : World
  frames : List (Frame Scratch)
  calls : List (String × World)

/-- The body of a function, with instructions. -/
def Emitter.taggedBody (emitter : Emitter) (fn : Function) (code : Int → Word) : TaggedBody :=
  (List.range (words fn)).flatMap fun i =>
    (emitter.printedLabel fn code i ++ emitter.printedInsn fn code i).map fun statement =>
      (emitter.insn fn code i, statement)

/-- An instruction in front of the first one. -/
def noInsn : Insn := ⟨none, 0, []⟩

variable {World : Type u} {Scratch : Type v}

/-- A function is entered with local variables that are zero. -/
def Frame.enter (machine : Machine World Scratch) (body : TaggedBody) : Frame Scratch where
  body := body
  next := 0
  insn := noInsn
  work := []
  locals _ := 0
  scratch := machine.fresh

/-- Where a label is in a body. -/
def labelPosition (body : TaggedBody) (address : Nat) : Option Nat :=
  body.findIdx? fun line => line.2 = .label address

section Steps

variable (machine : Machine World Scratch) (program : String → Option TaggedBody)
  (isLocal : SpecialRegister → Bool) (names : RegisterNames)

/-- Whether a member is one of a local variable. -/
def isOwn (member : Member) : Bool := isLocal member.register

/-- The values that a statement finds in members. -/
def RunState.read (state : RunState World Scratch) (frame : Frame Scratch)
    (places : List Member) : Members :=
  Layers.read (isOwn isLocal) places ⟨state.context, frame.locals⟩

/-- A statement leaves values in members, goes on with scratch variables and the world. -/
def RunState.write (state : RunState World Scratch) (frame : Frame Scratch)
    (rest : List (Frame Scratch)) (places : List Member) (values : Members) (scratch : Scratch)
    (world : World) : RunState World Scratch :=
  let layers := Layers.assign (isOwn isLocal) places values ⟨state.context, frame.locals⟩
  { state with
    context := layers.shared
    world
    frames := { frame with locals := layers.own, scratch } :: rest }

/-- Call a function by its name. -/
def RunState.call (state : RunState World Scratch) (name : String) :
    Option (RunState World Scratch) :=
  let calls := state.calls ++ [(name, state.world)]
  match program name with
  | some body => some { state with frames := .enter machine body :: state.frames, calls }
  | none => (machine.imported name state.world).map fun world => { state with world, calls }

/-- The low and the high half of the count register, less one. -/
def decremented (members : Members) : Members
  | .ctrLow => (((members .ctrHigh ++ members .ctrLow : BitVec 64)) - 1).setWidth 32
  | .ctrHigh => (((members .ctrHigh ++ members .ctrLow : BitVec 64)) - 1).extractLsb' 32 32
  | member => members member

/-- A statement without a condition. -/
def actStep (state : RunState World Scratch) (frame : Frame Scratch)
    (rest : List (Frame Scratch)) : Action → Option (RunState World Scratch)
  | .goto address => (labelPosition frame.body address).map fun next =>
    { state with frames := { frame with next, work := [] } :: rest }
  | .ret => some { state with frames := rest }
  | .call name => { state with frames := frame :: rest }.call machine program name
  | .callIndirect =>
    (machine.lookup state.world (state.read isLocal frame [.ctrLow] .ctrLow)).bind fun name =>
      { state with frames := frame :: rest }.call machine program name
  | .longjmp => none
  | .setjmp => none
  | .error _ => some { state with frames := frame :: rest }
  | .setLr address =>
    some { state with world := machine.setLr address state.world, frames := frame :: rest }
  | .decrementCtr =>
    let values := decremented (state.read isLocal frame [.ctrLow, .ctrHigh])
    some (state.write isLocal frame rest [.ctrLow, .ctrHigh] values frame.scratch state.world)
  | .debugtrap => some { state with frames := frame :: rest }
  | .hook name registers =>
    let members := hookMembers registers
    let (values, scratch, world, _) := machine.hook name registers
      (state.read isLocal frame members) frame.scratch state.world
    some (state.write isLocal frame rest members values scratch world)
  | .compute _ =>
    some { state with frames := { frame with work := names.work frame.insn ++ frame.work } :: rest }

/-- Go on with actions. -/
def Frame.follow (frame : Frame Scratch) (actions : List Action) : Frame Scratch :=
  { frame with work := workOf actions ++ frame.work }

/-- Work of an activation, which is the first of the frame. -/
def workStep (state : RunState World Scratch) (frame : Frame Scratch)
    (rest : List (Frame Scratch)) : Work → Option (RunState World Scratch)
  | .statement .comment => some { state with frames := frame :: rest }
  | .statement (.label _) => some { state with frames := frame :: rest }
  | .statement (.act action) => actStep machine program isLocal names state frame rest action
  | .statement (.ifThen condition actions) =>
    let holds := condition.holds (state.read isLocal frame condition.members)
    some { state with frames := frame.follow (if holds then actions else []) :: rest }
  | .statement (.ifHook name registers onTrue onFalse) =>
    let members := hookMembers registers
    let (values, scratch, world, answer) := machine.hook name registers
      (state.read isLocal frame members) frame.scratch state.world
    some (state.write isLocal (frame.follow (if answer then onTrue else onFalse)) rest members
      values scratch world)
  | .statement (.switch r cases) =>
    cases[(machine.gpr r frame.scratch state.world).toNat]?.map fun actions =>
      { state with frames := frame.follow actions :: rest }
  | .piece index piece =>
    let (values, scratch, world) := machine.compute frame.insn index
      (state.read isLocal frame piece.reads) frame.scratch state.world
    some (state.write isLocal frame rest piece.writes values scratch world)

/-- A step of the last activation: its next line, the end of its body, or what is left of a line.
There is no step when all activations ended. -/
def runStep (state : RunState World Scratch) : Option (RunState World Scratch) :=
  match state.frames with
  | [] => none
  | frame :: rest =>
    match frame.work with
    | work :: left => workStep machine program isLocal names state { frame with work := left } rest
      work
    | [] =>
      match frame.body[frame.next]? with
      | some (insn, statement) => some { state with
          frames := { frame with next := frame.next + 1, insn, work := [.statement statement] } ::
            rest }
      | none => some { state with frames := rest }

end Steps

/-! ## Paths -/

/-- The members that work reads. -/
def Work.reads : Work → List Member
  | .statement (.act .callIndirect) => [.ctrLow]
  | .statement (.act .decrementCtr) => [.ctrLow, .ctrHigh]
  | .statement (.act (.hook _ registers)) => hookMembers registers
  | .statement (.ifHook _ registers _ _) => hookMembers registers
  | .statement (.ifThen condition _) => condition.members
  | .statement _ => []
  | .piece _ part => part.reads

/-- The members that work writes. -/
def Work.writes : Work → List Member
  | .statement (.act .decrementCtr) => [.ctrLow, .ctrHigh]
  | .statement (.act (.hook _ registers)) => hookMembers registers
  | .statement (.ifHook _ registers _ _) => hookMembers registers
  | .statement _ => []
  | .piece _ part => part.writes

def Work.calls : Work → Bool
  | .statement line => line.calls
  | .piece _ _ => false

/-- What work may put in front of the work that is left, where it goes on to that. -/
def Work.continuations (names : RegisterNames) (insn : Insn) : Work → List (List Work)
  | .statement (.act (.goto _)) => []
  | .statement (.act .ret) => []
  | .statement (.act .longjmp) => []
  | .statement (.act .setjmp) => []
  | .statement (.act (.compute _)) => [names.work insn]
  | .statement (.ifThen _ actions) => [workOf actions, []]
  | .statement (.ifHook _ _ onTrue onFalse) => [workOf onTrue, workOf onFalse]
  | .statement (.switch _ cases) => cases.map workOf
  | _ => [[]]

/-- The paths through a body: where they come to, and what was written on them since the entry and
since the last call, by member or by register. -/
inductive Path {γ : Type} (names : RegisterNames) (body : TaggedBody) (grain : Member → γ) :
    Nat → Insn → List Work → Set γ → Prop where
  | entry : Path names body grain 0 noInsn [] ∅
  | line {next insn insn' statement written} (prior : Path names body grain next insn [] written)
      (here : body[next]? = some (insn', statement)) :
      Path names body grain (next + 1) insn' [.statement statement] written
  | pass {next insn work left written more}
      (prior : Path names body grain next insn (work :: left) written)
      (goesOn : more ∈ work.continuations names insn) :
      Path names body grain next insn (more ++ left)
        (if work.calls then ∅
          else written ∪ {register | ∃ member ∈ work.writes, grain member = register})
  | goto {next insn address left written target}
      (prior : Path names body grain next insn (.statement (.act (.goto address)) :: left) written)
      (here : labelPosition body address = some target) :
      Path names body grain target insn [] written

/-- Every read of a local register is preceded by a write, on every path from the entry and from the
last call. -/
def Disciplined {γ : Type} (names : RegisterNames) (isLocal : SpecialRegister → Bool)
    (grain : Member → γ) (body : TaggedBody) : Prop :=
  ∀ {next insn work left written}, Path names body grain next insn (work :: left) written →
    ∀ member ∈ work.reads, isLocal member.register = true → grain member ∈ written

end UfcRecomp.Recompiler
