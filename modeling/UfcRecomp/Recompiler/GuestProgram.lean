import UfcRecomp.Lib.Blocks
import UfcRecomp.Ppc.Control
import UfcRecomp.Recompiler.Conditions
import UfcRecomp.Recompiler.Fallthrough

/-!
# Guest programs

A guest program fetches words from memory and goes where its branches lead. The activations are
those of the functions that were recompiled: a branch that links starts one, a branch to the link
register ends one, and a branch out of a function replaces it. What ordinary instructions and
imports do to the members and to the rest of the state is a parameter.
-/

namespace UfcRecomp.Recompiler

open UfcRecomp.Ppc UfcRecomp.Utils UfcRecomp.Analyze UfcRecomp.Lib

universe u v

/-! ## Steps of the guest -/

/-- A function that runs, and the address that it returns to. -/
structure Activation where
  fn : Function
  back : Nat

/-- The members are the special registers, the world is memory and the other registers. -/
structure GuestState (World : Type u) where
  pc : Nat
  members : Members
  world : World
  active : List Activation

/-- The start of a function that returns to an address. -/
def GuestState.start {World : Type u} (fn : Function) (back : Nat) (members : Members)
    (world : World) : GuestState World :=
  ⟨fn.base, members, world, [⟨fn, back⟩]⟩

/-- Functions are words whose addresses do not wrap around. -/
structure Addressable (fn : Function) : Prop where
  aligned : 4 ∣ fn.base
  addresses : fn.base + 4 * Emitter.words fn < 2 ^ 32
  short : fn.size ≤ 2 ^ 32 - 2 ^ 25

/-- The words of a program, its functions and imports by their names, and what is not control. -/
structure GuestProgram (World : Type u) where
  fetch : Nat → Word
  /-- The routine that starts at an address. -/
  entry : Nat → Option String
  functions : String → Option Function
  imported : String → World → Option World
  exec : Word → Members → World → Members × World
  lr : World → BitVec 32
  setLr : Nat → World → World
  starts : ∀ {address name fn}, entry address = some name → functions name = some fn →
    fn.base = address
  fits : ∀ {name fn}, functions name = some fn → Addressable fn

variable {World : Type u}

/-- The members behind a branch. -/
def membersBehind (insn : Word) (members : Members) : Members :=
  if countsDown insn then decremented members else members

namespace GuestProgram

variable (program : GuestProgram World)

/-- The words of a function from its base on. -/
def code (fn : Function) (i : Int) : Word := program.fetch (fn.base + 4 * i).toNat

/-- Enter the routine at an address: a function goes on there, an import goes back at once. -/
def enter (state : GuestState World) (target back : Nat) (callers : List Activation) :
    Option (GuestState World) :=
  (program.entry target).bind fun name =>
    match program.functions name with
    | some fn => some { state with pc := target, active := ⟨fn, back⟩ :: callers }
    | none => (program.imported name state.world).map fun world =>
      { state with pc := back, world, active := callers }

/-- The world behind a branch at an address. -/
def worldBehind (insn : Word) (address : Nat) (world : World) : World :=
  if ppcBl insn then program.setLr (uint32 (address + 4)) world else world

/-- The target of a branch. -/
def target (state : GuestState World) (source : BranchSource) : Nat :=
  source.target (program.fetch state.pc) state.pc (program.lr state.world) (state.members .ctrLow)

/-- A branch. -/
def branch (state : GuestState World) (source : BranchSource) (running : Activation)
    (callers : List Activation) : Option (GuestState World) :=
  let insn := program.fetch state.pc
  let next := uint32 (state.pc + 4)
  let target := program.target state source
  let behind : GuestState World := { state with
    members := membersBehind insn state.members
    world := program.worldBehind insn state.pc state.world }
  if isTaken insn (branchState state.members) = false then
    some { behind with pc := next }
  else if ppcBl insn then
    program.enter behind target next (running :: callers)
  else if source = .link then
    some { behind with pc := target, active := callers }
  else if Inside running.fn target then
    some { behind with pc := target }
  else
    program.enter behind target running.back callers

/-- An instruction that is no branch. -/
def ordinary (state : GuestState World) : GuestState World :=
  let (members, world) := program.exec (program.fetch state.pc) state.members state.world
  { state with pc := uint32 (state.pc + 4), members, world }

/-- A step of the guest. It ends when the first function returned. -/
def step (state : GuestState World) : Option (GuestState World) :=
  match state.active with
  | [] => none
  | running :: callers =>
    match branchSource (program.fetch state.pc) with
    | none => some (program.ordinary state)
    | some source => program.branch state source running callers

end GuestProgram

/-! ## Statements of a case -/

variable {Scratch : Type v} (machine : Machine World Scratch)

/-- The values of members, and zero for the others. -/
def Members.restrict (members : Members) (places : List Member) : Members := fun member =>
  if member ∈ places then members member else 0

/-- Assign to members. -/
def Members.assign (members : Members) (places : List Member) (values : Members) : Members :=
  fun member => if member ∈ places then values member else members member

/-- The statements of a case, one after the other. -/
def Machine.computeAll (insn : Insn) :
    List (Piece × Nat) → Members → Scratch → World → Members × Scratch × World
  | [], members, scratch, world => (members, scratch, world)
  | (piece, index) :: rest, members, scratch, world =>
    let (values, scratch, world) :=
      machine.compute insn index (members.restrict piece.reads) scratch world
    computeAll insn rest (members.assign piece.writes values) scratch world

/-- The statements of an instruction compute a result, whatever is in the scratch variables. -/
def Machine.Computes (names : RegisterNames) (insn : Insn) (members : Members) (world : World)
    (result : Members × World) : Prop :=
  ∀ scratch, ∃ scratch', machine.computeAll insn (names.pieces insn).zipIdx members scratch world =
    (result.1, scratch', result.2)

/-! ## States where both go on alike -/

/-- The symbol table has a function that starts at an address, and a call of it is printed. -/
structure Emitter.Finds (emitter : Emitter) (address : Nat) (name : String) : Prop where
  found : ∃ symbol, emitter.symbols.find address = some symbol ∧ symbol.address = address ∧
    symbol.type = .symbolFunction ∧ symbol.name = name
  notLongjmp : address ≠ emitter.config.longJmpAddress
  notSetjmp : address ≠ emitter.config.setJmpAddress
  kept : ¬(emitter.config.nonVolatileRegistersAsLocalVariables ∧ isSaveRestore name)

theorem Emitter.Finds.printFunctionCall {emitter : Emitter} {address : Nat} {name : String}
    (finds : emitter.Finds address name) : emitter.printFunctionCall address = [.call name] := by
  obtain ⟨⟨symbol, found, starts, isFunction, rfl⟩, notLongjmp, notSetjmp, kept⟩ := finds
  rw [Emitter.printFunctionCall, if_neg notLongjmp, if_neg notSetjmp, found]
  dsimp only
  rw [if_pos ⟨starts, isFunction⟩, if_neg kept]

section Orderly

variable (emitter : Emitter) (names : RegisterNames) (program : GuestProgram World)

/-- What a branch that is taken needs: that a call is printed for a target elsewhere, that it
returns to where the activation came from, or that the pending table or the function table leads to
where the count register does. -/
def LeadsAlike (state : GuestState World) (running : Activation) (i : Nat) (id : PpcInst) :
    BranchSource → Prop
  | .displacement =>
    let target := program.target state .displacement
    (id.links = false ∧ Inside running.fn target) ∨
      ∃ name, emitter.Finds target name ∧ program.entry target = some name
  | .link => program.target state .link = running.back
  | .count =>
    let target := program.target state .count
    match if id = .bctr then emitter.pending running.fn (program.code running.fn) i else none with
    | some table => Inside running.fn target ∧ ∀ scratch,
      table.labels[(machine.gpr table.r scratch state.world).toNat]? = some target
    | none => (id.links = true ∨ ¬Inside running.fn target) ∧ ∃ name,
      machine.lookup (program.worldBehind (program.fetch state.pc) state.pc state.world)
        (state.members .ctrLow) = some name ∧ program.entry target = some name

/-- A state where the emitted function goes on as the guest does: it stands at a word of its
function that was recompiled and has no hook, the statements of an ordinary instruction compute
what it does, and a branch finds its target. -/
structure Orderly (state : GuestState World) (running : Activation) (i : Nat) (id : PpcInst) :
    Prop where
  here : state.pc = running.fn.base + 4 * i
  inside : i < Emitter.words running.fn
  decoded : (emitter.insn running.fn (program.code running.fn) i).opcode = some id
  accepted : emitter.accepts id = true
  translated : id ≠ .blrl
  noHook : emitter.config.midAsmHooks.find (uint32 state.pc) = none
  /-- A branch that tests the counter and a bit names an `eq`. -/
  tested : id.testsBoth = true → conditionBit (program.fetch state.pc) % 4 = 2
  computes : id.source = none → machine.Computes names
    (emitter.insn running.fn (program.code running.fn) i) state.members state.world
    (program.exec (program.fetch state.pc) state.members state.world)
  leads : ∀ source, id.source = some source →
    isTaken (program.fetch state.pc) (branchState state.members) = true →
    LeadsAlike machine emitter program state running i id source

/-- Every state that the guest comes to is orderly. -/
def RunsOrderly (first : GuestState World) : Prop :=
  ∀ {state running callers}, Loop.Visits program.step first state →
    state.active = running :: callers →
    ∃ i id, Orderly machine emitter names program state running i id

end Orderly

end UfcRecomp.Recompiler
