import UfcRecomp.Recompiler.ControlCases

/-!
# Emitted programs run as the guest does

When every state that the guest comes to is orderly, the emitted functions come to a state for each
of them, with the same members and the same world. A function of the guest returns if and only if
the emitted one does, and both leave the same behind.
-/

namespace UfcRecomp.Recompiler

open UfcRecomp.Ppc UfcRecomp.Utils UfcRecomp.Analyze UfcRecomp.Lib

universe u v

variable {World : Type u} {Scratch : Type v}

/-! ## Steps -/

/-- What is outside of the emitted functions is what the guest finds, and they keep the link
register. -/
structure Compiled (emitter : Emitter) (machine : Machine World Scratch)
    (program : GuestProgram World) : Prop where
  imports : machine.imported = program.imported
  setLr : machine.setLr = program.setLr
  keepsLr : emitter.config.skipLr = false

/-- The ordinary instructions have a case of their own. -/
theorem Emitter.recompileCase_ordinary {emitter : Emitter} {fn : Function} {base : Nat}
    {insn : Insn} {id : PpcInst} (accepted : emitter.accepts id = true)
    (ordinary : id.source = none)
    (table : Option RecompilerSwitchTable) :
    emitter.recompileCase fn base insn id table = some ([.act (.compute id)], table) := by
  cases id
  case other number =>
    rw [Emitter.recompileCase]
    exact if_pos accepted
  case unlistedBranch => cases accepted
  case cmplwi | li | lis | addi | rotlwi | clrlwi | rlwinm => rfl
  case lwzx | lbzx | lhzx | add | mtctr => rfl
  all_goals cases ordinary

section Step

variable {emitter : Emitter} {program : GuestProgram World} {machine : Machine World Scratch}
  {names : RegisterNames}

/-- In an orderly state the emitted functions do what the guest does. -/
theorem Mirrors.step (compiled : Compiled emitter machine program) {state : GuestState World}
    {state' : RunState World Scratch} (mirrors : Mirrors emitter program state state')
    {running : Activation} {callers : List Activation}
    (active : state.active = running :: callers) {i : Nat} {id : PpcInst}
    (orderly : Orderly machine emitter names program state running i id) :
    LeadsTo emitter program machine names state' (program.step state) := by
  obtain ⟨imports, setLr, keepsLr⟩ := compiled
  obtain ⟨here, inside, decoded, accepted, translated, noHook, tested, computes, leads⟩ := orderly
  obtain ⟨pc, members, world, activations⟩ := state
  obtain ⟨context, world', frames, calls⟩ := state'
  obtain ⟨rfl, rfl, stack⟩ := mirrors
  dsimp only at active stack here tested computes leads noHook
  subst active here
  obtain _ | @⟨_, _, _, frame, returning, below, stands, returns, stacked⟩ := stack
  obtain ⟨body, next, insn, work, locals, scratch⟩ := frame
  obtain ⟨addressable, rfl, rfl, j, -, sameWord, rfl⟩ := stands
  obtain rfl : i = j := by omega
  -- The statements of the word are come to.
  have goes : ∀ {statements : List Statement} {table : Option RecompilerSwitchTable},
      emitter.recompileCase running.fn (uint32 (running.fn.base + 4 * i))
          (emitter.insn running.fn (program.code running.fn) i) id
          (emitter.pending running.fn (program.code running.fn) i) = some (statements, table) →
      (∀ {first before}, Emitter.LinesAt (bodyOf emitter program running.fn)
          (emitter.insn running.fn (program.code running.fn) i) first
          (lineIn emitter program running.fn (i + 1)) statements →
        LeadsTo emitter program machine names
          ⟨context, world', ⟨bodyOf emitter program running.fn, first, before, [], locals,
            scratch⟩ :: (returning ++ below), calls⟩
          (program.step ⟨running.fn.base + 4 * i, context, world', running :: callers⟩)) →
      LeadsTo emitter program machine names
        ⟨context, world', ⟨bodyOf emitter program running.fn,
          lineIn emitter program running.fn i, insn, [], locals, scratch⟩ :: (returning ++ below),
          calls⟩
        (program.step ⟨running.fn.base + 4 * i, context, world', running :: callers⟩) := by
    intro statements table printed statementsLead
    obtain ⟨first, before, visits, lines⟩ :=
      @visits_case World Scratch emitter program machine names context locals world' scratch calls
        running i id insn _ _ _ inside decoded noHook printed
    exact .of_visits visits (statementsLead lines)
  cases isSource : id.source with
  | none =>
      have listed : id ≠ .unlistedBranch := by
        rintro rfl
        cases accepted
      have word := decoded
      rw [insn_word] at word
      have notBranch := (source_of_disassemble word listed).trans isSource
      exact goes (Emitter.recompileCase_ordinary accepted isSource _) fun lines =>
        leadsTo_ordinary addressable inside returns stacked notBranch (computes isSource) lines
  | some source =>
      cases conditional : id.branchTest with
      | some test =>
          have word := decoded
          rw [insn_word] at word
          obtain ⟨condition, printed, tests⟩ := conditional_case emitter running.fn
            (uint32 (running.fn.base + 4 * i)) word conditional
            (emitter.pending running.fn (program.code running.fn) i) tested
          rw [← insn_word] at printed
          obtain ⟨counts, holds⟩ := tests context
          exact goes printed fun lines =>
            leadsTo_conditional addressable inside returns stacked imports decoded conditional
              counts holds leads lines
      | none =>
          obtain ⟨-, -, -, taken⟩ := unconditional_word decoded (by rw [isSource]; rfl) conditional
            context
          have isSome : (emitter.recompileCase running.fn (uint32 (running.fn.base + 4 * i))
              (emitter.insn running.fn (program.code running.fn) i) id
              (emitter.pending running.fn (program.code running.fn) i)).isSome := by
            rw [Emitter.isSome_recompileCase]
            exact accepted
          obtain ⟨⟨statements, table⟩, printed⟩ := Option.isSome_iff_exists.mp isSome
          rcases PpcInst.eq_of_source (by rw [isSource]; rfl) conditional with
            rfl | rfl | rfl | rfl | rfl | rfl
          · exact goes printed fun lines => leadsTo_b addressable inside returns stacked imports
              decoded (leads _ rfl taken) printed lines
          · exact goes printed fun lines => leadsTo_bl addressable inside returns stacked imports
              setLr keepsLr decoded (leads _ rfl taken) printed lines
          · exact goes rfl fun lines =>
              leadsTo_blr returns stacked decoded (leads _ rfl taken) lines
          · exact absurd rfl translated
          · exact goes printed fun lines => leadsTo_bctr addressable inside returns stacked imports
              decoded (leads _ rfl taken) printed lines
          · exact goes printed fun lines => leadsTo_bctrl addressable inside returns stacked imports
              setLr keepsLr decoded (leads _ rfl taken) printed lines

end Step

/-! ## Runs -/

section Runs

variable {emitter : Emitter} {program : GuestProgram World} {machine : Machine World Scratch}
  {names : RegisterNames}

/-- What both have in common at the end: the guest returned if and only if the emitted functions
did, and then they left the same. -/
structure EndsAlike (state : GuestState World) (state' : RunState World Scratch) : Prop where
  returned : state.active = [] ↔ state'.frames = []
  same : state.active = [] → state'.context = state.members ∧ state'.world = state.world

theorem RunsOrderly.next {state next : GuestState World}
    (orderly : RunsOrderly machine emitter names program state)
    (goes : program.step state = some next) :
    RunsOrderly machine emitter names program next :=
  fun visits active => orderly (.head goes visits) active

/-- The emitted functions follow the guest. -/
theorem follows (compiled : Compiled emitter machine program) :
    Loop.Follows program.step (emittedStep emitter program machine names)
      (fun state state' => Mirrors emitter program state state' ∧
        RunsOrderly machine emitter names program state) EndsAlike where
  pass := by
    rintro state next state' ⟨mirrors, orderly⟩ goes
    cases active : state.active with
    | nil =>
        rw [GuestProgram.step, active] at goes
        cases goes
    | cons running callers =>
        obtain ⟨i, id, here⟩ := orderly .refl active
        have leads := mirrors.step compiled active here
        rw [goes] at leads
        obtain ⟨middle, next', pass, more, mirrorsNext⟩ := leads
        exact ⟨middle, next', pass, more, mirrorsNext, orderly.next goes⟩
  last := by
    rintro state state' ⟨mirrors, orderly⟩ ends
    cases active : state.active with
    | nil =>
        obtain ⟨context, world, stack⟩ := mirrors
        rw [active] at stack
        generalize known : state'.frames = frames at stack
        cases stack
        refine ⟨state', .refl, ?_, ⟨by simp [active, known], fun _ => ⟨context, world⟩⟩⟩
        rw [emittedStep, sharedStep, runStep, known]
    | cons running callers =>
        obtain ⟨i, id, here⟩ := orderly .refl active
        have leads := mirrors.step compiled active here
        rw [ends] at leads
        obtain ⟨last', more, stuck, running'⟩ := leads
        refine ⟨last', more, stuck, ⟨by simp [active, running'], fun returned => ?_⟩⟩
        rw [active] at returned
        cases returned

/-- The starts of a function. -/
theorem mirrors_start {name : String} {fn : Function}
    (isFunction : program.functions name = some fn) (back : Nat) (members : Members)
    (world : World) :
    Mirrors emitter program (GuestState.start fn back members world)
      (emitter.withoutLocals.start machine fn (program.code fn) members world) := by
  have stands : StandsAt emitter program
      (Frame.enter machine (emitter.taggedBody fn (program.code fn))) fn fn.base :=
    ⟨program.fits isFunction, rfl, rfl, 0, Nat.zero_le _, rfl, rfl⟩
  exact ⟨rfl, rfl, @Stacked.cons _ _ _ _ _ ⟨fn, back⟩ [] _ [] [] stands (by simp) .nil⟩

theorem localStep_withoutLocals : emitter.withoutLocals.localStep machine names program.emitted =
    emittedStep emitter program machine names := by
  rw [Emitter.localStep, Emitter.isLocal_withoutLocals]
  rfl

/-- A function of the guest returns if and only if the emitted one does, whatever holds then. -/
theorem returned_iff (compiled : Compiled emitter machine program) {name : String} {fn : Function}
    (isFunction : program.functions name = some fn) (back : Nat) (members : Members) (world : World)
    (orderly : RunsOrderly machine emitter names program (GuestState.start fn back members world))
    (result : Members → World → Prop) :
    (∃ fuel last, Loop.run program.step fuel (GuestState.start fn back members world) = some last ∧
        last.active = [] ∧ result last.members last.world) ↔
      ∃ fuel last', Loop.run (emittedStep emitter program machine names) fuel
          (emitter.withoutLocals.start machine fn (program.code fn) members world) = some last' ∧
        last'.frames = [] ∧ result last'.context last'.world := by
  have start := @mirrors_start World Scratch emitter program machine name fn isFunction back members
    world
  constructor
  · rintro ⟨fuel, last, run, returned, holds⟩
    obtain ⟨more, last', run', ends⟩ := (follows compiled).exists_run ⟨start, orderly⟩ run
    obtain ⟨context, world⟩ := ends.same returned
    exact ⟨more, last', run', ends.returned.mp returned, by rwa [context, world]⟩
  · rintro ⟨fuel, last', run', returned, holds⟩
    obtain ⟨less, last, run, ends⟩ := (follows compiled).exists_run_of_run ⟨start, orderly⟩ run'
    have ended := ends.returned.mpr returned
    obtain ⟨context, world⟩ := ends.same ended
    exact ⟨less, last, run, ended, by rwa [← context, ← world]⟩

end Runs

/-! ## Single steps -/

theorem Members.assign_assign (members other values : Members) (places : List Member) :
    members.assign places (other.assign places values) = members.assign places values := by
  funext member
  unfold Members.assign
  split_ifs <;> rfl

/-- An instruction with one statement. -/
theorem computes_single {machine : Machine World Scratch} {names : RegisterNames} {insn : Insn}
    {piece : Piece} {members values : Members} {world world' : World}
    (pieces : names.pieces insn = [piece])
    (computed : ∀ scratch, ∃ scratch', machine.compute insn 0 (members.restrict piece.reads) scratch
      world = (values, scratch', world')) :
    machine.Computes names insn members world (members.assign piece.writes values, world') := by
  intro scratch
  obtain ⟨scratch', computed⟩ := computed scratch
  refine ⟨scratch', ?_⟩
  rw [pieces]
  simp only [List.zipIdx_cons, List.zipIdx_nil, Machine.computeAll, computed]

/-- A state in front of an ordinary instruction is orderly when its statements compute alike. -/
theorem Orderly.of_ordinary {machine : Machine World Scratch} {emitter : Emitter}
    {names : RegisterNames} {program : GuestProgram World} {state : GuestState World}
    {running : Activation} {i : Nat} {id : PpcInst} (isOrdinary : id.source = none)
    (single : id.testsBoth = false) (here : state.pc = running.fn.base + 4 * i)
    (inside : i < Emitter.words running.fn)
    (decoded : (emitter.insn running.fn (program.code running.fn) i).opcode = some id)
    (accepted : emitter.accepts id = true)
    (noHook : emitter.config.midAsmHooks.find (uint32 state.pc) = none)
    (computes : machine.Computes names (emitter.insn running.fn (program.code running.fn) i)
      state.members state.world (program.exec (program.fetch state.pc) state.members state.world)) :
    Orderly machine emitter names program state running i id where
  here := here
  inside := inside
  decoded := decoded
  accepted := accepted
  translated := by
    rintro rfl
    cases isOrdinary
  noHook := noHook
  tested both := absurd (single.symm.trans both) Bool.false_ne_true
  computes _ := computes
  leads source same _ := absurd (isOrdinary.symm.trans same) (Option.some_ne_none source).symm

/-- A state in front of a branch with one test is orderly when it leads alike if it is
taken. -/
theorem Orderly.of_branch {machine : Machine World Scratch} {emitter : Emitter}
    {names : RegisterNames} {program : GuestProgram World} {state : GuestState World}
    {running : Activation} {i : Nat} {id : PpcInst} {source : BranchSource}
    (isSource : id.source = some source) (single : id.testsBoth = false)
    (here : state.pc = running.fn.base + 4 * i) (inside : i < Emitter.words running.fn)
    (decoded : (emitter.insn running.fn (program.code running.fn) i).opcode = some id)
    (accepted : emitter.accepts id = true) (translated : id ≠ .blrl)
    (noHook : emitter.config.midAsmHooks.find (uint32 state.pc) = none)
    (leads : isTaken (program.fetch state.pc) (branchState state.members) = true →
      LeadsAlike machine emitter program state running i id source) :
    Orderly machine emitter names program state running i id where
  here := here
  inside := inside
  decoded := decoded
  accepted := accepted
  translated := translated
  noHook := noHook
  tested both := absurd (single.symm.trans both) Bool.false_ne_true
  computes ordinary := absurd (ordinary.symm.trans isSource) (Option.some_ne_none source).symm
  leads _ same taken := Option.some.inj (isSource.symm.trans same) ▸ leads taken

/-! ## A program with a call and a table -/

/-- The registers of the program. -/
structure CallerWorld where
  lr : BitVec 32
  r10 : BitVec 64
  r11 : BitVec 64
  r12 : BitVec 64

/-- It calls `sub_1028` and goes where a table leads: back, or to `sub_1028` again. -/
def callerFunction : Function := { base := 0x1000, size := 0x28 }

/-- It counts down and returns. -/
def countdownFunction : Function := { base := 0x1028, size := 8 }

def callerTable : RecompilerSwitchTable := ⟨10, [0x1020, 0x1024]⟩

/-- The words from `0x1000` on. -/
def callerWords : List Word :=
  [0x7D8802A6, -- mflr r12
   0x48000025, -- bl 0x1028
   0x7D8803A6, -- mtlr r12
   0x2B0A0001, -- cmplwi cr6, r10, 1
   0x41990010, -- bgt cr6, 0x1020
   0x7D6B502E, -- lwzx r11, r11, r10
   0x7D6903A6, -- mtctr r11
   0x4E800420, -- bctr
   0x4E800020, -- blr
   0x48000004, -- b 0x1028
   0x42000000, -- bdnz 0x1028
   0x4E800020] -- blr

/-- The comparison of `r10` with one. -/
def comparedToOne (r10 : BitVec 64) (so : BitVec 8) : Members
  | .cr _ .lt => if r10.toNat % 2 ^ 32 < 1 then 1 else 0
  | .cr _ .gt => if 1 < r10.toNat % 2 ^ 32 then 1 else 0
  | .cr _ .eq => if r10.toNat % 2 ^ 32 = 1 then 1 else 0
  | .cr _ .so => so
  | _ => 0

/-- The halves of the count register. -/
def counter (value : BitVec 64) : Members
  | .ctrLow => value.setWidth 32
  | .ctrHigh => value.extractLsb' 32 32
  | _ => 0

/-- What the ordinary instructions of the program do; `lwzx` reads the table. -/
def callerExec (insn : Word) (members : Members) (world : CallerWorld) :
    Members × CallerWorld :=
  if insn = 0x7D8802A6 then (members, { world with r12 := world.lr.setWidth 64 })
  else if insn = 0x7D8803A6 then (members, { world with lr := world.r12.setWidth 32 })
  else if insn = 0x2B0A0001 then
    (members.assign (SpecialRegister.cr 6).members (comparedToOne world.r10 (members .so)), world)
  else if insn = 0x7D6B502E then
    (members, { world with r11 := BitVec.ofNat 64 (callerTable.labels.getD world.r10.toNat 0) })
  else if insn = 0x7D6903A6 then
    (members.assign SpecialRegister.ctr.members (counter world.r11), world)
  else (members, world)

def callerEmitter : Emitter where
  dis.branch _ := false
  dis.other insn := if insn = 0x7D8802A6 then some (0, [12]) else
    if insn = 0x7D8803A6 then some (1, [12]) else none
  config := {
    crRegistersAsLocalVariables := true
    switchTables := ⟨[(0x101C, callerTable)], List.nodup_singleton _⟩ }
  symbols := SymbolTable.empty.emplace ⟨"sub_1028", 0x1028, 8, .symbolFunction⟩
  hasCase _ := true

def callerMachine : Machine CallerWorld Unit where
  fresh := ()
  gpr r _ world :=
    if r = 10 then world.r10 else if r = 11 then world.r11 else if r = 12 then world.r12 else 0
  setLr value world := { world with lr := BitVec.ofNat 32 value }
  lookup _ _ := none
  imported _ _ := none
  hook _ _ members _ world := (members, (), world, false)
  compute insn _ members _ world := ((callerExec insn.instruction members world).1, (),
    (callerExec insn.instruction members world).2)

def callerNames : RegisterNames := ⟨fun _ => none, fun _ => false⟩

def callerProgram : GuestProgram CallerWorld where
  fetch address := callerWords.getD ((address - 0x1000) / 4) 0
  entry address := if address = 0x1028 then some "sub_1028" else none
  functions name := if name = "sub_1000" then some callerFunction
    else if name = "sub_1028" then some countdownFunction else none
  imported _ _ := none
  exec := callerExec
  lr world := world.lr
  setLr value world := { world with lr := BitVec.ofNat 32 value }
  starts := by
    intro address name fn entry function
    split_ifs at entry with here
    obtain rfl := Option.some.inj entry
    obtain rfl : countdownFunction = fn := by simpa using function
    exact here.symm
  fits := by
    intro name fn function
    split_ifs at function <;> obtain rfl := Option.some.inj function
    · exact ⟨by decide, by decide, by decide⟩
    · exact ⟨by decide, by decide, by decide⟩

/-! What its ordinary instructions do. -/

section

variable (members : Members) (world : CallerWorld)

theorem callerExec_mflr : callerExec 0x7D8802A6 members world =
    (members, { world with r12 := world.lr.setWidth 64 }) := rfl

theorem callerExec_mtlr : callerExec 0x7D8803A6 members world =
    (members, { world with lr := world.r12.setWidth 32 }) := by
  simp [callerExec]

theorem callerExec_cmplwi : callerExec 0x2B0A0001 members world =
    (members.assign (SpecialRegister.cr 6).members (comparedToOne world.r10 (members .so)),
      world) := by
  simp [callerExec]

theorem callerExec_lwzx : callerExec 0x7D6B502E members world =
    (members, { world with
      r11 := BitVec.ofNat 64 (callerTable.labels.getD world.r10.toNat 0) }) := by
  simp [callerExec]

theorem callerExec_mtctr : callerExec 0x7D6903A6 members world =
    (members.assign SpecialRegister.ctr.members (counter world.r11), world) := by
  simp [callerExec]

end

/-- Where `sub_1028` was come to from, with the second label of the table chosen. -/
inductive Counting : CallerWorld → Nat → List Activation → Prop where
  | called {r11} : Counting ⟨0x1008, 1, r11, 0x2000⟩ 0x1008 [⟨callerFunction, 0x2000⟩]
  | jumped {r11 r12} : Counting ⟨0x2000, 1, r11, r12⟩ 0x2000 []

/-- The states of the program. -/
inductive InCaller : GuestState CallerWorld → Prop where
  | save {members r11 r12} :
      InCaller ⟨0x1000, members, ⟨0x2000, 1, r11, r12⟩, [⟨callerFunction, 0x2000⟩]⟩
  | call {members r11} :
      InCaller ⟨0x1004, members, ⟨0x2000, 1, r11, 0x2000⟩, [⟨callerFunction, 0x2000⟩]⟩
  | count {members world back callers} (counting : Counting world back callers) :
      InCaller ⟨0x1028, members, world, ⟨countdownFunction, back⟩ :: callers⟩
  | ret {members world back callers} (counting : Counting world back callers) :
      InCaller ⟨0x102C, members, world, ⟨countdownFunction, back⟩ :: callers⟩
  | restore {members r11} :
      InCaller ⟨0x1008, members, ⟨0x1008, 1, r11, 0x2000⟩, [⟨callerFunction, 0x2000⟩]⟩
  | compare {members r11 r12} :
      InCaller ⟨0x100C, members, ⟨0x2000, 1, r11, r12⟩, [⟨callerFunction, 0x2000⟩]⟩
  | guard {members r11 r12} (within : members (.cr 6 .gt) = 0) :
      InCaller ⟨0x1010, members, ⟨0x2000, 1, r11, r12⟩, [⟨callerFunction, 0x2000⟩]⟩
  | load {members r11 r12} :
      InCaller ⟨0x1014, members, ⟨0x2000, 1, r11, r12⟩, [⟨callerFunction, 0x2000⟩]⟩
  | move {members r12} :
      InCaller ⟨0x1018, members, ⟨0x2000, 1, 0x1024, r12⟩, [⟨callerFunction, 0x2000⟩]⟩
  | dispatch {members r11 r12} (chosen : members .ctrLow = 0x1024) :
      InCaller ⟨0x101C, members, ⟨0x2000, 1, r11, r12⟩, [⟨callerFunction, 0x2000⟩]⟩
  | jump {members r11 r12} :
      InCaller ⟨0x1024, members, ⟨0x2000, 1, r11, r12⟩, [⟨callerFunction, 0x2000⟩]⟩
  | returned {members world} : InCaller ⟨0x2000, members, world, []⟩

/-! Where it goes. -/

/-- Where a branch of the program with a displacement leads. -/
theorem caller_displacement (address : Nat) (members : Members) (world : CallerWorld)
    (active : List Activation) :
    callerProgram.target ⟨address, members, world, active⟩ .displacement =
      (((if ppcBa (callerProgram.fetch address) then 0 else (address : Int)) +
        branchDisplacement (callerProgram.fetch address)) % 2 ^ 32).toNat := rfl

theorem caller_link (address : Nat) (members : Members) (world : CallerWorld)
    (active : List Activation) :
    callerProgram.target ⟨address, members, world, active⟩ .link =
      instructionAddress world.lr := rfl

/-- With the second label in the count register. -/
theorem caller_count {members : Members} (chosen : members .ctrLow = 0x1024)
    (world : CallerWorld) (active : List Activation) :
    callerProgram.target ⟨0x101C, members, world, active⟩ .count = 0x1024 := by
  have register : callerProgram.target ⟨0x101C, members, world, active⟩ .count =
      instructionAddress (members .ctrLow) := rfl
  rw [register, chosen]
  decide

/-- The guard lets the index pass. -/
theorem guard_falls {members : Members} (within : members (.cr 6 .gt) = 0) :
    isTaken (callerProgram.fetch 0x1010) (branchState members) = false := by
  have bit : isSet members (crb 25) = false := by
    rw [isSet, show crb 25 = .cr 6 .gt from rfl, within]
    rfl
  have reads : isTaken (callerProgram.fetch 0x1010) (branchState members) =
      (isSet members (crb 25) == true) := rfl
  rw [reads, bit]
  rfl

/-- An ordinary instruction of the program. -/
theorem caller_ordinary (address : Nat) {word : Word} {members members' : Members}
    {world world' : CallerWorld} {running : Activation} {callers : List Activation}
    (ran : callerExec word members world = (members', world'))
    (fetched : callerProgram.fetch address = word) (isOrdinary : branchSource word = none) :
    callerProgram.step ⟨address, members, world, running :: callers⟩ =
      some ⟨uint32 (address + 4), members', world', running :: callers⟩ := by
  subst fetched
  have exec : callerProgram.exec (callerProgram.fetch address) members world = _ := ran
  rw [step_ordinary isOrdinary, exec]

theorem Counting.back {world : CallerWorld} {back : Nat} {callers : List Activation}
    (counting : Counting world back callers) : instructionAddress world.lr = back := by
  cases counting <;> simp [instructionAddress]

theorem caller_call (members : Members) (r11 : BitVec 64) :
    callerProgram.step
        ⟨0x1004, members, ⟨0x2000, 1, r11, 0x2000⟩, [⟨callerFunction, 0x2000⟩]⟩ =
      some ⟨0x1028, members, ⟨0x1008, 1, r11, 0x2000⟩,
        [⟨countdownFunction, 0x1008⟩, ⟨callerFunction, 0x2000⟩]⟩ := by
  have branches : branchSource (callerProgram.fetch 0x1004) = some .displacement := by decide
  have target := caller_displacement 0x1004 members ⟨0x2000, 1, r11, 0x2000⟩
    [⟨callerFunction, 0x2000⟩]
  rw [step_branch branches, branch_link (by rfl) (by decide), target]
  rfl

theorem InCaller.step {state next : GuestState CallerWorld} (inCaller : InCaller state)
    (goes : callerProgram.step state = some next) : InCaller next := by
  cases inCaller with
  | save =>
      rw [caller_ordinary 0x1000 (callerExec_mflr _ _) rfl (by decide)] at goes
      obtain rfl := Option.some.inj goes
      exact .call
  | call =>
      rw [caller_call] at goes
      obtain rfl := Option.some.inj goes
      exact .count .called
  | @count members world back callers counting =>
      have branches : branchSource (callerProgram.fetch 0x1028) = some .displacement := by decide
      have target := caller_displacement 0x1028 members world
        (⟨countdownFunction, back⟩ :: callers)
      rw [step_branch branches] at goes
      cases taken : isTaken (callerProgram.fetch 0x1028) (branchState members) with
      | false =>
          rw [branch_not_taken taken] at goes
          obtain rfl := Option.some.inj goes
          exact .ret counting
      | true =>
          have inside : Inside countdownFunction 0x1028 := by decide
          rw [branch_inside taken (by decide) (by decide) (by rw [target]; exact inside),
            target] at goes
          obtain rfl := Option.some.inj goes
          exact .count counting
  | @ret members world back callers counting =>
      have branches : branchSource (callerProgram.fetch 0x102C) = some .link := by decide
      rw [step_branch branches, branch_return (by rfl) (by decide)] at goes
      obtain rfl := Option.some.inj goes
      rw [caller_link, counting.back]
      cases counting with
      | called => exact .restore
      | jumped => exact .returned
  | restore =>
      rw [caller_ordinary 0x1008 (callerExec_mtlr _ _) rfl (by decide)] at goes
      obtain rfl := Option.some.inj goes
      exact .compare
  | compare =>
      rw [caller_ordinary 0x100C (callerExec_cmplwi _ _) rfl (by decide)] at goes
      obtain rfl := Option.some.inj goes
      exact .guard rfl
  | guard within =>
      have branches : branchSource (callerProgram.fetch 0x1010) = some .displacement := by decide
      rw [step_branch branches, branch_not_taken (guard_falls within)] at goes
      obtain rfl := Option.some.inj goes
      exact .load
  | load =>
      rw [caller_ordinary 0x1014 (callerExec_lwzx _ _) rfl (by decide)] at goes
      obtain rfl := Option.some.inj goes
      exact .move
  | move =>
      rw [caller_ordinary 0x1018 (callerExec_mtctr _ _) rfl (by decide)] at goes
      obtain rfl := Option.some.inj goes
      exact .dispatch rfl
  | @dispatch members r11 r12 chosen =>
      have branches : branchSource (callerProgram.fetch 0x101C) = some .count := by decide
      have target := caller_count chosen ⟨0x2000, 1, r11, r12⟩ [⟨callerFunction, 0x2000⟩]
      rw [step_branch branches,
        branch_inside (by rfl) (by decide) (by decide) (by rw [target]; decide), target] at goes
      obtain rfl := Option.some.inj goes
      exact .jump
  | @jump members r11 r12 =>
      have branches : branchSource (callerProgram.fetch 0x1024) = some .displacement := by decide
      have target := caller_displacement 0x1024 members ⟨0x2000, 1, r11, r12⟩
        [⟨callerFunction, 0x2000⟩]
      rw [step_branch branches, branch_outside (by rfl) (by decide) (by decide)
        (by rw [target]; decide), target] at goes
      obtain rfl := Option.some.inj goes
      exact .count .jumped
  | returned => cases goes

/-! What the emitted statements do. -/

theorem callerProgram_exec : callerProgram.exec = callerExec := rfl

theorem callerMachine_compute (insn : Insn) (index : Nat) (members : Members) (scratch : Unit)
    (world : CallerWorld) : callerMachine.compute insn index members scratch world =
      ((callerExec insn.instruction members world).1, (),
        (callerExec insn.instruction members world).2) := rfl

/-- An instruction with one statement that writes members. -/
theorem caller_computes (fn : Function) (i : Nat) {word : Word} {piece : Piece}
    {given : Members → Members} {world world' : CallerWorld}
    (ran : ∀ members, callerExec word members world =
      (members.assign piece.writes (given members), world'))
    (fetched : callerProgram.fetch (fn.base + 4 * i) = word)
    (pieces : callerNames.pieces (callerEmitter.insn fn (callerProgram.code fn) i) = [piece])
    {members : Members} (reads : given (members.restrict piece.reads) = given members) :
    callerMachine.Computes callerNames (callerEmitter.insn fn (callerProgram.code fn) i)
      members world
      (callerProgram.exec (callerProgram.fetch (fn.base + 4 * i)) members world) := by
  have isWord : (callerEmitter.insn fn (callerProgram.code fn) i).instruction = word := by
    rw [insn_word, instruction_disassemble, fetched]
  rw [fetched, callerProgram_exec, ran, ← Members.assign_assign members (members.restrict piece.reads)]
  refine computes_single pieces fun scratch => ⟨(), ?_⟩
  rw [callerMachine_compute, isWord, ran, reads]

/-- An instruction that leaves the members alone. -/
theorem caller_computes_plain (fn : Function) (i : Nat) {word : Word}
    {world world' : CallerWorld}
    (ran : ∀ members, callerExec word members world = (members, world'))
    (fetched : callerProgram.fetch (fn.base + 4 * i) = word)
    (pieces : callerNames.pieces (callerEmitter.insn fn (callerProgram.code fn) i) = [.plain])
    {members : Members} :
    callerMachine.Computes callerNames (callerEmitter.insn fn (callerProgram.code fn) i)
      members world
      (callerProgram.exec (callerProgram.fetch (fn.base + 4 * i)) members world) := by
  have unchanged : ∀ members : Members, members.assign [] (fun _ => 0) = members := by
    intro members
    funext member
    exact if_neg List.not_mem_nil
  apply @caller_computes fn i word .plain (fun _ _ => 0) world world' _ fetched pieces
  · rfl
  · intro members
    rw [ran, Piece.plain, unchanged]

theorem caller_finds : callerEmitter.Finds 0x1028 "sub_1028" where
  found := ⟨_, rfl, rfl, rfl, rfl⟩
  notLongjmp := by decide
  notSetjmp := by decide
  kept := by decide

/-- Every state of the program is orderly. -/
theorem InCaller.orderly {state : GuestState CallerWorld} (inCaller : InCaller state)
    {running : Activation} {callers : List Activation}
    (active : state.active = running :: callers) :
    ∃ i id, Orderly callerMachine callerEmitter callerNames callerProgram state running i id := by
  cases inCaller <;> cases active
  case save =>
    exact ⟨0, .other 0, .of_ordinary rfl rfl rfl (by decide) (by decide) rfl rfl
      (caller_computes_plain callerFunction 0 (fun members => callerExec_mflr members _)
        (by decide) rfl)⟩
  case call members r11 =>
    have target := caller_displacement 0x1004 members ⟨0x2000, 1, r11, 0x2000⟩
      [⟨callerFunction, 0x2000⟩]
    refine ⟨1, .bl, .of_branch (show PpcInst.source _ = some .displacement from rfl) rfl rfl
      (by decide) (by decide) rfl (by decide) rfl ?_⟩
    rw [LeadsAlike, target]
    exact fun _ => .inr ⟨"sub_1028", caller_finds, rfl⟩
  case count members world back counting =>
    have target := caller_displacement 0x1028 members world (⟨countdownFunction, back⟩ :: callers)
    have inside : Inside countdownFunction 0x1028 := by decide
    have within : 0 < Emitter.words countdownFunction := by decide
    have decoded : (callerEmitter.insn countdownFunction
        (callerProgram.code countdownFunction) 0).opcode = some .bdnz := by
      decide
    refine ⟨0, .bdnz, .of_branch (show PpcInst.source _ = some .displacement from rfl) rfl rfl
      within decoded rfl (by decide) rfl ?_⟩
    exact fun _ => .inl ⟨rfl, by rw [target]; exact inside⟩
  case ret members world back counting =>
    have within : 1 < Emitter.words countdownFunction := by decide
    have decoded : (callerEmitter.insn countdownFunction
        (callerProgram.code countdownFunction) 1).opcode = some .blr := by
      decide
    exact ⟨1, .blr, .of_branch (show PpcInst.source _ = some .link from rfl) rfl rfl
      within decoded rfl (by decide) rfl fun _ => counting.back⟩
  case restore =>
    exact ⟨2, .other 1, .of_ordinary rfl rfl rfl (by decide) (by decide) rfl rfl
      (caller_computes_plain callerFunction 2 (fun members => callerExec_mtlr members _)
        (by decide) rfl)⟩
  case compare members r11 r12 =>
    have decoded : (callerEmitter.insn callerFunction
        (callerProgram.code callerFunction) 3).opcode = some .cmplwi := by
      decide
    have register : ((callerEmitter.insn callerFunction
        (callerProgram.code callerFunction) 3).operand 0).toNat = 6 := by
      decide
    have pieces : callerNames.pieces (callerEmitter.insn callerFunction
        (callerProgram.code callerFunction) 3) = [.compare 6] := by
      rw [RegisterNames.pieces, decoded]
      dsimp only
      rw [register]
    exact ⟨3, .cmplwi, .of_ordinary rfl rfl rfl (by decide) decoded rfl rfl
      (caller_computes callerFunction 3 (fun members => callerExec_cmplwi members _)
        (by decide) pieces rfl)⟩
  case guard within =>
    have falls := guard_falls within
    exact ⟨4, .bgt, .of_branch (show PpcInst.source _ = some .displacement from rfl) rfl rfl
      (by decide) (by decide) rfl (by decide) rfl
      fun taken => absurd (falls.symm.trans taken) Bool.false_ne_true⟩
  case load =>
    exact ⟨5, .lwzx, .of_ordinary rfl rfl rfl (by decide) (by decide) rfl rfl
      (caller_computes_plain callerFunction 5 (fun members => callerExec_lwzx members _)
        (by decide) rfl)⟩
  case move =>
    exact ⟨6, .mtctr, .of_ordinary rfl rfl rfl (by decide) (by decide) rfl rfl
      (caller_computes callerFunction 6 (fun members => callerExec_mtctr members _)
        (by decide) rfl rfl)⟩
  case dispatch members r11 r12 chosen =>
    have target := caller_count chosen ⟨0x2000, 1, r11, r12⟩ [⟨callerFunction, 0x2000⟩]
    have pending : callerEmitter.pending callerFunction
        (callerProgram.code callerFunction) 7 = some callerTable := by
      decide +kernel
    refine ⟨7, .bctr, .of_branch (show PpcInst.source _ = some .count from rfl) rfl rfl
      (by decide) (by decide) rfl (by decide) rfl ?_⟩
    rw [LeadsAlike, target, if_pos rfl, pending]
    exact fun _ => ⟨by decide, fun _ => rfl⟩
  case jump members r11 r12 =>
    have target := caller_displacement 0x1024 members ⟨0x2000, 1, r11, r12⟩
      [⟨callerFunction, 0x2000⟩]
    refine ⟨9, .b, .of_branch (show PpcInst.source _ = some .displacement from rfl) rfl rfl
      (by decide) (by decide) rfl (by decide) rfl ?_⟩
    rw [LeadsAlike, target]
    exact fun _ => .inr ⟨"sub_1028", caller_finds, rfl⟩

/-- The registers in front of the program, with the second label chosen. -/
def callerWorld : CallerWorld := ⟨0x2000, 1, 0, 0⟩

theorem caller_orderly (members : Members) :
    RunsOrderly callerMachine callerEmitter callerNames callerProgram
      (GuestState.start callerFunction 0x2000 members callerWorld) := by
  intro state running callers visits active
  have inCaller : InCaller state :=
    visits.invariant .save fun inCaller goes => inCaller.step goes
  exact inCaller.orderly active

/-! ## Results -/

/-- When every state that the guest comes to is orderly, the emitted functions come to a state with
the same members and the same world for each of them. -/
theorem emitted_visits (emitter : Emitter) (machine : Machine World Scratch) (names : RegisterNames)
    (program : GuestProgram World) (compiled : Compiled emitter machine program) {name : String}
    {fn : Function} (isFunction : program.functions name = some fn) (back : Nat)
    (members : Members) (world : World)
    (orderly : RunsOrderly machine emitter names program (GuestState.start fn back members world))
    {state : GuestState World}
    (visits : Loop.Visits program.step (GuestState.start fn back members world) state) :
    ∃ state', Loop.Visits (emitter.withoutLocals.localStep machine names program.emitted)
        (emitter.withoutLocals.start machine fn (program.code fn) members world) state' ∧
      state'.context = state.members ∧ state'.world = state.world ∧
      Stacked emitter program state.pc state.active state'.frames := by
  rw [localStep_withoutLocals]
  obtain ⟨state', visits', mirrors, -⟩ :=
    (follows compiled).visits ⟨mirrors_start isFunction back members world, orderly⟩ visits
  exact ⟨state', visits', mirrors.context, mirrors.world, mirrors.frames⟩

theorem emitted_visits_caller :
    ∃ state', Loop.Visits (callerEmitter.withoutLocals.localStep callerMachine callerNames
          callerProgram.emitted)
        (callerEmitter.withoutLocals.start callerMachine callerFunction
          (callerProgram.code callerFunction) (counter 3) callerWorld) state' ∧
      state'.context = counter 3 ∧ state'.world = ⟨0x1008, 1, 0, 0x2000⟩ ∧
      Stacked callerEmitter callerProgram 0x1028
        [⟨countdownFunction, 0x1008⟩, ⟨callerFunction, 0x2000⟩] state'.frames := by
  have saves : callerProgram.step
        (GuestState.start callerFunction 0x2000 (counter 3) callerWorld) =
      some ⟨0x1004, counter 3, ⟨0x2000, 1, 0, 0x2000⟩, [⟨callerFunction, 0x2000⟩]⟩ :=
    caller_ordinary 0x1000 (callerExec_mflr _ _) rfl (by decide)
  exact emitted_visits callerEmitter callerMachine callerNames callerProgram ⟨rfl, rfl, rfl⟩
    (show callerProgram.functions "sub_1000" = some callerFunction from rfl) 0x2000 (counter 3)
    callerWorld (caller_orderly (counter 3)) (.tail (.tail .refl saves) (caller_call _ _))

/-- A function of the guest returns if and only if the emitted one does, and both leave the same
members and the same world. -/
theorem emitted_returns (emitter : Emitter) (machine : Machine World Scratch)
    (names : RegisterNames) (program : GuestProgram World)
    (compiled : Compiled emitter machine program) {name : String} {fn : Function}
    (isFunction : program.functions name = some fn) (back : Nat) (members : Members)
    (world : World)
    (orderly : RunsOrderly machine emitter names program (GuestState.start fn back members world))
    (members' : Members) (world' : World) :
    (∃ fuel last, Loop.run program.step fuel (GuestState.start fn back members world) = some last ∧
        last.active = [] ∧ last.members = members' ∧ last.world = world') ↔
      ∃ fuel last', Loop.run (emitter.withoutLocals.localStep machine names program.emitted) fuel
          (emitter.withoutLocals.start machine fn (program.code fn) members world) = some last' ∧
        last'.frames = [] ∧ last'.context = members' ∧ last'.world = world' := by
  rw [localStep_withoutLocals]
  exact returned_iff compiled isFunction back members world orderly fun members world =>
    members = members' ∧ world = world'

/-- The members behind the program: the index was equal to one, and the counter is zero. -/
def callerMembers : Members
  | .cr 6 .eq => 1
  | _ => 0

theorem emitted_returns_caller :
    (∃ fuel last, Loop.run callerProgram.step fuel
          (GuestState.start callerFunction 0x2000 (counter 3) callerWorld) = some last ∧
        last.active = [] ∧ last.members = callerMembers ∧
        last.world = ⟨0x2000, 1, 0x1024, 0x2000⟩) ↔
      ∃ fuel last', Loop.run (callerEmitter.withoutLocals.localStep callerMachine callerNames
            callerProgram.emitted) fuel
          (callerEmitter.withoutLocals.start callerMachine callerFunction
            (callerProgram.code callerFunction) (counter 3) callerWorld) = some last' ∧
        last'.frames = [] ∧ last'.context = callerMembers ∧
        last'.world = ⟨0x2000, 1, 0x1024, 0x2000⟩ :=
  emitted_returns callerEmitter callerMachine callerNames callerProgram ⟨rfl, rfl, rfl⟩
    (show callerProgram.functions "sub_1000" = some callerFunction from rfl) 0x2000 (counter 3)
    callerWorld (caller_orderly (counter 3)) callerMembers ⟨0x2000, 1, 0x1024, 0x2000⟩

/-! ## Local registers -/

/-- What is shown of a state where the function returned, for the members that are not local. -/
def Shows (isLocal : SpecialRegister → Bool) (members : Members) (world : World)
    (shown : World × List (String × World) × Members × Bool) : Prop :=
  shown.2.2.2 = true ∧ shown.1 = world ∧
    ∀ member, isOwn isLocal member = false → shown.2.2.1 member = members member

theorem shows_observe {isLocal : SpecialRegister → Bool} {members : Members} {world : World}
    {state : RunState World Scratch} : Shows isLocal members world (state.observe isLocal) ↔
      state.frames = [] ∧ state.world = world ∧
        ∀ member, isOwn isLocal member = false → state.context member = members member := by
  rw [Shows, RunState.observe]
  refine and_congr List.isEmpty_iff (and_congr .rfl (forall_congr' fun member => ?_))
  refine imp_congr_right fun notOwn => ?_
  dsimp only
  rw [notOwn, if_neg Bool.false_ne_true]

/-- A run that returned is one of whose steps it is shown. -/
theorem returned_iff_steps {machine : Machine World Scratch}
    {functions : String → Option TaggedBody} {isLocal shownLocal : SpecialRegister → Bool}
    {names : RegisterNames}
    {first : RunState World Scratch} {members : Members} {world : World} :
    (∃ fuel last, Loop.run (runStep machine functions isLocal names) fuel first = some last ∧
        last.frames = [] ∧ last.world = world ∧
        ∀ member, isOwn shownLocal member = false → last.context member = members member) ↔
      ∃ n shown, (steps (runStep machine functions isLocal names) n first).map
          (RunState.observe shownLocal) = some shown ∧ Shows shownLocal members world shown := by
  constructor
  · rintro ⟨fuel, last, run, returned⟩
    obtain ⟨⟨n, reached⟩, -⟩ := Loop.exists_run_iff_steps.mp ⟨fuel, run⟩
    exact ⟨n, _, congrArg _ reached, shows_observe.mpr returned⟩
  · rintro ⟨n, shown, reached, shows⟩
    obtain ⟨last, comes, rfl⟩ := Option.map_eq_some_iff.mp reached
    have returned := shows_observe.mp shows
    have ends : runStep machine functions isLocal names last = none := by
      rw [runStep, returned.1]
    obtain ⟨fuel, run⟩ := Loop.exists_run_iff_steps.mpr ⟨⟨n, comes⟩, ends⟩
    exact ⟨fuel, last, run, returned⟩

/-- With local registers, which are written before they are read, it is the same for the world and
the members that are not local. -/
theorem local_returns (emitter : Emitter) (machine : Machine World Scratch) (names : RegisterNames)
    (program : GuestProgram World) (compiled : Compiled emitter machine program) {name : String}
    {fn : Function} (isFunction : program.functions name = some fn) (back : Nat)
    (members : Members) (world : World)
    (orderly : RunsOrderly machine emitter names program (GuestState.start fn back members world))
    (disciplined : ∀ name fn, program.functions name = some fn →
      Disciplined names emitter.config.isLocal id (emitter.taggedBody fn (program.code fn)))
    (members' : Members) (world' : World) :
    (∃ fuel last, Loop.run program.step fuel (GuestState.start fn back members world) = some last ∧
        last.active = [] ∧ last.world = world' ∧
        ∀ member, isOwn emitter.config.isLocal member = false →
          last.members member = members' member) ↔
      ∃ fuel last', Loop.run (emitter.localStep machine names program.emitted) fuel
          (emitter.start machine fn (program.code fn) members world) = some last' ∧
        last'.frames = [] ∧ last'.world = world' ∧
        ∀ member, isOwn emitter.config.isLocal member = false →
          last'.context member = members' member := by
  have programs : ∀ name body, emitter.bodies program.emitted name = some body →
      Disciplined names emitter.config.isLocal id body := by
    intro name body isBody
    obtain ⟨⟨fn', code⟩, found, rfl⟩ := Option.map_eq_some_iff.mp isBody
    obtain ⟨fn, isFunction, same⟩ := Option.map_eq_some_iff.mp found
    obtain ⟨rfl, rfl⟩ := Prod.mk.inj same
    exact disciplined name fn isFunction
  have start : Related emitter.config.isLocal names
      (emitter.start machine fn (program.code fn) members world)
      (emitter.withoutLocals.start machine fn (program.code fn) members world) :=
    .running ⟨disciplined name fn isFunction, Layers.agree_of_shared fun _ _ => rfl, .nil⟩ .entry
  have shown : ∀ n, (steps (emitter.localStep machine names program.emitted) n
        (emitter.start machine fn (program.code fn) members world)).map
          (RunState.observe emitter.config.isLocal) =
      (steps (emittedStep emitter program machine names) n
        (emitter.withoutLocals.start machine fn (program.code fn) members world)).map
          (RunState.observe emitter.config.isLocal) :=
    observe_steps (fun related => related.step programs) Related.observe start
  have guest := returned_iff compiled isFunction back members world orderly fun members world =>
    world = world' ∧ ∀ member, isOwn emitter.config.isLocal member = false →
      members member = members' member
  refine guest.trans (returned_iff_steps.trans ?_)
  refine Iff.trans ?_ returned_iff_steps.symm
  refine exists_congr fun n => exists_congr fun result => ?_
  rw [← Emitter.localStep, shown]

/-- The comparison is known in front of the branch that reads it. -/
def callerKnown (line : Nat) : List Member :=
  if line = 9 ∨ line = 10 then (SpecialRegister.cr 6).members else []

theorem local_returns_caller :
    (∃ fuel last, Loop.run callerProgram.step fuel
          (GuestState.start callerFunction 0x2000 (counter 3) callerWorld) = some last ∧
        last.active = [] ∧ last.world = ⟨0x2000, 1, 0x1024, 0x2000⟩ ∧
        ∀ member, isOwn callerEmitter.config.isLocal member = false →
          last.members member = callerMembers member) ↔
      ∃ fuel last', Loop.run (callerEmitter.localStep callerMachine callerNames
            callerProgram.emitted) fuel
          (callerEmitter.start callerMachine callerFunction
            (callerProgram.code callerFunction) (counter 3) callerWorld) = some last' ∧
        last'.frames = [] ∧ last'.world = ⟨0x2000, 1, 0x1024, 0x2000⟩ ∧
        ∀ member, isOwn callerEmitter.config.isLocal member = false →
          last'.context member = callerMembers member := by
  have checkedCaller : checkBody callerNames callerEmitter.config.isLocal id
      (callerEmitter.taggedBody callerFunction (callerProgram.code callerFunction))
      callerKnown 5 = true := by
    decide +kernel
  have checkedCountdown : checkBody callerNames callerEmitter.config.isLocal id
      (callerEmitter.taggedBody countdownFunction (callerProgram.code countdownFunction))
      (fun _ => []) 5 = true := by
    decide +kernel
  have disciplined : ∀ name fn, callerProgram.functions name = some fn →
      Disciplined callerNames callerEmitter.config.isLocal id
        (callerEmitter.taggedBody fn (callerProgram.code fn)) := by
    intro name fn isFunction
    simp only [callerProgram] at isFunction
    split_ifs at isFunction <;> obtain rfl := Option.some.inj isFunction
    · exact disciplined_of_checkBody checkedCaller
    · exact disciplined_of_checkBody checkedCountdown
  exact local_returns callerEmitter callerMachine callerNames callerProgram ⟨rfl, rfl, rfl⟩
    (show callerProgram.functions "sub_1000" = some callerFunction from rfl) 0x2000 (counter 3)
    callerWorld (caller_orderly (counter 3)) disciplined callerMembers
    ⟨0x2000, 1, 0x1024, 0x2000⟩

end UfcRecomp.Recompiler
