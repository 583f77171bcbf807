import UfcRecomp.Lib.Simulation
import UfcRecomp.Recompiler.ControlSteps

/-!
# Emitted functions go where the guest goes

The activations of the emitted functions are those of the guest, besides activations that are about
to return: they made a tail call. A word of the guest is matched by its lines.
-/

namespace UfcRecomp.Recompiler

open UfcRecomp.Ppc UfcRecomp.Utils UfcRecomp.Analyze UfcRecomp.Lib

universe u v

variable {World : Type u} {Scratch : Type v}

/-! ## Related states -/

/-- An activation that does nothing but return. -/
def Returning (frame : Frame Scratch) : Prop :=
  (∃ left, frame.work = .statement (.act .ret) :: left) ∨
    frame.work = [] ∧ ∃ insn, frame.body[frame.next]? = some (insn, .act .ret)

section Relation

variable (emitter : Emitter) (program : GuestProgram World)

/-- The functions of a program for the emitter. -/
def GuestProgram.emitted (name : String) : Option (Function × (Int → Word)) :=
  (program.functions name).map fun fn => (fn, program.code fn)

/-- The body of a function of a program. -/
def bodyOf (fn : Function) : TaggedBody := emitter.taggedBody fn (program.code fn)

/-- Where the lines of a word start in the body of its function. -/
def lineIn (fn : Function) (i : Nat) : Nat := emitter.lineOf fn (program.code fn) i

/-- An activation that stands in front of the word at an address, or behind the last one. -/
structure StandsAt (frame : Frame Scratch) (fn : Function) (pc : Nat) : Prop where
  addressable : Addressable fn
  body : frame.body = bodyOf emitter program fn
  work : frame.work = []
  place : ∃ i ≤ Emitter.words fn, pc = fn.base + 4 * i ∧ frame.next = lineIn emitter program fn i

/-- The activations of the emitted functions, for those of the guest and an address in the first. -/
inductive Stacked : Nat → List Activation → List (Frame Scratch) → Prop where
  | nil {pc} : Stacked pc [] []
  | cons {pc running callers frame returning below}
      (stands : StandsAt emitter program frame running.fn pc)
      (returns : ∀ other ∈ returning, Returning other)
      (stacked : Stacked running.back callers below) :
      Stacked pc (running :: callers) (frame :: (returning ++ below))

/-- A state of the emitted functions for one of the guest. -/
structure Mirrors (state : GuestState World) (state' : RunState World Scratch) : Prop where
  context : state'.context = state.members
  world : state'.world = state.world
  frames : Stacked emitter program state.pc state.active state'.frames

variable (machine : Machine World Scratch) (names : RegisterNames)

/-- A step of the emitted functions of a program, without local registers. -/
abbrev emittedStep : RunState World Scratch → Option (RunState World Scratch) :=
  sharedStep machine (emitter.bodies program.emitted) names

/-- What the emitted functions do from a state on, for what a step of the guest does. Where the
guest is stuck, they come to be. -/
def LeadsTo (state' : RunState World Scratch) : Option (GuestState World) → Prop
  | some next => ∃ middle next', emittedStep emitter program machine names state' = some middle ∧
      Loop.Visits (emittedStep emitter program machine names) middle next' ∧
      Mirrors emitter program next next'
  | none => ∃ last', Loop.Visits (emittedStep emitter program machine names) state' last' ∧
      emittedStep emitter program machine names last' = none ∧ last'.frames ≠ []

end Relation

section Steps

variable {emitter : Emitter} {program : GuestProgram World} {machine : Machine World Scratch}
  {names : RegisterNames} {members : Members} {world : World} {calls : List (String × World)}
  {returning below : List (Frame Scratch)} {callers : List Activation}

/-- What is done in front changes nothing. -/
theorem LeadsTo.of_visits {state' later : RunState World Scratch}
    {result : Option (GuestState World)}
    (visits : Loop.Visits (emittedStep emitter program machine names) state' later)
    (leads : LeadsTo emitter program machine names later result) :
    LeadsTo emitter program machine names state' result := by
  cases result with
  | none =>
      obtain ⟨last', more, stuck, active⟩ := leads
      exact ⟨last', visits.trans more, stuck, active⟩
  | some next =>
      obtain ⟨middle, next', pass, more, mirrors⟩ := leads
      rcases visits.eq_or_head with rfl | ⟨first, starts, rest⟩
      · exact ⟨middle, next', pass, more, mirrors⟩
      · exact ⟨first, next', starts, (rest.tail pass).trans more, mirrors⟩

/-- A step to a state that mirrors the next one, after some more. -/
theorem leadsTo_of_step {state' middle next' : RunState World Scratch} {next : GuestState World}
    (pass : emittedStep emitter program machine names state' = some middle)
    (more : Loop.Visits (emittedStep emitter program machine names) middle next')
    (mirrors : Mirrors emitter program next next') :
    LeadsTo emitter program machine names state' (some next) :=
  ⟨middle, next', pass, more, mirrors⟩

/-- Activations that return do so. -/
theorem visits_returning (returns : ∀ other ∈ returning, Returning other) :
    Loop.Visits (emittedStep emitter program machine names)
      ⟨members, world, returning ++ below, calls⟩ ⟨members, world, below, calls⟩ := by
  induction returning with
  | nil => exact .refl
  | cons frame returning ih =>
      obtain ⟨body, next, insn, work, locals, scratch⟩ := frame
      have rest := ih fun other among => returns other (List.mem_cons_of_mem _ among)
      rcases returns _ (List.mem_cons_self ..) with ⟨left, here⟩ | ⟨here, insn, line⟩
      · obtain rfl : work = _ := here
        exact .head rfl rest
      · obtain rfl : work = [] := here
        exact .head (step_line line) (.head rfl rest)

/-- An activation ends. -/
theorem leadsTo_ret {state' : RunState World Scratch} {back : Nat}
    (pass : emittedStep emitter program machine names state' =
      some ⟨members, world, returning ++ below, calls⟩)
    (returns : ∀ other ∈ returning, Returning other)
    (stacked : Stacked emitter program back callers below) :
    LeadsTo emitter program machine names state' (some ⟨back, members, world, callers⟩) :=
  leadsTo_of_step pass (visits_returning returns) ⟨rfl, rfl, stacked⟩

/-- A routine is called by its name. -/
theorem leadsTo_call (imports : machine.imported = program.imported)
    {state' : RunState World Scratch} {target back pc : Nat} {name : String}
    {active : List Activation} (entry : program.entry target = some name)
    (pass : emittedStep emitter program machine names state' =
      RunState.call machine (emitter.bodies program.emitted)
        ⟨members, world, returning ++ below, calls⟩ name)
    (running : state'.frames ≠ []) (returns : ∀ other ∈ returning, Returning other)
    (stacked : Stacked emitter program back callers below) :
    LeadsTo emitter program machine names state'
      (program.enter ⟨pc, members, world, active⟩ target back callers) := by
  rw [GuestProgram.enter, entry, Option.bind_some]
  rw [RunState.call] at pass
  dsimp only at pass
  cases isFunction : program.functions name with
  | some fn =>
      have isBody : emitter.bodies program.emitted name = some (bodyOf emitter program fn) := by
        rw [Emitter.bodies, GuestProgram.emitted, isFunction]
        rfl
      rw [isBody] at pass
      have starts := program.starts entry isFunction
      have stands : StandsAt emitter program
          (Frame.enter machine (bodyOf emitter program fn)) fn target :=
        ⟨program.fits isFunction, rfl, rfl, 0, Nat.zero_le _, by omega, rfl⟩
      exact leadsTo_of_step pass .refl ⟨rfl, rfl, .cons stands returns stacked⟩
  | none =>
      have noBody : emitter.bodies program.emitted name = none := by
        rw [Emitter.bodies, GuestProgram.emitted, isFunction]
        rfl
      rw [noBody, imports] at pass
      dsimp only at pass ⊢
      cases answer : program.imported name world with
      | none =>
          rw [answer] at pass
          exact ⟨state', .refl, pass, running⟩
      | some world' =>
          rw [answer] at pass
          exact leadsTo_of_step pass (visits_returning returns) ⟨rfl, rfl, stacked⟩

end Steps

/-! ## Words -/

section Words

variable {emitter : Emitter} {program : GuestProgram World} {machine : Machine World Scratch}
  {names : RegisterNames} {members locals : Members} {world : World} {scratch : Scratch}
  {calls : List (String × World)} {returning below : List (Frame Scratch)}
  {running : Activation} {callers : List Activation} {pc i : Nat} {id : PpcInst}

/-- The words of a function are those of the program. -/
theorem code_word (fn : Function) (i : Nat) :
    program.code fn i = program.fetch (fn.base + 4 * i) := by
  rw [GuestProgram.code]
  congr 1

theorem insn_word (fn : Function) (i : Nat) : emitter.insn fn (program.code fn) i =
    emitter.dis.disassemble (program.fetch (fn.base + 4 * i)) (fn.base + 4 * i) := by
  rw [Emitter.insn, code_word]

/-- Addresses of words do not wrap around. -/
theorem Addressable.uint32_word {fn : Function} (addressable : Addressable fn) {i : Nat}
    (inside : i < Emitter.words fn) : uint32 (fn.base + 4 * i) = fn.base + 4 * i ∧
      uint32 (fn.base + 4 * i + 4) = fn.base + 4 * (i + 1) := by
  have bound := addressable.addresses
  rw [uint32, uint32]
  omega

/-- An aligned address in a function is one of its words. -/
theorem Addressable.exists_word {fn : Function} (addressable : Addressable fn) {target : Nat}
    (inside : Inside fn target) (aligned : 4 ∣ target) :
    ∃ j < Emitter.words fn, target = fn.base + 4 * j := by
  obtain ⟨low, high⟩ := inside
  obtain ⟨base, isBase⟩ := addressable.aligned
  obtain ⟨word, rfl⟩ := aligned
  refine ⟨word - base, ?_, by omega⟩
  rw [Emitter.words]
  omega

/-- Behind its last line an activation stands in front of the next word. -/
theorem stacked_next {insn : Insn} (addressable : Addressable running.fn)
    (inside : i < Emitter.words running.fn) (returns : ∀ other ∈ returning, Returning other)
    (stacked : Stacked emitter program running.back callers below) :
    Stacked emitter program (uint32 (running.fn.base + 4 * i + 4)) (running :: callers)
      (⟨bodyOf emitter program running.fn, lineIn emitter program running.fn (i + 1), insn, [],
        locals, scratch⟩ :: (returning ++ below)) := by
  have next := (addressable.uint32_word inside).2
  have stands : StandsAt emitter program ⟨bodyOf emitter program running.fn,
      lineIn emitter program running.fn (i + 1), insn, [], locals, scratch⟩ running.fn
      (uint32 (running.fn.base + 4 * i + 4)) := ⟨addressable, rfl, rfl, i + 1, inside, next, rfl⟩
  exact .cons stands returns stacked

/-- A jump goes to the word that it names. -/
theorem leadsTo_goto {next target : Nat} {insn : Insn} {left : List Work}
    (addressable : Addressable running.fn) (inside : Inside running.fn target)
    (labelled : target ∈ emitter.labels running.fn (program.code running.fn))
    (aligned : 4 ∣ target) (returns : ∀ other ∈ returning, Returning other)
    (stacked : Stacked emitter program running.back callers below) :
    LeadsTo emitter program machine names
      ⟨members, world, ⟨bodyOf emitter program running.fn, next, insn,
        .statement (.act (.goto target)) :: left, locals, scratch⟩ :: (returning ++ below), calls⟩
      (some ⟨target, members, world, running :: callers⟩) := by
  obtain ⟨j, among, rfl⟩ := addressable.exists_word inside aligned
  have position : labelPosition (bodyOf emitter program running.fn) (running.fn.base + 4 * j) =
      some (lineIn emitter program running.fn j) := Emitter.labelPosition_word among labelled
  have pass : emittedStep emitter program machine names
      ⟨members, world, ⟨bodyOf emitter program running.fn, next, insn,
        .statement (.act (.goto (running.fn.base + 4 * j))) :: left, locals, scratch⟩ ::
          (returning ++ below), calls⟩ =
      some ⟨members, world, ⟨bodyOf emitter program running.fn, lineIn emitter program running.fn j,
        insn, [], locals, scratch⟩ :: (returning ++ below), calls⟩ := by
    rw [emittedStep, sharedStep, runStep]
    dsimp only [workStep, actStep]
    rw [position]
    rfl
  have stands : StandsAt emitter program ⟨bodyOf emitter program running.fn,
      lineIn emitter program running.fn j, insn, [], locals, scratch⟩ running.fn
      (running.fn.base + 4 * j) := ⟨addressable, rfl, rfl, j, Nat.le_of_lt among, rfl, rfl⟩
  exact leadsTo_of_step pass .refl ⟨rfl, rfl, .cons stands returns stacked⟩

/-- The statements of a word without a hook are come to. -/
theorem visits_case {before : Insn} {rest : List (Frame Scratch)} {statements : List Statement}
    {table : Option RecompilerSwitchTable} (inside : i < Emitter.words running.fn)
    (decoded : (emitter.insn running.fn (program.code running.fn) i).opcode = some id)
    (noHook : emitter.config.midAsmHooks.find (uint32 (running.fn.base + 4 * i)) = none)
    (printed : emitter.recompileCase running.fn (uint32 (running.fn.base + 4 * i))
      (emitter.insn running.fn (program.code running.fn) i) id
      (emitter.pending running.fn (program.code running.fn) i) = some (statements, table)) :
    ∃ first before', Loop.Visits (emittedStep emitter program machine names)
        ⟨members, world, ⟨bodyOf emitter program running.fn, lineIn emitter program running.fn i,
          before, [], locals, scratch⟩ :: rest, calls⟩
        ⟨members, world, ⟨bodyOf emitter program running.fn, first, before', [], locals, scratch⟩ ::
          rest, calls⟩ ∧
      Emitter.LinesAt (bodyOf emitter program running.fn)
        (emitter.insn running.fn (program.code running.fn) i) first
        (lineIn emitter program running.fn (i + 1)) statements := by
  have lines : Emitter.LinesAt (bodyOf emitter program running.fn) _ _ _ _ :=
    Emitter.linesAt_word inside
  rw [Emitter.printedInsn_of_case decoded noHook printed, Emitter.printedLabel] at lines
  split_ifs at lines with labelled
  · obtain ⟨afterLabel, label, toComment⟩ := visits_silent (.inr ⟨_, rfl⟩) lines.head
    obtain ⟨afterComment, comment, toCase⟩ := visits_silent (.inl rfl) lines.tail.head
    exact ⟨_, _, (Loop.Visits.head label toComment).trans (.head comment toCase), lines.tail.tail⟩
  · obtain ⟨afterComment, comment, toCase⟩ := visits_silent (.inl rfl) lines.head
    exact ⟨_, _, .head comment toCase, lines.tail⟩

/-- The operand of a direct branch is where it goes. -/
theorem operand_target {active : List Activation} {index : Nat}
    (decoded : (emitter.insn running.fn (program.code running.fn) i).opcode = some id)
    (direct : id.targetOperand = some index) :
    ((emitter.insn running.fn (program.code running.fn) i).operand index).toNat =
      program.target ⟨running.fn.base + 4 * i, members, world, active⟩ .displacement := by
  rw [insn_word] at decoded ⊢
  have isSource : id.source = some .displacement := by
    cases id <;> first | rfl | cases direct
  have relative := relative_of_disassemble decoded isSource
  rw [GuestProgram.target, BranchSource.target]
  dsimp only
  rw [relative, if_neg Bool.false_ne_true, branchDisplacement]
  rcases target_of_disassemble decoded direct with ⟨-, op, -, operand⟩ | ⟨-, op, -, operand⟩
  · rw [if_pos op]
    omega
  · have notB : ppcOp (program.fetch (running.fn.base + 4 * i)) ≠ ppcOpB := by
      rw [op]
      decide
    rw [if_neg notB]
    omega

end Words

/-! ## Guest branches -/

section Branches

variable {program : GuestProgram World} {pc : Nat} {members : Members} {world : World}
  {source : BranchSource} {running : Activation} {callers : List Activation}

theorem step_branch (isBranch : branchSource (program.fetch pc) = some source) :
    program.step ⟨pc, members, world, running :: callers⟩ =
      program.branch ⟨pc, members, world, running :: callers⟩ source running callers := by
  rw [GuestProgram.step]
  dsimp only
  rw [isBranch]

theorem step_ordinary (notBranch : branchSource (program.fetch pc) = none) :
    program.step ⟨pc, members, world, running :: callers⟩ =
      some ⟨uint32 (pc + 4), (program.exec (program.fetch pc) members world).1,
        (program.exec (program.fetch pc) members world).2, running :: callers⟩ := by
  rw [GuestProgram.step]
  dsimp only
  rw [notBranch]
  rfl

theorem branch_not_taken (notTaken : isTaken (program.fetch pc) (branchState members) = false) :
    program.branch ⟨pc, members, world, running :: callers⟩ source running callers =
      some ⟨uint32 (pc + 4), membersBehind (program.fetch pc) members,
        program.worldBehind (program.fetch pc) pc world, running :: callers⟩ := by
  rw [GuestProgram.branch]
  exact if_pos notTaken

variable (taken : isTaken (program.fetch pc) (branchState members) = true)
include taken

theorem branch_link (links : ppcBl (program.fetch pc) = true) :
    program.branch ⟨pc, members, world, running :: callers⟩ source running callers =
      program.enter ⟨pc, membersBehind (program.fetch pc) members,
          program.worldBehind (program.fetch pc) pc world, running :: callers⟩
        (program.target ⟨pc, members, world, running :: callers⟩ source) (uint32 (pc + 4))
        (running :: callers) := by
  rw [GuestProgram.branch]
  dsimp only
  rw [taken, if_neg Bool.false_ne_true.symm, if_pos links]

variable (noLink : ppcBl (program.fetch pc) = false)
include noLink

theorem branch_return :
    program.branch ⟨pc, members, world, running :: callers⟩ .link running callers =
      some ⟨program.target ⟨pc, members, world, running :: callers⟩ .link,
        membersBehind (program.fetch pc) members, world, callers⟩ := by
  rw [GuestProgram.branch, GuestProgram.worldBehind]
  dsimp only
  rw [taken, if_neg Bool.false_ne_true.symm, noLink, if_neg Bool.false_ne_true, if_pos rfl,
    if_neg Bool.false_ne_true]

theorem branch_inside (noReturn : source ≠ .link)
    (inside : Inside running.fn
      (program.target ⟨pc, members, world, running :: callers⟩ source)) :
    program.branch ⟨pc, members, world, running :: callers⟩ source running callers =
      some ⟨program.target ⟨pc, members, world, running :: callers⟩ source,
        membersBehind (program.fetch pc) members, world, running :: callers⟩ := by
  rw [GuestProgram.branch, GuestProgram.worldBehind]
  dsimp only
  rw [taken, if_neg Bool.false_ne_true.symm, noLink, if_neg Bool.false_ne_true, if_neg noReturn,
    if_pos inside, if_neg Bool.false_ne_true]

theorem branch_outside (noReturn : source ≠ .link)
    (outside : ¬Inside running.fn
      (program.target ⟨pc, members, world, running :: callers⟩ source)) :
    program.branch ⟨pc, members, world, running :: callers⟩ source running callers =
      program.enter ⟨pc, membersBehind (program.fetch pc) members, world, running :: callers⟩
        (program.target ⟨pc, members, world, running :: callers⟩ source) running.back callers := by
  rw [GuestProgram.branch, GuestProgram.worldBehind]
  dsimp only
  rw [taken, if_neg Bool.false_ne_true.symm, noLink, if_neg Bool.false_ne_true, if_neg noReturn,
    if_neg outside, if_neg Bool.false_ne_true]

end Branches

end UfcRecomp.Recompiler
