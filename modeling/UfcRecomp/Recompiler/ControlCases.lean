import UfcRecomp.Recompiler.ControlSimulation

/-!
# The words of the guest

What the statements of each kind of instruction do, from the first one on, is what the guest does at
the word.
-/

namespace UfcRecomp.Recompiler

open UfcRecomp.Ppc UfcRecomp.Utils UfcRecomp.Analyze UfcRecomp.Lib

universe u v

variable {World : Type u} {Scratch : Type v}

section Cases

variable {emitter : Emitter} {program : GuestProgram World} {machine : Machine World Scratch}
  {names : RegisterNames} {members locals : Members} {world : World} {scratch : Scratch}
  {calls : List (String × World)} {returning below : List (Frame Scratch)}
  {running : Activation} {callers : List Activation} {i first : Nat} {before : Insn} {id : PpcInst}

variable (addressable : Addressable running.fn) (inside : i < Emitter.words running.fn)
  (returns : ∀ other ∈ returning, Returning other)
  (stacked : Stacked emitter program running.back callers below)
include addressable inside returns stacked

/-- An ordinary instruction computes. -/
theorem leadsTo_ordinary
    (notBranch : branchSource (program.fetch (running.fn.base + 4 * i)) = none)
    (computes : machine.Computes names (emitter.insn running.fn (program.code running.fn) i)
      members world (program.exec (program.fetch (running.fn.base + 4 * i)) members world))
    (lines : Emitter.LinesAt (bodyOf emitter program running.fn)
      (emitter.insn running.fn (program.code running.fn) i) first
      (lineIn emitter program running.fn (i + 1)) [.act (.compute id)]) :
    LeadsTo emitter program machine names
      ⟨members, world, ⟨bodyOf emitter program running.fn, first, before, [], locals, scratch⟩ ::
        (returning ++ below), calls⟩
      (program.step ⟨running.fn.base + 4 * i, members, world, running :: callers⟩) := by
  obtain ⟨scratch', computed⟩ := computes scratch
  have next : first + 1 = lineIn emitter program running.fn (i + 1) := lines.tail.nil.symm
  let result := program.exec (program.fetch (running.fn.base + 4 * i)) members world
  have mirrors : Mirrors emitter program
      (program.ordinary ⟨running.fn.base + 4 * i, members, world, running :: callers⟩)
      ⟨result.1, result.2, ⟨bodyOf emitter program running.fn,
        lineIn emitter program running.fn (i + 1),
        emitter.insn running.fn (program.code running.fn) i, [], locals, scratch'⟩ ::
          (returning ++ below), calls⟩ :=
    ⟨rfl, rfl, stacked_next addressable inside returns stacked⟩
  have goes : program.step ⟨running.fn.base + 4 * i, members, world, running :: callers⟩ =
      some (program.ordinary ⟨running.fn.base + 4 * i, members, world, running :: callers⟩) :=
    step_ordinary notBranch
  rw [goes]
  refine .of_visits (visits_line lines.head) (leadsTo_of_step rfl ?_ mirrors)
  rw [← next]
  exact visits_pieces _ computed

end Cases

section Branches

variable {emitter : Emitter} {program : GuestProgram World} {machine : Machine World Scratch}
  {names : RegisterNames} {members locals : Members} {world : World} {scratch : Scratch}
  {calls : List (String × World)} {returning below : List (Frame Scratch)}
  {running : Activation} {callers : List Activation} {i first next target : Nat}
  {before insn : Insn} {id : PpcInst} {left : List Work} {name : String}

/-- The target of a direct branch inside the function has a label. -/
theorem labelled_target {index : Nat} (addressable : Addressable running.fn)
    (inside : i < Emitter.words running.fn)
    (decoded : (emitter.insn running.fn (program.code running.fn) i).opcode = some id)
    (direct : id.targetOperand = some index) (noLink : id ≠ .bl)
    (isInside : Inside running.fn
      ((emitter.insn running.fn (program.code running.fn) i).operand index).toNat) :
    ((emitter.insn running.fn (program.code running.fn) i).operand index).toNat ∈
        emitter.labels running.fn (program.code running.fn) ∧
      4 ∣ ((emitter.insn running.fn (program.code running.fn) i).operand index).toNat := by
  obtain ⟨labelled, aligned⟩ := Emitter.mem_labels_of_target addressable.short inside decoded direct
    noLink rfl isInside
  exact ⟨labelled, aligned addressable.aligned⟩

/-- A call in front of a return. -/
theorem leadsTo_tailCall (imports : machine.imported = program.imported)
    (entry : program.entry target = some name) {state' : RunState World Scratch}
    {frame : Frame Scratch} (pass : emittedStep emitter program machine names state' =
      RunState.call machine (emitter.bodies program.emitted)
        ⟨members, world, frame :: (returning ++ below), calls⟩ name)
    (active : state'.frames ≠ []) (isReturning : Returning frame)
    (returns : ∀ other ∈ returning, Returning other)
    (stacked : Stacked emitter program running.back callers below) {pc : Nat}
    {activations : List Activation} :
    LeadsTo emitter program machine names state'
      (program.enter ⟨pc, members, world, activations⟩ target running.back callers) :=
  @leadsTo_call _ _ _ _ _ _ _ _ _ (frame :: returning) _ _ imports _ _ _ _ _ _ entry pass active
    (List.forall_mem_cons.mpr ⟨isReturning, returns⟩) stacked

variable (addressable : Addressable running.fn) (inside : i < Emitter.words running.fn)
  (returns : ∀ other ∈ returning, Returning other)
  (stacked : Stacked emitter program running.back callers below)
include addressable inside returns stacked

/-- What a branch with a condition does when it is taken. -/
theorem leadsTo_actions (imports : machine.imported = program.imported) {test : BranchTest}
    {source : BranchSource}
    (decoded : (emitter.insn running.fn (program.code running.fn) i).opcode = some id)
    (conditional : id.branchTest = some test) (isSource : id.source = some source)
    (noLink : ppcBl (program.fetch (running.fn.base + 4 * i)) = false)
    (counts : membersBehind (program.fetch (running.fn.base + 4 * i)) members =
      if test.counter.isSome then decremented members else members)
    (taken : isTaken (program.fetch (running.fn.base + 4 * i)) (branchState members) = true)
    (leads : LeadsAlike machine emitter program
      ⟨running.fn.base + 4 * i, members, world, running :: callers⟩ running i id source) :
    LeadsTo emitter program machine names
      ⟨membersBehind (program.fetch (running.fn.base + 4 * i)) members, world,
        ⟨bodyOf emitter program running.fn, next, insn, workOf (emitter.branchActions running.fn
          (emitter.insn running.fn (program.code running.fn) i) id), locals, scratch⟩ ::
          (returning ++ below), calls⟩
      (program.branch ⟨running.fn.base + 4 * i, members, world, running :: callers⟩ source running
        callers) := by
  rw [Emitter.branchActions]
  cases direct : id.targetOperand with
  | some index =>
      obtain rfl : source = .displacement :=
        Option.some.inj (isSource.symm.trans (PpcInst.source_of_targetOperand direct))
      have same := @operand_target World emitter program members world running i id
        (running :: callers) index decoded direct
      have notCall : id ≠ .bl := by
        rintro rfl
        cases conditional
      dsimp only
      by_cases within : Inside running.fn
          ((emitter.insn running.fn (program.code running.fn) i).operand index).toNat
      · obtain ⟨labelled, aligned⟩ :=
          labelled_target addressable inside decoded direct notCall within
        rw [if_pos within]
        rw [same] at within labelled aligned ⊢
        rw [branch_inside taken noLink (by simp) within]
        exact leadsTo_goto addressable within labelled aligned returns stacked
      · rw [if_neg within]
        rw [same] at within ⊢
        obtain ⟨-, isInside⟩ | ⟨name, finds, entry⟩ := leads
        · exact absurd isInside within
        · rw [branch_outside taken noLink (by simp) within, finds.printFunctionCall]
          exact leadsTo_tailCall imports entry rfl (List.cons_ne_nil _ _) (.inl ⟨[], rfl⟩) returns
            stacked
  | none =>
      dsimp only
      rcases PpcInst.source_of_indirect conditional direct with ⟨rfl, noCounter⟩ | ⟨other, isLink⟩
      · obtain rfl : source = .count := Option.some.inj isSource.symm
        obtain ⟨notInside, name, lookup, entry⟩ := leads
        have outside := notInside.resolve_left (by decide)
        rw [noCounter] at counts
        rw [GuestProgram.worldBehind, noLink] at lookup
        rw [if_pos rfl, branch_outside taken noLink (by simp) outside, counts]
        exact leadsTo_tailCall imports entry (step_callIndirect lookup) (List.cons_ne_nil _ _)
          (.inl ⟨[], rfl⟩) returns stacked
      · obtain rfl : source = .link := Option.some.inj (isSource.symm.trans isLink)
        have back : program.target ⟨running.fn.base + 4 * i, members, world, running :: callers⟩
            .link = running.back := leads
        rw [if_neg other, branch_return taken noLink, back]
        exact leadsTo_ret rfl returns stacked

/-- A branch with a condition goes on with the next word or with its actions. -/
theorem leadsTo_conditional (imports : machine.imported = program.imported) {test : BranchTest}
    {condition : Condition}
    (decoded : (emitter.insn running.fn (program.code running.fn) i).opcode = some id)
    (conditional : id.branchTest = some test)
    (counts : membersBehind (program.fetch (running.fn.base + 4 * i)) members =
      if test.counter.isSome then decremented members else members)
    (tests : condition.holds (membersBehind (program.fetch (running.fn.base + 4 * i)) members) =
      isTaken (program.fetch (running.fn.base + 4 * i)) (branchState members))
    (leads : ∀ source, id.source = some source →
      isTaken (program.fetch (running.fn.base + 4 * i)) (branchState members) = true →
      LeadsAlike machine emitter program
        ⟨running.fn.base + 4 * i, members, world, running :: callers⟩ running i id source)
    (lines : Emitter.LinesAt (bodyOf emitter program running.fn)
      (emitter.insn running.fn (program.code running.fn) i) first
      (lineIn emitter program running.fn (i + 1)) (printTest test condition
        (emitter.branchActions running.fn
          (emitter.insn running.fn (program.code running.fn) i) id))) :
    LeadsTo emitter program machine names
      ⟨members, world, ⟨bodyOf emitter program running.fn, first, before, [], locals, scratch⟩ ::
        (returning ++ below), calls⟩
      (program.step ⟨running.fn.base + 4 * i, members, world, running :: callers⟩) := by
  obtain ⟨⟨source, isSource⟩, noLinks, listed⟩ := PpcInst.source_of_branchTest conditional
  have word := decoded
  rw [insn_word] at word
  have isBranch := (source_of_disassemble word listed).trans isSource
  have noLink := (links_of_disassemble word (by rw [isSource]; rfl)).trans noLinks
  -- The counter is decremented in front of the test.
  obtain ⟨next, before', count, line⟩ : ∃ next before',
      Loop.Visits (emittedStep emitter program machine names)
        ⟨members, world, ⟨bodyOf emitter program running.fn, first, before, [], locals, scratch⟩ ::
          (returning ++ below), calls⟩
        ⟨membersBehind (program.fetch (running.fn.base + 4 * i)) members, world,
          ⟨bodyOf emitter program running.fn, next, before', [], locals, scratch⟩ ::
            (returning ++ below), calls⟩ ∧
      Emitter.LinesAt (bodyOf emitter program running.fn)
        (emitter.insn running.fn (program.code running.fn) i) next
        (lineIn emitter program running.fn (i + 1)) [.ifThen condition
          (emitter.branchActions running.fn
            (emitter.insn running.fn (program.code running.fn) i) id)] := by
    rw [counts]
    rw [printTest] at lines
    cases known : test.counter with
    | none =>
        rw [known] at lines
        exact ⟨first, before, .refl, lines⟩
    | some zero =>
        rw [known] at lines
        exact ⟨first + 1, _, visits_decrementCtr lines.head, lines.tail⟩
  have last : next + 1 = lineIn emitter program running.fn (i + 1) := line.tail.nil.symm
  rw [step_branch isBranch]
  refine .of_visits (count.trans (visits_line line.head)) ?_
  have passes : emittedStep emitter program machine names
      ⟨membersBehind (program.fetch (running.fn.base + 4 * i)) members, world,
        ⟨bodyOf emitter program running.fn, next + 1,
          emitter.insn running.fn (program.code running.fn) i,
          [.statement (.ifThen condition (emitter.branchActions running.fn
            (emitter.insn running.fn (program.code running.fn) i) id))], locals, scratch⟩ ::
          (returning ++ below), calls⟩ =
      some ⟨membersBehind (program.fetch (running.fn.base + 4 * i)) members, world,
        ⟨bodyOf emitter program running.fn, next + 1,
          emitter.insn running.fn (program.code running.fn) i,
          workOf (if isTaken (program.fetch (running.fn.base + 4 * i)) (branchState members) then
            emitter.branchActions running.fn
              (emitter.insn running.fn (program.code running.fn) i) id else []), locals, scratch⟩ ::
          (returning ++ below), calls⟩ := by
    rw [← tests]
    exact step_ifThen
  cases taken : isTaken (program.fetch (running.fn.base + 4 * i)) (branchState members) with
  | false =>
      rw [taken, last] at passes
      rw [branch_not_taken taken, GuestProgram.worldBehind, noLink, last]
      exact leadsTo_of_step passes .refl
        ⟨rfl, rfl, stacked_next addressable inside returns stacked⟩
  | true =>
      rw [taken] at passes
      refine .of_visits (.tail .refl passes) ?_
      exact leadsTo_actions addressable inside returns stacked imports decoded conditional isSource
        noLink counts taken (leads source isSource taken)

end Branches

section Unconditional

variable {emitter : Emitter} {program : GuestProgram World} {machine : Machine World Scratch}
  {names : RegisterNames} {members locals : Members} {world : World} {scratch : Scratch}
  {calls : List (String × World)} {returning below : List (Frame Scratch)}
  {running : Activation} {callers : List Activation} {i first : Nat} {before : Insn}

/-- Behind a branch without a condition the members are what they were. -/
theorem unconditional_word {id : PpcInst}
    (decoded : (emitter.insn running.fn (program.code running.fn) i).opcode = some id)
    (isSource : id.source.isSome) (unconditional : id.branchTest = none) (members : Members) :
    branchSource (program.fetch (running.fn.base + 4 * i)) = id.source ∧
      ppcBl (program.fetch (running.fn.base + 4 * i)) = id.links ∧
      membersBehind (program.fetch (running.fn.base + 4 * i)) members = members ∧
      isTaken (program.fetch (running.fn.base + 4 * i)) (branchState members) = true := by
  rw [insn_word] at decoded
  have listed : id ≠ .unlistedBranch := by
    rintro rfl
    cases isSource
  obtain ⟨counts, taken⟩ := unconditional_of_disassemble decoded isSource unconditional
    (branchState members)
  refine ⟨source_of_disassemble decoded listed, links_of_disassemble decoded isSource, ?_, taken⟩
  rw [membersBehind, counts]
  rfl

/-- A return ends the activation. -/
theorem leadsTo_blr (returns : ∀ other ∈ returning, Returning other)
    (stacked : Stacked emitter program running.back callers below)
    (decoded : (emitter.insn running.fn (program.code running.fn) i).opcode = some .blr)
    (leads : LeadsAlike machine emitter program
      ⟨running.fn.base + 4 * i, members, world, running :: callers⟩ running i .blr .link)
    (lines : Emitter.LinesAt (bodyOf emitter program running.fn)
      (emitter.insn running.fn (program.code running.fn) i) first
      (lineIn emitter program running.fn (i + 1)) [.act .ret]) :
    LeadsTo emitter program machine names
      ⟨members, world, ⟨bodyOf emitter program running.fn, first, before, [], locals, scratch⟩ ::
        (returning ++ below), calls⟩
      (program.step ⟨running.fn.base + 4 * i, members, world, running :: callers⟩) := by
  obtain ⟨isBranch, noLink, same, taken⟩ := unconditional_word decoded rfl rfl members
  have back : program.target ⟨running.fn.base + 4 * i, members, world, running :: callers⟩ .link =
      running.back := leads
  rw [step_branch isBranch, branch_return taken noLink, same, back]
  exact .of_visits (visits_line lines.head) (leadsTo_ret rfl returns stacked)

variable (addressable : Addressable running.fn) (inside : i < Emitter.words running.fn)
  (returns : ∀ other ∈ returning, Returning other)
  (stacked : Stacked emitter program running.back callers below)
include addressable inside returns stacked

/-- A jump stays in the function or is a tail call. -/
theorem leadsTo_b (imports : machine.imported = program.imported)
    (decoded : (emitter.insn running.fn (program.code running.fn) i).opcode = some .b)
    (leads : LeadsAlike machine emitter program
      ⟨running.fn.base + 4 * i, members, world, running :: callers⟩ running i .b .displacement)
    {table table' : Option RecompilerSwitchTable} {statements : List Statement} {base : Nat}
    (printed : emitter.recompileCase running.fn base
      (emitter.insn running.fn (program.code running.fn) i) .b table = some (statements, table'))
    (lines : Emitter.LinesAt (bodyOf emitter program running.fn)
      (emitter.insn running.fn (program.code running.fn) i) first
      (lineIn emitter program running.fn (i + 1)) statements) :
    LeadsTo emitter program machine names
      ⟨members, world, ⟨bodyOf emitter program running.fn, first, before, [], locals, scratch⟩ ::
        (returning ++ below), calls⟩
      (program.step ⟨running.fn.base + 4 * i, members, world, running :: callers⟩) := by
  obtain ⟨isBranch, noLink, same, taken⟩ := unconditional_word decoded rfl rfl members
  have target := @operand_target World emitter program members world running i .b
    (running :: callers) 0 decoded rfl
  rw [step_branch isBranch]
  cases Emitter.printed_of_recompileCase printed with
  | goto within =>
      obtain ⟨labelled, aligned⟩ :=
        labelled_target addressable inside decoded rfl (by simp) within
      rw [target] at lines within labelled aligned
      rw [branch_inside taken noLink (by simp) within, same]
      refine .of_visits (visits_line lines.head) ?_
      exact leadsTo_goto addressable within labelled aligned returns stacked
  | tailCall outside =>
      rw [target] at lines outside
      obtain ⟨-, isInside⟩ | ⟨name, finds, entry⟩ := leads
      · exact absurd isInside outside
      · rw [finds.printFunctionCall] at lines
        rw [branch_outside taken noLink (by simp) outside, same]
        refine .of_visits (visits_line lines.head) ?_
        exact leadsTo_tailCall imports entry rfl (List.cons_ne_nil _ _)
          (.inr ⟨rfl, _, lines.tail.head⟩) returns stacked
  | conditional _ notJump => exact absurd rfl notJump
  | returnIf conditional => cases conditional
  | compute ordinary => cases ordinary

omit returns stacked in
/-- The link register behind the first statement of a linked branch. -/
theorem worldBehind_setLr (setLr : machine.setLr = program.setLr)
    (links : ppcBl (program.fetch (running.fn.base + 4 * i)) = true) :
    machine.setLr (uint32 (uint32 (running.fn.base + 4 * i) + 4)) world =
      program.worldBehind (program.fetch (running.fn.base + 4 * i)) (running.fn.base + 4 * i)
        world := by
  rw [GuestProgram.worldBehind, links, if_pos rfl, setLr, (addressable.uint32_word inside).1]

/-- A call goes on with the next word when the function returned. -/
theorem leadsTo_bl (imports : machine.imported = program.imported)
    (setLr : machine.setLr = program.setLr) (keepsLr : emitter.config.skipLr = false)
    (decoded : (emitter.insn running.fn (program.code running.fn) i).opcode = some .bl)
    (leads : LeadsAlike machine emitter program
      ⟨running.fn.base + 4 * i, members, world, running :: callers⟩ running i .bl .displacement)
    {table table' : Option RecompilerSwitchTable} {statements : List Statement}
    (printed : emitter.recompileCase running.fn (uint32 (running.fn.base + 4 * i))
      (emitter.insn running.fn (program.code running.fn) i) .bl table = some (statements, table'))
    (lines : Emitter.LinesAt (bodyOf emitter program running.fn)
      (emitter.insn running.fn (program.code running.fn) i) first
      (lineIn emitter program running.fn (i + 1)) statements) :
    LeadsTo emitter program machine names
      ⟨members, world, ⟨bodyOf emitter program running.fn, first, before, [], locals, scratch⟩ ::
        (returning ++ below), calls⟩
      (program.step ⟨running.fn.base + 4 * i, members, world, running :: callers⟩) := by
  obtain ⟨isBranch, links, same, taken⟩ := unconditional_word decoded rfl rfl members
  have target := @operand_target World emitter program members world running i .bl
    (running :: callers) 0 decoded rfl
  have behind := @worldBehind_setLr World Scratch program machine world running i addressable inside
    setLr links
  obtain ⟨notLinks, -⟩ | ⟨name, finds, entry⟩ := leads
  · cases notLinks
  · rw [Emitter.recompileCase, keepsLr] at printed
    obtain ⟨rfl, -⟩ := Prod.mk.inj (Option.some.inj printed)
    rw [if_neg Bool.false_ne_true, target, finds.printFunctionCall] at lines
    have last : first + 1 + 1 = lineIn emitter program running.fn (i + 1) :=
      lines.tail.tail.nil.symm
    rw [step_branch isBranch, branch_link taken links, same, ← behind]
    refine .of_visits ((visits_setLr lines.head).trans (visits_line lines.tail.head)) ?_
    rw [last]
    exact @leadsTo_call _ _ _ _ _ _ _ _ _ [] _ _ imports _ _ _ _ _ _ entry rfl
      (List.cons_ne_nil _ _) (by simp) (stacked_next addressable inside returns stacked)

/-- A call of a function that the table leads to. -/
theorem leadsTo_bctrl (imports : machine.imported = program.imported)
    (setLr : machine.setLr = program.setLr) (keepsLr : emitter.config.skipLr = false)
    (decoded : (emitter.insn running.fn (program.code running.fn) i).opcode = some .bctrl)
    (leads : LeadsAlike machine emitter program
      ⟨running.fn.base + 4 * i, members, world, running :: callers⟩ running i .bctrl .count)
    {table table' : Option RecompilerSwitchTable} {statements : List Statement}
    (printed : emitter.recompileCase running.fn (uint32 (running.fn.base + 4 * i))
      (emitter.insn running.fn (program.code running.fn) i) .bctrl table =
        some (statements, table'))
    (lines : Emitter.LinesAt (bodyOf emitter program running.fn)
      (emitter.insn running.fn (program.code running.fn) i) first
      (lineIn emitter program running.fn (i + 1)) statements) :
    LeadsTo emitter program machine names
      ⟨members, world, ⟨bodyOf emitter program running.fn, first, before, [], locals, scratch⟩ ::
        (returning ++ below), calls⟩
      (program.step ⟨running.fn.base + 4 * i, members, world, running :: callers⟩) := by
  obtain ⟨isBranch, links, same, taken⟩ := unconditional_word decoded rfl rfl members
  have behind := @worldBehind_setLr World Scratch program machine world running i addressable inside
    setLr links
  obtain ⟨-, name, lookup, entry⟩ := leads
  rw [Emitter.recompileCase, keepsLr] at printed
  obtain ⟨rfl, -⟩ := Prod.mk.inj (Option.some.inj printed)
  rw [if_neg Bool.false_ne_true] at lines
  have last : first + 1 + 1 = lineIn emitter program running.fn (i + 1) := lines.tail.tail.nil.symm
  rw [step_branch isBranch, branch_link taken links, same]
  rw [← behind] at lookup ⊢
  refine .of_visits ((visits_setLr lines.head).trans (visits_line lines.tail.head)) ?_
  rw [last]
  exact @leadsTo_call _ _ _ _ _ _ _ _ _ [] _ _ imports _ _ _ _ _ _ entry
    (step_callIndirect lookup) (List.cons_ne_nil _ _) (by simp)
    (stacked_next addressable inside returns stacked)

/-- A jump to the count register goes through the pending table, or is a tail call. -/
theorem leadsTo_bctr (imports : machine.imported = program.imported)
    (decoded : (emitter.insn running.fn (program.code running.fn) i).opcode = some .bctr)
    (leads : LeadsAlike machine emitter program
      ⟨running.fn.base + 4 * i, members, world, running :: callers⟩ running i .bctr .count)
    {table' : Option RecompilerSwitchTable} {statements : List Statement}
    (printed : emitter.recompileCase running.fn (uint32 (running.fn.base + 4 * i))
      (emitter.insn running.fn (program.code running.fn) i) .bctr
      (emitter.pending running.fn (program.code running.fn) i) = some (statements, table'))
    (lines : Emitter.LinesAt (bodyOf emitter program running.fn)
      (emitter.insn running.fn (program.code running.fn) i) first
      (lineIn emitter program running.fn (i + 1)) statements) :
    LeadsTo emitter program machine names
      ⟨members, world, ⟨bodyOf emitter program running.fn, first, before, [], locals, scratch⟩ ::
        (returning ++ below), calls⟩
      (program.step ⟨running.fn.base + 4 * i, members, world, running :: callers⟩) := by
  obtain ⟨isBranch, noLink, same, taken⟩ := unconditional_word decoded rfl rfl members
  rw [step_branch isBranch]
  rw [LeadsAlike, if_pos rfl] at leads
  cases known : emitter.pending running.fn (program.code running.fn) i with
  | some table =>
      rw [known] at leads printed
      obtain ⟨within, labels⟩ := leads
      obtain ⟨rfl, -⟩ := Prod.mk.inj (Option.some.inj printed)
      have listed := labels scratch
      have labelled := Emitter.mem_labels_of_pending inside known (List.mem_of_getElem? listed)
      have aligned : 4 ∣ program.target
          ⟨running.fn.base + 4 * i, members, world, running :: callers⟩ .count :=
        ⟨_, Nat.mul_comm _ _⟩
      rw [branch_inside taken noLink (by simp) within, same]
      have chosen := congrArg (Option.map (Emitter.printCase running.fn)) listed
      rw [← List.getElem?_map, Option.map_some, Emitter.printCase, if_neg (not_not.mpr within)]
        at chosen
      refine .of_visits (.tail (visits_line lines.head) (step_switch chosen)) ?_
      exact leadsTo_goto addressable within labelled aligned returns stacked
  | none =>
      rw [known] at leads printed
      obtain ⟨notInside, name, lookup, entry⟩ := leads
      have outside := notInside.resolve_left (by decide)
      obtain ⟨rfl, -⟩ := Prod.mk.inj (Option.some.inj printed)
      rw [GuestProgram.worldBehind, noLink] at lookup
      rw [branch_outside taken noLink (by simp) outside, same]
      refine .of_visits (visits_line lines.head) ?_
      exact leadsTo_tailCall imports entry (step_callIndirect lookup) (List.cons_ne_nil _ _)
        (.inr ⟨rfl, _, lines.tail.head⟩) returns stacked

end Unconditional

end UfcRecomp.Recompiler
