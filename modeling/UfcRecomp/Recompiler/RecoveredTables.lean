import UfcRecomp.Analyze.JumpTable
import UfcRecomp.Recompiler.ControlCases

/-!
# Recovered tables

A guest program that executes a dispatch sequence comes to the `bctr` behind it with a label of the
recovered table in the count register. A `switch` over that table leads to the same label.
-/

namespace UfcRecomp.Recompiler

open UfcRecomp.Ppc UfcRecomp.Utils UfcRecomp.Analyze UfcRecomp.Lib

universe u v

variable {World : Type u} {Scratch : Type v}

/-- The registers that a dispatch uses, of a state of the guest. -/
def dispatchState (registers : World → Nat → BitVec 64) (members : Members) (world : World) :
    DispatchState :=
  ⟨registers world, BitVec.setWidth 64 (members .ctrLow)⟩

theorem low_dispatchState {registers : World → Nat → BitVec 64} {members : Members}
    {world : World} {state : DispatchState} (r : registers world = state.r)
    (ctr : members .ctrLow = state.ctr.setWidth 32) :
    (dispatchState registers members world).low = state.low := by
  apply LowState.ext
  · funext operand
    exact congrArg (fun r => (r operand.toNat).setWidth 32) r
  · change ((members .ctrLow : BitVec 32).setWidth 64).setWidth 32 = state.ctr.setWidth 32
    rw [BitVec.setWidth_setWidth_of_le _ (by decide), ctr, BitVec.setWidth_eq]

/-- A program executes the instructions of a dispatch, which leave memory as it is. -/
def Executes (program : GuestProgram World) (memory : World → BitVec 32 → Byte)
    (registers : World → Nat → BitVec 64) : Prop :=
  ∀ insn members world next,
    (dispatchState registers members world).exec (memory world) insn = some next →
    registers (program.exec insn members world).2 = next.r ∧
      (program.exec insn members world).1 .ctrLow = next.ctr.setWidth 32 ∧
      memory (program.exec insn members world).2 = memory world

/-- An instruction of a dispatch is no branch. -/
theorem source_of_dispatchForm {id : PpcInst} {form : DispatchForm}
    (isForm : id.dispatchForm = some form) : id.source = none ∧ id ≠ .unlistedBranch := by
  cases id
  case lis | addi | rlwinm | lwzx | lbzx | lhzx | add | mtctr => exact ⟨rfl, by simp⟩
  all_goals cases isForm

section Visits

variable {program : GuestProgram World} {memory : World → BitVec 32 → Byte}
  {registers : World → Nat → BitVec 64} (executes : Executes program memory registers)
include executes

/-- A step of the guest at an instruction of a dispatch. -/
theorem step_dispatch {dis : Disassembler} {code : Insn} (dispatches : code.Dispatches dis)
    {pc : Nat} {members : Members} {world : World} {running : Activation}
    {callers : List Activation} (here : program.fetch pc = code.instruction)
    (low : pc + 4 < 2 ^ 32) :
    ∃ members' world', program.step ⟨pc, members, world, running :: callers⟩ =
        some ⟨pc + 4, members', world', running :: callers⟩ ∧
      (dispatchState registers members' world').low =
        (dispatchState registers members world).low.exec (memory world) code ∧
      memory world' = memory world ∧
      ∀ index ≠ (code.operand 0).toNat, registers world' index = registers world index := by
  obtain ⟨shifts, address, id, form, same, decoded, isForm⟩ := dispatches
  rw [same] at decoded shifts
  obtain ⟨next, ran, lowNext, keeps⟩ := low_exec (memory world) decoded isForm shifts
    (dispatchState registers members world)
  obtain ⟨ordinary, listed⟩ := source_of_dispatchForm isForm
  have notBranch : branchSource (program.fetch pc) = none := by
    rw [here, source_of_disassemble decoded listed, ordinary]
  obtain ⟨r, ctr, frame⟩ := executes code.instruction members world next ran
  refine ⟨(program.exec code.instruction members world).1,
    (program.exec code.instruction members world).2, ?_, ?_, frame, fun index apart => ?_⟩
  · rw [step_ordinary notBranch, here, uint32, Nat.mod_eq_of_lt low]
  · rw [low_dispatchState r ctr, lowNext, ← same]
  · rw [r, keeps index (same ▸ apart)]
    rfl

/-- The guest runs through the instructions of a dispatch. -/
theorem visits_dispatch {dis : Disassembler} {codes : List Insn}
    (all : ∀ code ∈ codes, code.Dispatches dis) {pc : Nat} {members : Members} {world : World}
    {running : Activation} {callers : List Activation}
    (here : ∀ c (below : c < codes.length), program.fetch (pc + 4 * c) = codes[c].instruction)
    (low : pc + 4 * codes.length < 2 ^ 32) :
    ∃ members' world', Loop.Visits program.step ⟨pc, members, world, running :: callers⟩
        ⟨pc + 4 * codes.length, members', world', running :: callers⟩ ∧
      (dispatchState registers members' world').low =
        LowState.execAll (memory world) codes (dispatchState registers members world).low ∧
      memory world' = memory world ∧
      ∀ index, (∀ code ∈ codes, index ≠ (code.operand 0).toNat) →
        registers world' index = registers world index := by
  induction codes generalizing pc members world with
  | nil => exact ⟨members, world, .refl, rfl, rfl, fun _ _ => rfl⟩
  | cons code rest ih =>
      rw [List.length_cons] at low
      obtain ⟨members', world', goes, lowStep, memoryStep, keepsStep⟩ :=
        step_dispatch executes (all code List.mem_cons_self) (here 0 (Nat.zero_lt_succ _))
          (by omega)
      obtain ⟨last, lastWorld, visits, lowRest, memoryRest, keepsRest⟩ :=
        @ih (fun other among => all other (List.mem_cons_of_mem _ among)) (pc + 4) members' world'
          (fun c below => by
            have next := here (c + 1) (Nat.succ_lt_succ below)
            rwa [show pc + 4 * (c + 1) = pc + 4 + 4 * c by omega] at next) (by omega)
      refine ⟨last, lastWorld, ?_, ?_, memoryRest.trans memoryStep, fun index apart => ?_⟩
      · rw [List.length_cons, show pc + 4 * (rest.length + 1) = pc + 4 + 4 * rest.length by omega]
        exact .head goes visits
      · rw [lowRest, lowStep, memoryStep]
        rfl
      · rw [keepsRest index fun other among => apart other (List.mem_cons_of_mem _ among),
          keepsStep index (apart code List.mem_cons_self)]

end Visits

/-! ## Tables -/

/-- A table that a run of the scan finds, at a dispatch that chains its registers, keeps the index
and ends with a `bctr`; the table and the dispatch lie in sections. -/
structure Recovered (dis : Disassembler) (image : Image) (type : SwitchType) (sec : Section)
    (position : Nat) (table : SwitchTable) : Prop where
  apart : image.Apart
  member : sec ∈ image.sections
  low : sec.base + sec.size ≤ 2 ^ 32
  visited : ∃ fuel last, Loop.run (Analyze.scanStep dis sec
    (fun word => (dis.disassemble word 0).opcode) type.pattern) fuel { data := some 0 } =
      some last ∧ position ∈ last.visited
  found : tableAt dis image sec type position = some table
  chains : type.Chains (siteInsn dis sec position) (BitVec.ofNat 32 table.r)
  keeps : ∀ c < type.length, (siteInsn dis sec position c).operand 0 ≠ BitVec.ofNat 32 table.r
  spans : Spans image
    (assembledAddress (siteInsn dis sec position 0) (siteInsn dis sec position 1))
    (type.entrySize * table.labels.length)
  inside : position + type.length < wordCount sec
  jumps : (siteInsn dis sec position type.length).opcode = some .bctr

/-- The words of a section are in the memory that the guest fetches from. -/
def Fetches (program : GuestProgram World) (sec : Section) : Prop :=
  ∀ i < wordCount sec, program.fetch (sec.base + 4 * i) = sec.word (4 * (i : Int))

section Site

variable {dis : Disassembler} {image : Image} {type : SwitchType} {sec : Section} {position : Nat}
  {table : SwitchTable} {program : GuestProgram World} {memory : World → BitVec 32 → Byte}
  {registers : World → Nat → BitVec 64}

/-- The guest comes to the `bctr` with the label of the index in the count register. -/
theorem visits_label (recovered : Recovered dis image type sec position table)
    (executes : Executes program memory registers) (fetches : Fetches program sec)
    {members : Members} {world : World} (holds : image.Holds (memory world))
    {label : Nat} (here : table.labels[(registers world table.r).toNat]? = some label)
    (running : Activation) (callers : List Activation) :
    ∃ members' world', Loop.Visits program.step
        ⟨sec.base + 4 * position, members, world, running :: callers⟩
        ⟨sec.base + 4 * position + 4 * type.length, members', world', running :: callers⟩ ∧
      BitVec.toNat (members' .ctrLow) = label ∧
      registers world' table.r = registers world table.r := by
  obtain ⟨apart, member, low, ⟨fuel, last, completed, visited⟩, found, chains, keeps, spans, inside,
    -⟩ := recovered
  obtain ⟨start, window⟩ := window_of_visited completed visited
  obtain ⟨branch, distance, guarded, -, length, -⟩ := tableAt_guarded found
  have index := toNat_register found
  have below := (List.getElem?_eq_some_iff.mp here).1
  have bound := cmplwi_bound guarded.compares.1
  have codes : ((List.range type.length).map (siteInsn dis sec position)).length = type.length := by
    rw [List.length_map, List.length_range]
  have words : ∀ c (small : c < ((List.range type.length).map (siteInsn dis sec position)).length),
      program.fetch (sec.base + 4 * position + 4 * c) =
        ((List.range type.length).map (siteInsn dis sec position))[c].instruction := by
    intro c small
    rw [codes] at small
    rw [List.getElem_map, List.getElem_range, show sec.base + 4 * position + 4 * c =
      sec.base + 4 * (position + c) by omega, fetches (position + c) (by omega)]
    exact (instruction_disassemble _ _ _).symm
  have fits : sec.base + 4 * position + 4 * type.length < 2 ^ 32 := by
    unfold wordCount at inside
    omega
  obtain ⟨members', world', visits, lowBehind, -, kept⟩ := visits_dispatch executes
    (dispatches_of_window window chains.shifts) words (by rw [codes]; exact fits)
  rw [codes] at visits
  refine ⟨members', world', visits, ?_, kept table.r ?_⟩
  · -- The index has no bits above the bound.
    have selected : ((dispatchState registers members world).low.r
        (BitVec.ofNat 32 table.r)).toNat = (registers world table.r).toNat := by
      have small : (registers world table.r).toNat < 2 ^ 32 := by omega
      rw [← DispatchState.low_r index, BitVec.toNat_setWidth]
      exact Nat.mod_eq_of_lt small
    have ctr := tableAt_leads apart holds member start window found chains spans
      (dispatchState registers members world).low (by rw [selected]; exact here)
    rw [← lowBehind] at ctr
    rw [← ctr]
    change _ = (((members' .ctrLow : BitVec 32).setWidth 64).setWidth 32).toNat
    rw [BitVec.setWidth_setWidth_of_le _ (by decide), BitVec.setWidth_eq]
  · intro code among same
    obtain ⟨c, small, rfl⟩ := List.mem_map.mp among
    exact keeps c (List.mem_range.mp small) (BitVec.eq_of_toNat_eq (same.symm.trans index.symm))

end Site

/-- When the index is within the bound, the guest runs from the dispatch to the label of the table
at that index, and the `switch` that is printed over the table leads there as well. -/
theorem recovered_table (dis : Disassembler) (image : Image) (type : SwitchType) {sec : Section}
    {position : Nat} {table : SwitchTable} (recovered : Recovered dis image type sec position table)
    (program : GuestProgram World) (memory : World → BitVec 32 → Byte)
    (registers : World → Nat → BitVec 64) (executes : Executes program memory registers)
    (fetches : Fetches program sec) (machine : Machine World Scratch)
    (selects : ∀ index scratch world, machine.gpr index scratch world = registers world index)
    (emitter : Emitter) (members : Members) (world : World)
    (holds : image.Holds (memory world)) (running : Activation) (callers : List Activation)
    (bounded : (registers world table.r).toNat < table.labels.length)
    (labels : ∀ label ∈ table.labels, 4 ∣ label ∧ Inside running.fn label) (i : Nat)
    (pending : emitter.pending running.fn (program.code running.fn) i =
      some ⟨table.r, table.labels⟩) :
    ∃ members' world' label,
      table.labels[(registers world table.r).toNat]? = some label ∧
      Loop.Visits program.step ⟨sec.base + 4 * position, members, world, running :: callers⟩
        ⟨sec.base + 4 * position + 4 * type.length, members', world', running :: callers⟩ ∧
      program.step ⟨sec.base + 4 * position + 4 * type.length, members', world',
        running :: callers⟩ = some ⟨label, members', world', running :: callers⟩ ∧
      LeadsAlike machine emitter program
        ⟨sec.base + 4 * position + 4 * type.length, members', world', running :: callers⟩
        running i .bctr .count := by
  obtain ⟨label, here⟩ : ∃ label, table.labels[(registers world table.r).toNat]? = some label :=
    ⟨_, List.getElem?_eq_getElem bounded⟩
  obtain ⟨aligned, inside⟩ := labels label (List.mem_of_getElem? here)
  obtain ⟨members', world', visits, ctr, kept⟩ :=
    @visits_label World dis image type sec position table program memory registers recovered
      executes fetches members world holds label here running callers
  have target : program.target ⟨sec.base + 4 * position + 4 * type.length, members', world',
      running :: callers⟩ .count = label := by
    change BitVec.toNat (members' .ctrLow) / 4 * 4 = label
    rw [ctr, Nat.div_mul_cancel aligned]
  have word : program.fetch (sec.base + 4 * position + 4 * type.length) =
      sec.word (4 * ((position + type.length : Nat) : Int)) := by
    rw [← fetches _ recovered.inside]
    congr 1
    omega
  have decoded : (dis.disassemble (program.fetch (sec.base + 4 * position + 4 * type.length))
      (sec.base + 4 * position + 4 * type.length)).opcode = some .bctr := by
    rw [word]
    exact recovered.jumps
  refine ⟨members', world', label, here, visits, ?_, ?_⟩
  · obtain ⟨stays, taken⟩ := unconditional_of_disassemble decoded rfl rfl (branchState members')
    have branches := source_of_disassemble decoded (by simp)
    rw [step_branch branches, branch_inside taken (links_of_disassemble decoded rfl) (by simp)
      (by rw [target]; exact inside), target, membersBehind, stays]
    rfl
  · rw [LeadsAlike, if_pos rfl, pending, target]
    refine ⟨inside, fun scratch => ?_⟩
    rw [selects, kept]
    exact here

/-! ## A dispatch between two labels -/

def dispatchFunction : Function := { base := 0x10000000, size := 0x4C }

/-- A program whose registers are its world. -/
def dispatchProgram : GuestProgram (Nat → BitVec 64) where
  fetch address := dispatchSection.word ((address : Int) - 0x10000000)
  entry _ := none
  functions _ := none
  imported _ _ := none
  exec insn members world :=
    match (dispatchState id members world).exec dispatchMemory insn with
    | some next => (Function.update members .ctrLow (next.ctr.setWidth 32), next.r)
    | none => (members, world)
  lr _ := 0
  setLr _ world := world
  starts _ none := nomatch none
  fits none := nomatch none

theorem dispatch_executes : Executes dispatchProgram (fun _ => dispatchMemory) id := by
  intro insn members world next ran
  have exec : dispatchProgram.exec insn members world =
      (Function.update members .ctrLow (next.ctr.setWidth 32), next.r) := by
    rw [dispatchProgram]
    dsimp only
    rw [ran]
  rw [exec]
  exact ⟨rfl, Function.update_self Member.ctrLow _ members, rfl⟩

theorem dispatch_fetches : Fetches dispatchProgram dispatchSection := by
  intro i _
  change dispatchSection.word (((0x10000000 + 4 * i : Nat) : Int) - 0x10000000) = _
  congr 1
  omega

def dispatchMachine : Machine (Nat → BitVec 64) Unit where
  fresh := ()
  gpr index _ world := world index
  setLr _ world := world
  lookup _ _ := none
  imported _ _ := none
  hook _ _ members _ world := (members, (), world, false)
  compute _ _ members _ world := (members, (), world)

/-- The table is keyed at the first instruction of the dispatch. -/
def dispatchEmitter : Emitter where
  dis := rowsOnly
  config := tableConfig 0x10000008 ⟨11, [0x10000044, 0x10000048]⟩
  symbols := .empty
  hasCase _ := true

theorem recovered_table_dispatch : ∃ members' world',
    Loop.Visits dispatchProgram.step
        ⟨0x10000008, fun _ => 0, fun _ => 1, [⟨dispatchFunction, 0⟩]⟩
        ⟨0x10000048, members', world', [⟨dispatchFunction, 0⟩]⟩ ∧
      LeadsAlike dispatchMachine dispatchEmitter dispatchProgram
        ⟨0x1000001C, members', world', [⟨dispatchFunction, 0⟩]⟩ ⟨dispatchFunction, 0⟩ 7 .bctr
        .count := by
  obtain ⟨table, found, register, labels⟩ := dispatch_found
  have pending : dispatchEmitter.pending dispatchFunction
      (dispatchProgram.code dispatchFunction) 7 =
        some ⟨11, [0x10000044, 0x10000048]⟩ := by decide +kernel
  have recovered : Recovered rowsOnly dispatchImage .absolute dispatchSection 2 table := by
    refine ⟨List.pairwise_singleton _ _, List.mem_singleton_self _, by decide, dispatch_visited,
      found, ?_, ?_, ?_, by decide, by decide +kernel⟩
    · rw [register]
      exact dispatch_chains
    · rw [register]
      decide +kernel
    · rw [labels]
      exact dispatch_spans
  obtain ⟨members', world', label, here, visits, goes, leads⟩ :=
    recovered_table rowsOnly dispatchImage .absolute recovered dispatchProgram
      (fun _ => dispatchMemory) id dispatch_executes dispatch_fetches dispatchMachine
      (fun _ _ _ => rfl) dispatchEmitter (fun _ => 0) (fun _ => 1) dispatch_holds
      ⟨dispatchFunction, 0⟩ [] (by rw [labels]; exact Nat.one_lt_two) (by rw [labels]; decide) 7
      (by rw [register, labels]; exact pending)
  obtain rfl : 0x10000048 = label := by
    rw [labels] at here
    exact Option.some.inj here
  exact ⟨members', world', .tail visits goes, leads⟩

end UfcRecomp.Recompiler
