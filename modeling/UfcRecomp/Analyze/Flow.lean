import UfcRecomp.Analyze.Function

/-!
# What one pass of the analysis does

The analysis classifies each word by where control goes from it. A pass leaves its
block at a projection, takes a word and goes on, or takes a word that ends the block
and opens new ones. `Pass` says so once; every invariant of the loop is proved from it.
-/

namespace UfcRecomp.Analyze

open UfcRecomp.Ppc UfcRecomp.Lib

/-- Where control goes from a word, as the analysis classifies it. Displacements are in bytes. -/
inductive Flow where
  | next
  | branch (displacement : Int)
  | jump (displacement : Int)
  | conditionalReturn
  | stop
  deriving DecidableEq, Repr

/-- Whether the disassembler knows a word. -/
def decodes (dis : Disassembler) (instruction : Word) : Bool :=
  (dis.disassemble instruction 0).opcode.isSome

/-- A disassembler that knows every word. -/
def everyWord : Disassembler := ⟨fun _ => true, fun _ => some (0, [])⟩

/-- The classification of a word. -/
def flow (dis : Disassembler) (instruction : Word) : Flow :=
  if ppcOp instruction = ppcOpBc then
    if ppcBl instruction then .next else .branch (ppcBd instruction)
  else if ppcOp instruction = ppcOpB then
    if ppcBl instruction then .next else .jump (ppcBi instruction)
  else if instruction = 0 then
    .stop
  else if ppcOp instruction = ppcOpCtr ∧ (ppcXop instruction = 16 ∨ ppcXop instruction = 528) then
    if ppcBl instruction then .next
    else if ppcBo instruction &&& 0x10 = 0 then .conditionalReturn
    else .stop
  else if decodes dis instruction then
    .next
  else
    .stop

/-- Whether the analysis goes on with the next word. -/
def Flow.fallsThrough : Flow → Bool
  | .next | .branch _ | .conditionalReturn => true
  | .jump _ | .stop => false

/-- Which instruction a word is does not depend on its address. -/
theorem disassemble_opcode (dis : Disassembler) (instruction : Word) (address other : Nat) :
    (dis.disassemble instruction address).opcode = (dis.disassemble instruction other).opcode := by
  unfold Disassembler.disassemble
  cases powerpcOpcodes.find? fun row => row.Matches instruction with
  | some row => rfl
  | none => rfl

/-- Displacements reach at most 32 MiB and keep the alignment. -/
theorem branch_displacement {dis : Disassembler} {instruction : Word} {displacement : Int}
    (flows : flow dis instruction = .branch displacement) :
    4 ∣ displacement ∧ -2 ^ 25 ≤ displacement ∧ displacement < 2 ^ 25 := by
  have aligned := ppcBd_dvd instruction
  have bounds := ppcBd_bounds instruction
  unfold flow at flows
  split_ifs at flows
  obtain rfl := Flow.branch.inj flows
  omega

@[inherit_doc branch_displacement]
theorem jump_displacement {dis : Disassembler} {instruction : Word} {displacement : Int}
    (flows : flow dis instruction = .jump displacement) :
    4 ∣ displacement ∧ -2 ^ 25 ≤ displacement ∧ displacement < 2 ^ 25 := by
  have aligned := ppcBi_dvd instruction
  have bounds := ppcBi_bounds instruction
  unfold flow at flows
  split_ifs at flows
  obtain rfl := Flow.jump.inj flows
  omega

/-- The words that control can come to from word `position`. A jump to an address below the
function is a tail call. -/
def CodeBuffer.Succ (dis : Disassembler) (buffer : CodeBuffer) (position next : Int) : Prop :=
  match flow dis (buffer.code position) with
  | .next | .conditionalReturn => next = position + 1
  | .branch displacement => next = position + 1 ∨ 4 * next = 4 * position + displacement
  | .jump displacement =>
    4 * next = 4 * position + displacement ∧
      buffer.base ≤ sizeT (buffer.base + 4 * position + displacement)
  | .stop => False

/-- The words that control can come to from word 0. -/
inductive CodeBuffer.Reach (dis : Disassembler) (buffer : CodeBuffer) : Int → Prop where
  | start : Reach dis buffer 0
  | step {position next} (prior : Reach dis buffer position)
      (inRange : 4 * position ≤ buffer.size) (succ : buffer.Succ dis position next) :
      Reach dis buffer next

/-! ## Values of `size_t` -/

theorem sizeT_lt (value : Int) : sizeT value < 2 ^ 64 := by
  unfold sizeT
  omega

/-- A value in range is itself. -/
theorem sizeT_eq {value : Int} (low : 0 ≤ value) (high : value < 2 ^ 64) :
    (sizeT value : Int) = value := by
  unfold sizeT
  omega

/-- Wrapping twice is wrapping once. -/
theorem sizeT_congr {left right : Int} (same : left % 2 ^ 64 = right % 2 ^ 64) :
    sizeT left = sizeT right := by
  unfold sizeT
  rw [same]

/-! ## One pass -/

/-- A block that has taken one more word. -/
def Block.grow (block : Block) : Block := { block with size := sizeT (block.size + 4) }

/-- Whether a block has come to the start of the block it was projected to. -/
def Block.Reached (block : Block) : Prop :=
  block.projectedSize ≠ npos ∧ block.projectedSize ≤ block.size

/-- A block that took its last word; both paths of a conditional branch drop the projection. -/
def Block.close (block : Block) : Flow → Block
  | .branch _ => { block with projectedSize := npos }
  | _ => block

/-- The block on top of the stack of `state`. -/
def AnalyzeState.current (state : AnalyzeState) (top : Nat) : Block := state.blocks.getD top {}

/-- The state after the blocks `fresh` were opened and the loop went on with the top block. -/
def AnalyzeState.resume (blocks fresh : List Block) (rest : List Nat) (data : Int) :
    AnalyzeState :=
  let state : AnalyzeState := {
    blocks := blocks ++ fresh
    blockStack := (List.range' blocks.length fresh.length).reverse ++ rest
    data }
  { state.restoreData with data := state.restoreData.data + 1 }

namespace CodeBuffer

variable (dis : Disassembler) (buffer : CodeBuffer)

/-- The projection of a block that an immediate branch opens. -/
def projection (curBlock : Block) (position displacement : Int) : Nat :=
  if curBlock.projectedSize ≠ npos ∧ sizeT (4 * position + displacement) = curBlock.stop then
    sizeT (curBlock.projectedSize - curBlock.size)
  else
    npos

/-- The blocks that the last word of `curBlock` opens, given the blocks there are. -/
def opened (blocks : List Block) (curBlock : Block) (position : Int) : Flow → List Block
  | .next | .stop => []
  | .conditionalReturn =>
    if searchBlock buffer.base blocks (sizeT (4 * position + 4)) = none then
      [⟨sizeT (4 * position + 4), 0, npos⟩]
    else []
  | .jump displacement =>
    let target := sizeT (buffer.base + 4 * position + displacement)
    if buffer.base ≤ target ∧ searchBlock buffer.base blocks target = none then
      [⟨sizeT (4 * position + displacement), 0, projection curBlock position displacement⟩]
    else []
  | .branch displacement =>
    let left :=
      if searchBlock buffer.base blocks (sizeT (buffer.base + 4 * position + 4)) = none then
        [⟨sizeT (4 * position + 4), 0, sizeT (displacement - 4)⟩]
      else []
    let right :=
      if searchBlock buffer.base (blocks ++ left)
          (sizeT (buffer.base + 4 * position + displacement)) = none then
        [⟨sizeT (4 * position + displacement), 0, npos⟩]
      else []
    left ++ right

/-- The effect of one pass. -/
inductive Pass (state : AnalyzeState) : AnalyzeState → Prop where
  /-- The block has come to its projection. -/
  | projected {top rest} (inRange : 4 * state.data ≤ buffer.size)
      (stack : state.blockStack = top :: rest) (reached : (state.current top).Reached) :
      Pass state (.resume state.blocks [] rest state.data)
  /-- The block goes on behind the word. -/
  | advance {top rest} (inRange : 4 * state.data ≤ buffer.size)
      (stack : state.blockStack = top :: rest) (running : ¬(state.current top).Reached)
      (flows : flow dis (buffer.code state.data) = .next) :
      Pass state {
        blocks := state.blocks.set top (state.current top).grow
        blockStack := state.blockStack
        data := state.data + 1 }
  /-- The block ends with the word. -/
  | turn {top rest kind blocks} (inRange : 4 * state.data ≤ buffer.size)
      (stack : state.blockStack = top :: rest) (running : ¬(state.current top).Reached)
      (flows : flow dis (buffer.code state.data) = kind) (ends : kind ≠ .next)
      (closed : blocks = state.blocks.set top ((state.current top).grow.close kind)) :
      Pass state (.resume blocks
        (buffer.opened blocks (state.current top).grow state.data kind) rest state.data)

variable {dis buffer}

private theorem conditionalBranch_eq {state : AnalyzeState} {address : Nat} {instruction : Word}
    {position : Int} (here : address = sizeT (buffer.base + 4 * position)) (curBlock : Block) :
    buffer.conditionalBranch address instruction state =
      let fresh := buffer.opened state.blocks curBlock position (.branch (ppcBd instruction))
      AnalyzeState.restoreData {
        blocks := state.blocks ++ fresh
        blockStack := (List.range' state.blocks.length fresh.length).reverse ++ state.blockStack
        data := state.data } := by
  have leftBase : sizeT (address - buffer.base + 4) = sizeT (4 * position + 4) := by
    unfold sizeT at *; omega
  have rightBase : sizeT (address + ppcBd instruction - buffer.base) =
      sizeT (4 * position + ppcBd instruction) := by
    unfold sizeT at *; omega
  have destBase : sizeT (sizeT (address + ppcBd instruction) - buffer.base) =
      sizeT (4 * position + ppcBd instruction) := by
    unfold sizeT at *; omega
  have left : sizeT (buffer.base + sizeT (4 * position + 4)) =
      sizeT (buffer.base + 4 * position + 4) := by
    unfold sizeT; omega
  have right : sizeT (buffer.base + sizeT (4 * position + ppcBd instruction)) =
      sizeT (buffer.base + 4 * position + ppcBd instruction) := by
    unfold sizeT; omega
  have width : sizeT (sizeT (4 * position + ppcBd instruction) - sizeT (4 * position + 4)) =
      sizeT (ppcBd instruction - 4) := by
    unfold sizeT; omega
  simp only [conditionalBranch, opened, leftBase, rightBase, destBase, left, right, width]
  cases lookLeft : searchBlock buffer.base state.blocks
      (sizeT (buffer.base + 4 * position + 4)) with
  | none =>
      simp only [AnalyzeState.emplaceBlock, if_pos]
      cases lookRight : searchBlock buffer.base
          (state.blocks ++ [⟨sizeT (4 * position + 4), 0, sizeT (ppcBd instruction - 4)⟩])
          (sizeT (buffer.base + 4 * position + ppcBd instruction)) with
      | none => simp [List.range'_succ]
      | some index => simp [List.range'_succ]
  | some index =>
      simp only [reduceCtorEq, if_false, List.append_nil, List.nil_append]
      cases lookRight : searchBlock buffer.base state.blocks
          (sizeT (buffer.base + 4 * position + ppcBd instruction)) with
      | none => simp [AnalyzeState.emplaceBlock]
      | some index => simp

private theorem immediateBranch_eq {state : AnalyzeState} {address : Nat} {instruction : Word}
    {position : Int} (here : address = sizeT (buffer.base + 4 * position)) (curBlock : Block) :
    buffer.immediateBranch address instruction curBlock state =
      let fresh := buffer.opened state.blocks curBlock position (.jump (ppcBi instruction))
      AnalyzeState.restoreData {
        blocks := state.blocks ++ fresh
        blockStack := (List.range' state.blocks.length fresh.length).reverse ++ state.blockStack
        data := state.data } := by
  have dest : sizeT (address + ppcBi instruction) =
      sizeT (buffer.base + 4 * position + ppcBi instruction) := by
    unfold sizeT at *; omega
  have destBase : sizeT (sizeT (buffer.base + 4 * position + ppcBi instruction) - buffer.base) =
      sizeT (4 * position + ppcBi instruction) := by
    unfold sizeT; omega
  simp only [immediateBranch, opened, projection, dest, destBase]
  by_cases below : sizeT (buffer.base + 4 * position + ppcBi instruction) < buffer.base
  · simp [below, Nat.not_le.mpr below]
  · cases look : searchBlock buffer.base state.blocks
        (sizeT (buffer.base + 4 * position + ppcBi instruction)) with
    | none => simp [below, Nat.not_lt.mp below, AnalyzeState.emplaceBlock]
    | some index => simp [below]

private theorem conditionalReturn_eq {state : AnalyzeState} {address : Nat} {position : Int}
    (here : address = sizeT (buffer.base + 4 * position)) (curBlock : Block) :
    buffer.conditionalReturn address state =
      let fresh := buffer.opened state.blocks curBlock position .conditionalReturn
      AnalyzeState.restoreData {
        blocks := state.blocks ++ fresh
        blockStack := (List.range' state.blocks.length fresh.length).reverse ++ state.blockStack
        data := state.data } := by
  have leftBase : sizeT (address - buffer.base + 4) = sizeT (4 * position + 4) := by
    unfold sizeT at *; omega
  simp only [conditionalReturn, opened, leftBase]
  cases look : searchBlock buffer.base state.blocks (sizeT (4 * position + 4)) with
  | none => simp [AnalyzeState.emplaceBlock]
  | some index => simp

/-- A word that ends its block: the block is popped and the opened blocks are pushed. -/
private def ended (buffer : CodeBuffer) (state : AnalyzeState) (top : Nat) (rest : List Nat)
    (kind : Flow) : AnalyzeState :=
  let blocks := state.blocks.set top ((state.current top).grow.close kind)
  let fresh := buffer.opened blocks (state.current top).grow state.data kind
  AnalyzeState.restoreData {
    blocks := blocks ++ fresh
    blockStack := (List.range' blocks.length fresh.length).reverse ++ rest
    data := state.data }

private theorem ended_stop {state : AnalyzeState} {top : Nat} {rest : List Nat}
    (stack : state.blockStack = top :: rest) :
    ended buffer state top rest .stop =
      ({ state with blocks := state.blocks.set top { state.blocks.getD top {} with
          size := sizeT ((state.blocks.getD top {}).size + 4) } } :
        AnalyzeState).popBlock.restoreData := by
  simp [ended, opened, Block.close, Block.grow, AnalyzeState.current, AnalyzeState.popBlock, stack]

/-- The loop body goes by the classification of its word. -/
private theorem analyzeWord_eq {state : AnalyzeState} {top : Nat} {rest : List Nat}
    (stack : state.blockStack = top :: rest) (running : ¬(state.current top).Reached) :
    buffer.analyzeWord dis top state =
      if flow dis (buffer.code state.data) = .next then
        { state with blocks := state.blocks.set top (state.current top).grow }
      else
        ended buffer state top rest (flow dis (buffer.code state.data)) := by
  have decoding : decodes dis (buffer.code state.data) =
      !(dis.disassemble (buffer.code state.data)
        (sizeT (buffer.base + 4 * state.data))).opcode.isNone := by
    rw [decodes, disassemble_opcode dis _ 0 (sizeT (buffer.base + 4 * state.data)),
      Option.not_isNone]
  refine (if_neg running).trans ?_
  unfold flow
  generalize buffer.code state.data = instruction at decoding ⊢
  by_cases isBc : ppcOp instruction = ppcOpBc
  · by_cases isLink : ppcBl instruction = true
    · simp [isBc, isLink, Block.grow, AnalyzeState.current]
    · simp only [isBc, isLink, if_true, reduceCtorEq]
      refine (conditionalBranch_eq rfl (state.current top).grow).trans ?_
      simp [ended, AnalyzeState.popBlock, stack, Block.close, Block.grow, AnalyzeState.current]
  · by_cases isB : ppcOp instruction = ppcOpB
    · by_cases isLink : ppcBl instruction = true
      · simp [isB, isLink, Block.grow, AnalyzeState.current, ppcOpB, ppcOpBc]
      · have notBc : ppcOpB ≠ ppcOpBc := by decide
        simp only [isB, isLink, notBc, if_true, if_false, true_or, reduceCtorEq]
        refine (immediateBranch_eq rfl (state.current top).grow).trans ?_
        simp [ended, AnalyzeState.popBlock, stack, Block.close, Block.grow, AnalyzeState.current]
    · by_cases isZero : instruction = 0
      · have zeroOp : ppcOp 0#32 = 0 := by decide
        have zeroLink : ppcBl 0#32 = false := by decide
        simp [isZero, zeroOp, zeroLink, ended_stop, stack, ppcOpBc, ppcOpB, ppcOpCtr]
      · by_cases isReturn : ppcOp instruction = ppcOpCtr ∧
            (ppcXop instruction = 16 ∨ ppcXop instruction = 528)
        · have notBc : ppcOpCtr ≠ ppcOpBc := by decide
          have notB : ppcOpCtr ≠ ppcOpB := by decide
          simp only [isZero, isReturn, notBc, notB, if_false, if_true, false_or, and_self,
            true_and]
          by_cases isLink : ppcBl instruction = true
          · simp [isLink, Block.grow, AnalyzeState.current]
          · by_cases conditional : ppcBo instruction &&& 0x10 = 0
            · simp only [isLink, conditional, if_true, reduceCtorEq]
              refine (conditionalReturn_eq rfl (state.current top).grow).trans ?_
              simp [ended, AnalyzeState.popBlock, stack, Block.close, Block.grow,
                AnalyzeState.current]
            · simp [isLink, conditional, ended_stop, stack]
        · simp only [isBc, isB, isZero, isReturn, decoding, if_false, false_or]
          cases known : (dis.disassemble instruction
              (sizeT (buffer.base + 4 * state.data))).opcode.isNone with
          | true => simp [ended_stop, stack]
          | false => simp [Block.grow, AnalyzeState.current]

/-- Every pass of the loop has one of the three effects. -/
theorem pass_of_step {state next : AnalyzeState}
    (step : buffer.analyzeStep dis state = some next) : buffer.Pass dis state next := by
  unfold analyzeStep at step
  split_ifs at step with inRange
  cases stack : state.blockStack with
  | nil => simp [stack] at step
  | cons top rest =>
      simp only [stack, Option.some.injEq] at step
      by_cases reached : (state.current top).Reached
      · have leaves : buffer.analyzeWord dis top state = state.popBlock.restoreData :=
          if_pos reached
        have next_eq : next = .resume state.blocks [] rest state.data := by
          rw [← step, leaves]
          simp [AnalyzeState.resume, AnalyzeState.popBlock, stack]
        rw [next_eq]
        exact .projected inRange stack reached
      · rw [analyzeWord_eq stack reached] at step
        by_cases goesOn : flow dis (buffer.code state.data) = .next
        · rw [if_pos goesOn] at step
          rw [← step]
          exact .advance inRange stack reached goesOn
        · rw [if_neg goesOn] at step
          rw [← step]
          exact .turn inRange stack reached rfl goesOn rfl

/-- A word that ends its block is worked off in one pass. -/
theorem step_of_turn {state : AnalyzeState} {top : Nat} {rest : List Nat} {kind : Flow}
    (inRange : 4 * state.data ≤ buffer.size) (stack : state.blockStack = top :: rest)
    (running : ¬(state.current top).Reached) (flows : flow dis (buffer.code state.data) = kind)
    (ends : kind ≠ .next) :
    let blocks := state.blocks.set top ((state.current top).grow.close kind)
    buffer.analyzeStep dis state = some (.resume blocks
      (buffer.opened blocks (state.current top).grow state.data kind) rest state.data) := by
  simp only [analyzeStep, if_pos inRange, stack]
  rw [analyzeWord_eq stack running, flows, if_neg ends]
  rfl

end CodeBuffer

end UfcRecomp.Analyze
