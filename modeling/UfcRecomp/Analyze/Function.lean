import UfcRecomp.Lib.Loop
import UfcRecomp.Lib.Sorted
import UfcRecomp.Ppc.Disasm

/-!
# Function boundary analysis

`Function::SearchBlock` and `Function::Analyze`. A `size_t` is a natural number
below `2 ^ 64`: an expression is computed over the integers and wrapped by
`sizeT`. A pointer into the code is the index of its word, counted from `code`;
words in front of `code` have negative indices. The program is built without
assertions.
-/

namespace UfcRecomp.Analyze

open UfcRecomp.Ppc UfcRecomp.Lib

/-- The `size_t` that an expression evaluates to. -/
def sizeT (value : Int) : Nat := (value % 2 ^ 64).toNat

/-- `static_cast<size_t>(-1)`. -/
def npos : Nat := 2 ^ 64 - 1

/-- A run of words that is entered at its first word; positions are relative to the function. -/
structure Block where
  base : Nat := 0
  size : Nat := 0
  projectedSize : Nat := npos
  deriving DecidableEq, Repr

/-- `base + size` of a block. -/
def Block.stop (block : Block) : Nat := sizeT (block.base + block.size)

/-- A function with the blocks that its analysis kept. -/
structure Function where
  base : Nat
  size : Nat
  blocks : List Block := []
  deriving DecidableEq, Repr

/-- The arguments of `Function::Analyze`. Guest addresses and section sizes have 32 bits, so
that the buffer lies far below the end of the `size_t` range. -/
structure CodeBuffer where
  /-- The words around `code`, in host order. -/
  code : Int → Word
  /-- The length of the buffer in bytes. -/
  size : Nat
  /-- The guest address of word 0. -/
  base : Nat
  fits : base + size < 2 ^ 62

/-- Two words where images usually are. -/
theorem twoWords_fits : 0x82000000 + 8 < 2 ^ 62 := by decide

/-- Four words there. -/
theorem fourWords_fits : 0x82000000 + 16 < 2 ^ 62 := by decide

/-- Whether `SearchBlock` finds an address in a block. A block without words is fresh and
holds its own start. -/
def Block.Holds (base address : Nat) (block : Block) : Prop :=
  let first := sizeT (base + block.base)
  let last := sizeT (first + block.size)
  if first ≠ last then first ≤ address ∧ address < last else address = first

instance (base address : Nat) (block : Block) : Decidable (block.Holds base address) := by
  unfold Block.Holds
  exact inferInstance

/-- `Function::SearchBlock`; `none` is the result `-1`. -/
def searchBlock (base : Nat) (blocks : List Block) (address : Nat) : Option Nat :=
  if address < base then none else blocks.findIdx? fun block => block.Holds base address

/-- The variables of the analysis loop; the top of the stack comes first. -/
structure AnalyzeState where
  blocks : List Block := [{}]
  blockStack : List Nat := [0]
  data : Int := 0
  deriving DecidableEq, Repr

/-- The word index of `dataStart + offset`, for an offset that was divided by four as an
unsigned number. -/
def pointerIndex (offset : Nat) : Int :=
  if offset < 2 ^ 61 then offset else offset - 2 ^ 62

namespace AnalyzeState

/-- `RESTORE_DATA`: go to the word in front of the end of the top block. -/
def restoreData (state : AnalyzeState) : AnalyzeState :=
  match state.blockStack with
  | [] => state
  | top :: _ =>
    { state with data := pointerIndex ((state.blocks.getD top {}).stop / 4) - 1 }

/-- Append a block and push its index. -/
def emplaceBlock (state : AnalyzeState) (block : Block) : AnalyzeState :=
  { state with
    blocks := state.blocks ++ [block]
    blockStack := state.blocks.length :: state.blockStack }

/-- Pop the block stack. -/
def popBlock (state : AnalyzeState) : AnalyzeState :=
  { state with blockStack := state.blockStack.tail }

end AnalyzeState

namespace CodeBuffer

variable (dis : Disassembler) (buffer : CodeBuffer)

/-- Both paths of a conditional branch, after its block was popped. -/
def conditionalBranch (addr : Nat) (instruction : Word) (state : AnalyzeState) : AnalyzeState :=
  let branchDest := sizeT (addr + ppcBd instruction)
  let lBase := sizeT (addr - buffer.base + 4)
  let rBase := sizeT (addr + ppcBd instruction - buffer.base)
  let state :=
    match searchBlock buffer.base state.blocks (sizeT (buffer.base + lBase)) with
    | none => state.emplaceBlock ⟨lBase, 0, sizeT (rBase - lBase)⟩
    | some _ => state
  let state :=
    match searchBlock buffer.base state.blocks (sizeT (buffer.base + rBase)) with
    | none => state.emplaceBlock ⟨sizeT (branchDest - buffer.base), 0, npos⟩
    | some _ => state
  state.restoreData

/-- The target of an immediate branch, after its block `curBlock` was popped. -/
def immediateBranch (addr : Nat) (instruction : Word) (curBlock : Block)
    (state : AnalyzeState) : AnalyzeState :=
  let branchDest := sizeT (addr + ppcBi instruction)
  let branchBase := sizeT (branchDest - buffer.base)
  if branchDest < buffer.base then
    state.restoreData
  else
    let isContinuous := branchBase = curBlock.stop
    let sizeProjection :=
      if curBlock.projectedSize ≠ npos ∧ isContinuous then
        sizeT (curBlock.projectedSize - curBlock.size)
      else
        npos
    match searchBlock buffer.base state.blocks branchDest with
    | none => (state.emplaceBlock ⟨branchBase, 0, sizeProjection⟩).restoreData
    | some _ => state.restoreData

/-- The path that does not return, after the block of a conditional return was popped. The
position is looked up as if it were an address. -/
def conditionalReturn (addr : Nat) (state : AnalyzeState) : AnalyzeState :=
  let lBase := sizeT (addr - buffer.base + 4)
  match searchBlock buffer.base state.blocks lBase with
  | none => (state.emplaceBlock ⟨lBase, 0, npos⟩).restoreData
  | some _ => state.restoreData

/-- The body of the loop for the block on top of the stack. -/
def analyzeWord (top : Nat) (state : AnalyzeState) : AnalyzeState :=
  let addr := sizeT (buffer.base + 4 * state.data)
  let curBlock := state.blocks.getD top {}
  let instruction := buffer.code state.data
  let op := ppcOp instruction
  let xop := ppcXop instruction
  let isLink := ppcBl instruction
  if curBlock.projectedSize ≠ npos ∧ curBlock.projectedSize ≤ curBlock.size then
    state.popBlock.restoreData
  else
    let curBlock := { curBlock with size := sizeT (curBlock.size + 4) }
    let state := { state with blocks := state.blocks.set top curBlock }
    if op = ppcOpBc then
      if isLink then
        state
      else
        let curBlock := { curBlock with projectedSize := npos }
        let state := { state with blocks := state.blocks.set top curBlock }
        buffer.conditionalBranch addr instruction state.popBlock
    else if op = ppcOpB ∨ instruction = 0 ∨ (op = ppcOpCtr ∧ (xop = 16 ∨ xop = 528)) then
      if isLink then
        state
      else if op = ppcOpB then
        buffer.immediateBranch addr instruction curBlock state.popBlock
      else if op = ppcOpCtr ∧ ppcBo instruction &&& 0x10 = 0 then
        buffer.conditionalReturn addr state.popBlock
      else
        state.popBlock.restoreData
    else if (dis.disassemble instruction addr).opcode.isNone then
      state.popBlock.restoreData
    else
      state

/-- One pass of the loop, `none` when it ends. -/
def analyzeStep (state : AnalyzeState) : Option AnalyzeState :=
  if 4 * state.data ≤ buffer.size then
    match state.blockStack with
    | [] => none
    | top :: _ =>
      let next := buffer.analyzeWord dis top state
      some { next with data := next.data + 1 }
  else
    none

/-- Sort, drop everything behind the first gap between neighbours and take the furthest end. -/
def analyzeBlocks (sorter : Sorted.Sorter Block.base) (blocks : List Block) : Function :=
  let blocks :=
    if 1 < blocks.length then Sorted.contiguous Block.base Block.stop (sorter.sort blocks)
    else blocks
  { base := buffer.base
    size := blocks.foldl (fun size block => max size block.stop) 0
    blocks }

/-- `Function::Analyze`, with a bound on the passes of its loop; `none` means that the bound
was too small. -/
def analyze (sorter : Sorted.Sorter Block.base) (fuel : Nat) : Option Function :=
  if buffer.code 1 = 0x48000004 then
    some { base := buffer.base, size := 8 }
  else
    (Loop.run (buffer.analyzeStep dis) fuel {}).map fun final =>
      buffer.analyzeBlocks sorter final.blocks

end CodeBuffer

end UfcRecomp.Analyze
