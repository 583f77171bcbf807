import UfcRecomp.Utils.Image
import UfcRecomp.Recompiler.Config

/-!
# Function discovery

`Recompiler::Analyse`: the helpers and the configured functions, the entries of
`.pdata`, the targets of calls in each code section, and a sweep over each code
section for what is left. Every function goes into the list of functions and, as a
symbol, into the symbol table of the image.
-/

namespace UfcRecomp.Recompiler

open UfcRecomp.Ppc UfcRecomp.Utils UfcRecomp.Analyze UfcRecomp.Lib

/-- What the program is linked with: the rest of the disassembler and the sorting routine. -/
structure Platform where
  dis : Disassembler
  sortBlocks : Sorted.Sorter Block.base
  sortFunctions : Sorted.Sorter Function.base

/-- A platform with the insertion sorts. -/
def insertionPlatform (dis : Disassembler) : Platform := ⟨dis, .insertion _, .insertion _⟩

/-- The recompiler while it discovers functions. The last two fields are not in the program:
they record each function with the symbol that was emplaced for it, and each run that a sweep
skipped with its address and size. -/
structure State where
  functions : List Function := []
  symbols : SymbolTable
  emplaced : List (Function × Symbol) := []
  skipped : List (Nat × Nat) := []

/-- Append a function and emplace a symbol for it. -/
def State.addFunction (state : State) (name : String) (fn : Function) : State :=
  let symbol : Symbol := ⟨name, fn.base, fn.size, .symbolFunction⟩
  { state with
    functions := state.functions ++ [fn]
    symbols := state.symbols.emplace symbol
    emplaced := state.emplaced ++ [(fn, symbol)] }

/-- Add the function that a symbol describes. -/
def State.addSymbol (state : State) (symbol : Symbol) : State :=
  state.addFunction symbol.name { base := symbol.address, size := symbol.size }

/-- Add the function of a `.pdata` entry, unless there is a symbol at its address. -/
def State.addRuntimeFunction (state : State) (entry : RuntimeFunction) : State :=
  match state.symbols.find entry.beginAddress with
  | none =>
    state.addFunction (subName entry.beginAddress)
      { base := entry.beginAddress, size := entry.functionLength * 4 }
  | some _ => state

variable (platform : Platform)

/-- Analyse the function at an offset of a section and add it. -/
def State.analyzeAt (fuel : Nat) (sec : Section) (offset : Nat) (inside : offset < sec.size)
    (state : State) : Option (Function × State) :=
  ((sec.buffer offset inside).analyze platform.dis platform.sortBlocks fuel).map fun fn =>
    (fn, state.addFunction (subName fn.base) fn)

/-- The offset of the function that the word at an offset calls, if it lies in the section and
has no symbol. -/
def State.called (state : State) (sec : Section) (offset : Nat) :
    Option { target : Nat // target < sec.size } :=
  let insn := sec.word offset
  if ppcOp insn = ppcOpB ∧ ppcBl insn = true then
    let address := sizeT (sec.base + offset + ppcBi insn)
    if inside : sec.base ≤ address ∧ address < sec.base + sec.size ∧
        state.symbols.find address = none then
      some ⟨address - sec.base, by omega⟩
    else
      none
  else
    none

/-- A pass of the loop that looks for calls. As in every loop over a section, `none` is the end
of the section, or of the bound on the analysis of a function. -/
def scanStep (fuel : Nat) (sec : Section) : Nat × State → Option (Nat × State)
  | (offset, state) =>
    if offset < sec.size then
      match state.called sec offset with
      | some target =>
        (state.analyzeAt platform fuel sec target target.2).map fun result => (offset + 4, result.2)
      | none => some (offset + 4, state)
    else
      none

/-- A loop over a section, from its start to its end. -/
def overSection (step : Nat × State → Option (Nat × State)) (fuel : Nat) (sec : Section)
    (state : State) : Option State :=
  (Loop.run step fuel (0, state)).bind fun final =>
    if final.1 < sec.size then none else some final.2

/-- Look at every word of a section for calls. -/
def scan (fuel : Nat) (sec : Section) (state : State) : Option State :=
  overSection (scanStep platform fuel sec) fuel sec state

variable (config : RecompilerConfig)

/-- What the sweep does at an offset. -/
inductive Move where
  | skip (size : Nat)
  | known (symbol : Symbol)
  | analyze
  deriving DecidableEq, Repr

/-- Configured words are skipped, then comes a function that is known. -/
def sweepMove (sec : Section) (state : State) (offset : Nat) : Move :=
  match config.invalidInstructions.find (sec.word offset) with
  | some size => .skip size
  | none =>
    match state.symbols.find (sec.base + offset) with
    | some symbol =>
      if symbol.address = sec.base + offset ∧ symbol.type = .symbolFunction then .known symbol
      else .analyze
    | none => .analyze

/-- A pass of the loop that sweeps a section. -/
def sweepStep (fuel : Nat) (sec : Section) : Nat × State → Option (Nat × State)
  | (offset, state) =>
    if inside : offset < sec.size then
      match sweepMove config sec state offset with
      | .skip size =>
        some (offset + size, { state with skipped := state.skipped ++ [(sec.base + offset, size)] })
      | .known symbol => some (offset + symbol.size, state)
      | .analyze =>
        (state.analyzeAt platform fuel sec offset inside).map fun result =>
          (offset + result.1.size, result.2)
    else
      none

/-- Sweep a section: what is not skipped and not known is analysed. -/
def sweep (fuel : Nat) (sec : Section) (state : State) : Option State :=
  overSection (sweepStep platform config fuel sec) fuel sec state

/-- The functions that are known before any code is analysed. -/
def knownFunctions (image : Image) (pdata : Section) : State :=
  let state : State := { symbols := image.symbols }
  let state := config.helpers.foldl State.addSymbol state
  let state := config.explicit.foldl State.addSymbol state
  pdata.runtimeFunctions.foldl State.addRuntimeFunction state

/-- The work on one code section. -/
def analyseSection (fuel : Nat) (state : State) (sec : Section) : Option State :=
  (scan platform fuel sec state).bind (sweep platform config fuel sec)

/-- `Recompiler::Analyse`, with a bound on the passes of its loops; `none` means that the bound
was too small or that the image has no `.pdata` section. -/
def analyse (fuel : Nat) (image : Image) : Option State := do
  let pdata ← image.findSection ".pdata"
  let state ← (image.sections.filter Section.isCode).foldlM (analyseSection platform config fuel)
    (knownFunctions config image pdata)
  return { state with functions := platform.sortFunctions.sort state.functions }

end UfcRecomp.Recompiler
