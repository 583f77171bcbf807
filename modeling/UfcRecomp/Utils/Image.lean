import UfcRecomp.Analyze.Function
import UfcRecomp.Utils.Symbols

/-!
# Images

A loaded image: its sections in address order and the symbols of its import thunks.
A section is read through a pointer into the image data, so that reads may leave it.
-/

namespace UfcRecomp.Utils

open UfcRecomp.Ppc UfcRecomp.Analyze

/-- `SectionFlags_Code`. -/
def sectionFlagsCode : BitVec 8 := 2

structure Section where
  name : String
  base : Nat
  size : Nat
  flags : BitVec 8
  /-- The bytes from `data` on; bytes in front of the section have negative offsets. -/
  data : Int → BitVec 8
  /-- The base is the sum of two 32-bit numbers. -/
  base_lt : base < 2 ^ 33
  size_lt : size < 2 ^ 32

namespace Section

/-- A section at a 32-bit address. -/
def ofAddress (name : String) (base size : BitVec 32) (flags : BitVec 8) (data : Int → BitVec 8) :
    Section where
  name := name
  base := base.toNat
  size := size.toNat
  flags := flags
  data := data
  base_lt := by omega
  size_lt := by omega

variable (sec : Section)

/-- Whether `SectionFlags_Code` is set. -/
def isCode : Bool := sec.flags &&& sectionFlagsCode ≠ 0

/-- The big-endian word at an offset. -/
def word (offset : Int) : Word :=
  sec.data offset ++ sec.data (offset + 1) ++ sec.data (offset + 2) ++ sec.data (offset + 3)

/-- The rest of a section from an offset on, as `Function::Analyze` gets it. -/
def buffer (offset : Nat) (inside : offset < sec.size) : CodeBuffer where
  code position := sec.word (offset + 4 * position)
  size := sec.size - offset
  base := sec.base + offset
  fits := by
    have baseLow := sec.base_lt
    have sizeLow := sec.size_lt
    omega

end Section

/-- An entry of `.pdata`, after its words were swapped. -/
structure RuntimeFunction where
  beginAddress : Nat
  functionLength : Nat
  deriving DecidableEq, Repr

/-- The entries of `.pdata`; the length of a function in words is in bits 8 to 29. -/
def Section.runtimeFunctions (pdata : Section) : List RuntimeFunction :=
  (List.range (pdata.size / 8)).map fun i => {
    beginAddress := (pdata.word (8 * i)).toNat
    functionLength := ((pdata.word (8 * i + 4) >>> 8) &&& 0x3FFFFF).toNat }

structure Image where
  sections : List Section
  symbols : SymbolTable
  entryPoint : Nat
  /-- The set of sections is ordered by base. -/
  ordered : sections.Pairwise fun left right => left.base < right.base
  /-- A loader adds a symbol for the four words of each import thunk and no others. -/
  thunks : ∀ symbol ∈ symbols.symbols, symbol.size = 16 ∧ symbol.type = .symbolFunction

/-- There may be no import thunks. -/
theorem SymbolTable.thunks_empty :
    ∀ symbol ∈ SymbolTable.empty.symbols, symbol.size = 16 ∧ symbol.type = .symbolFunction :=
  List.forall_mem_nil _

/-- `Image::Find` of a section name. -/
def Image.findSection (image : Image) (name : String) : Option Section :=
  image.sections.find? fun sec => sec.name = name

end UfcRecomp.Utils
