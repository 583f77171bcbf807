import UfcRecomp.Analyze.Pattern
import UfcRecomp.Ppc.Dispatch

/-!
# Reading jump tables

`XenonAnalyse` takes the number of labels from the comparison in front of a dispatch sequence and
the labels from the places in memory that its instructions name. When the instructions hand their
results on as the pattern means them to, the labels are the values that the sequence leaves in the
count register, and there is one for each index that the guard lets pass.
-/

namespace UfcRecomp.Utils

/-- A pointer into the data of a section. -/
structure Pointer where
  sec : Section
  offset : Int

namespace Pointer

variable (pointer : Pointer)

def byte (index : Nat) : BitVec 8 := pointer.sec.data (pointer.offset + index)

/-- A big-endian half word. -/
def half (index : Nat) : BitVec 16 := pointer.byte index ++ pointer.byte (index + 1)

def word (index : Nat) : BitVec 32 := pointer.sec.word (pointer.offset + index)

end Pointer

/-- `Image::Find` of an address: a place relative to the last section that does not start behind
it. -/
def Image.find (image : Image) (address : Nat) : Option Pointer :=
  ((image.sections.filter fun sec => sec.base ≤ address).getLast?).map fun sec =>
    ⟨sec, (address : Int) - sec.base⟩

/-- The sections are apart from each other. -/
def Image.Apart (image : Image) : Prop :=
  image.sections.Pairwise fun left right => left.base + left.size ≤ right.base

/-- Memory has the bytes of the sections. -/
def Image.Holds (image : Image) (memory : BitVec 32 → BitVec 8) : Prop :=
  ∀ sec ∈ image.sections, ∀ offset < sec.size, ∀ address : BitVec 32,
    address.toNat = sec.base + offset → memory address = sec.data offset

/-- An address of a section is found in it, when the sections are apart. -/
theorem Image.find_of_apart {image : Image} (apart : image.Apart) {sec : Section}
    (member : sec ∈ image.sections) {offset : Nat} (inside : offset < sec.size) :
    image.find (sec.base + offset) = some ⟨sec, offset⟩ := by
  obtain ⟨before, behind, sections⟩ := List.append_of_mem member
  unfold Apart at apart
  rw [sections, List.pairwise_append, List.pairwise_cons] at apart
  obtain ⟨-, ⟨later, -⟩, -⟩ := apart
  have none : behind.filter (fun other => other.base ≤ sec.base + offset) = [] := by
    rw [List.filter_eq_nil_iff]
    intro other among
    have := later other among
    rw [decide_eq_true_eq]
    omega
  rw [find, sections, List.filter_append, List.filter_cons,
    if_pos (decide_eq_true (Nat.le_add_right _ _)), none, List.getLast?_append]
  change some (Pointer.mk sec ((sec.base + offset : Nat) - (sec.base : Int))) = _
  congr 2
  omega

end UfcRecomp.Utils

namespace UfcRecomp.Analyze

open UfcRecomp.Lib UfcRecomp.Ppc UfcRecomp.Utils

/-! ## The source -/

def switchAbsolute : Nat := 0
def switchComputed : Nat := 1
def switchByteOffset : Nat := 2
def switchShortOffset : Nat := 3

def absoluteSwitch : List PpcInst := [.lis, .addi, .rlwinm, .lwzx, .mtctr, .bctr]
def computedSwitch : List PpcInst := [.lis, .addi, .lbzx, .rlwinm, .lis, .addi, .add, .mtctr]
def offsetSwitch : List PpcInst := [.lis, .addi, .lbzx, .lis, .addi, .add, .mtctr]
def wordOffsetSwitch : List PpcInst := [.lis, .addi, .rlwinm, .lhzx, .lis, .addi, .add, .mtctr]

/-- The labels of a table, one for each of those it has room for. -/
def SwitchTable.fill (table : SwitchTable) (label : Nat → Word) : SwitchTable :=
  { table with labels := (List.range table.labels.length).map fun i => (label i).toNat }

/-- `ReadTable` -/
def readTable (dis : Disassembler) (image : Image) (table : SwitchTable) : Option SwitchTable := do
  let code ← image.find table.base
  let insn := fun (c : Nat) => dis.disassemble (code.word (4 * c)) (table.base + 4 * c)
  let pOffset := assembledAddress (insn 0) (insn 1)
  let offsets ← image.find pOffset.toNat
  if table.type = switchAbsolute then
    return table.fill fun i => offsets.word (4 * i)
  else if table.type = switchComputed then
    let base := assembledAddress (insn 4) (insn 5)
    let shift := ((insn 3).operand 2).toNat
    return table.fill fun i => base + (offsets.byte i).setWidth 32 <<< shift
  else if table.type = switchByteOffset then
    let base := assembledAddress (insn 3) (insn 4)
    return table.fill fun i => base + (offsets.byte i).setWidth 32
  else if table.type = switchShortOffset then
    let base := assembledAddress (insn 4) (insn 5)
    return table.fill fun i => base + (offsets.half (2 * i)).setWidth 32
  else
    none

/-- The tables that are looked for. -/
inductive SwitchType where
  | absolute
  | computed
  | byteOffset
  | shortOffset
  deriving DecidableEq

namespace SwitchType

def number : SwitchType → Nat
  | absolute => switchAbsolute
  | computed => switchComputed
  | byteOffset => switchByteOffset
  | shortOffset => switchShortOffset

def pattern : SwitchType → List PpcInst
  | absolute => absoluteSwitch
  | computed => computedSwitch
  | byteOffset => offsetSwitch
  | shortOffset => wordOffsetSwitch

end SwitchType

/-- What the loop of `scanPattern` does at a hit: the table that is printed, if there is one. -/
def tableAt (dis : Disassembler) (image : Image) (sec : Section) (type : SwitchType)
    (position : Nat) : Option SwitchTable :=
  let table := (scanTable dis sec position { type := type.number }).1
  if table.base ≠ 0 then readTable dis image table else none

/-! ## The comparison -/

section Guard

variable {dis : Disassembler} {sec : Section} {position base : Nat}

/-- A table for the operands of a comparison. -/
def SwitchTable.compared (table : SwitchTable) (insn : Insn) (base : Nat) : SwitchTable :=
  { table with
    r := (insn.operand 1).toNat
    labels := List.replicate (insn.operand 2 + 1).toNat 0
    base := base }

/-- Behind the branch, the next comparison makes the table, if there is one. -/
theorem scanned_of_marked {cr : Word} (marked : cr ≠ noCr) (left i : Nat) (table : SwitchTable) :
    (scanTableFrom dis sec position base left i cr table).1 = table ∨
      ∃ distance, i ≤ distance ∧ distance < i + left ∧
        Compares dis sec position base cr distance ∧
        (∀ j, i ≤ j → j < distance → ¬Compares dis sec position base cr j) ∧
        (scanTableFrom dis sec position base left i cr table).1 =
          table.compared (guardInsn dis sec position base distance) base := by
  induction left generalizing i with
  | zero => exact .inl rfl
  | succ left ih =>
      by_cases here : Compares dis sec position base cr i
      · refine .inr ⟨i, Nat.le_refl i, by omega, here, fun j low high => by omega, ?_⟩
        obtain ⟨opcode, same⟩ := here
        rw [scanTableFrom]
        dsimp only
        rw [opcode]
        dsimp only
        rw [if_neg fun both => marked both.1, if_pos ⟨marked, rfl, same⟩]
        rfl
      · have passes : (scanTableFrom dis sec position base (left + 1) i cr table).1 =
            (scanTableFrom dis sec position base left (i + 1) cr table).1 := by
          rw [scanTableFrom]
          dsimp only
          cases opcode : (guardInsn dis sec position base i).opcode with
          | none => rfl
          | some id =>
              dsimp only
              rw [if_neg fun both => marked both.1, if_neg]
              rintro ⟨-, rfl, same⟩
              exact here ⟨opcode, same⟩
        rw [passes]
        obtain unchanged | ⟨distance, above, below, compares, first, result⟩ := ih (i + 1)
        · exact .inl unchanged
        · refine .inr ⟨distance, by omega, by omega, compares, fun j low high => ?_, result⟩
          rcases Nat.eq_or_lt_of_le low with rfl | later
          · exact here
          · exact first j later high

/-- What guards a position: the next conditional branch in front of it, and in front of that the
next comparison that sets its condition register. -/
structure GuardedBy (dis : Disassembler) (sec : Section)
    (position base start branch distance : Nat) : Prop where
  above : start ≤ branch
  order : branch < distance
  guards : Guards dis sec position base branch
  first : ∀ i, start ≤ i → i < branch → ¬Guards dis sec position base i
  compares : Compares dis sec position base ((guardInsn dis sec position base branch).operand 0)
    distance
  next : ∀ i, branch < i → i < distance →
    ¬Compares dis sec position base ((guardInsn dis sec position base branch).operand 0) i

/-- In front of the branch, the walk makes a table from what guards the position. -/
theorem scanned_of_unmarked (left i : Nat) (table : SwitchTable) :
    ∃ label, (scanTableFrom dis sec position base left i noCr table).1 =
        { table with defaultLabel := label } ∨
      ∃ branch distance, GuardedBy dis sec position base i branch distance ∧ distance < i + left ∧
        (scanTableFrom dis sec position base left i noCr table).1 =
          SwitchTable.compared { table with defaultLabel := label }
            (guardInsn dis sec position base distance) base := by
  induction left generalizing i table with
  | zero => exact ⟨table.defaultLabel, .inl rfl⟩
  | succ left ih =>
      by_cases here : Guards dis sec position base i
      · obtain ⟨id, opcode, guard⟩ := id here
        have marked := operand_of_isGuard opcode guard
        obtain ⟨label, passes⟩ : ∃ label,
            (scanTableFrom dis sec position base (left + 1) i noCr table).1 =
              (scanTableFrom dis sec position base left (i + 1)
                ((guardInsn dis sec position base i).operand 0)
                { table with defaultLabel := label }).1 := by
          rw [scanTableFrom]
          dsimp only
          rw [opcode]
          dsimp only
          rw [if_pos ⟨rfl, guard⟩]
          split_ifs
          · exact ⟨_, rfl⟩
          · exact ⟨table.defaultLabel, rfl⟩
        rw [passes]
        refine ⟨label, ?_⟩
        obtain unchanged | ⟨distance, above, below, compares, first, result⟩ :=
          scanned_of_marked marked left (i + 1) { table with defaultLabel := label }
        · exact .inl unchanged
        · exact .inr ⟨i, distance, ⟨Nat.le_refl i, above, here,
            fun j low high => absurd high (Nat.not_lt.mpr low), compares, first⟩, by omega, result⟩
      · have passes : (scanTableFrom dis sec position base (left + 1) i noCr table).1 =
            (scanTableFrom dis sec position base left (i + 1) noCr table).1 := by
          rw [scanTableFrom]
          dsimp only
          cases opcode : (guardInsn dis sec position base i).opcode with
          | none => rfl
          | some id =>
              dsimp only
              rw [if_neg fun both => here ⟨id, opcode, both.2⟩, if_neg fun both => both.1 rfl]
        rw [passes]
        obtain ⟨label, unchanged | ⟨branch, distance, guarded, below, result⟩⟩ := ih (i + 1) table
        · exact ⟨label, .inl unchanged⟩
        · have first : ∀ j, i ≤ j → j < branch → ¬Guards dis sec position base j := by
            intro j low high
            rcases Nat.eq_or_lt_of_le low with rfl | later
            · exact here
            · exact guarded.first j later high
          exact ⟨label, .inr ⟨branch, distance, ⟨Nat.le_of_succ_le guarded.above, guarded.order,
            guarded.guards, first, guarded.compares, guarded.next⟩, by omega, result⟩⟩

/-- A table that `ScanTable` made belongs to the comparison that guards the position. -/
theorem scanTable_guarded {type : Nat}
    (made : (scanTable dis sec position { type := type }).1.base ≠ 0) :
    ∃ branch distance label,
      GuardedBy dis sec position (sec.base + 4 * position) 0 branch distance ∧ distance < 32 ∧
      (scanTable dis sec position { type := type }).1 =
        SwitchTable.compared { type := type, defaultLabel := label }
          (guardInsn dis sec position (sec.base + 4 * position) distance)
          (sec.base + 4 * position) := by
  rw [scanTable] at made ⊢
  obtain ⟨label, unchanged | ⟨branch, distance, guarded, below, result⟩⟩ :=
    @scanned_of_unmarked dis sec position (sec.base + 4 * position) 32 0 { type := type }
  · rw [unchanged] at made
    exact absurd rfl made
  · exact ⟨branch, distance, label, guarded, by omega, result⟩

end Guard

/-! ## Entries -/

section Entries

variable {image : Image} {memory : BitVec 32 → Byte}

/-- Some bytes from an address on are in a section. -/
def Spans (image : Image) (start : Word) (size : Nat) : Prop :=
  ∃ sec ∈ image.sections, ∃ offset, start.toNat = sec.base + offset ∧
    offset + size ≤ sec.size ∧ sec.base + sec.size ≤ 2 ^ 32

/-- The pointer to such bytes, and what memory has there. -/
theorem find_of_spans (apart : image.Apart) (holds : image.Holds memory) {start : Word}
    {size : Nat} (spans : Spans image start size) (some : 0 < size) :
    ∃ pointer, image.find start.toNat = .some pointer ∧
      ∀ i < size, memory (start + BitVec.ofNat 32 i) = pointer.byte i := by
  obtain ⟨sec, member, offset, here, inside, low⟩ := spans
  refine ⟨⟨sec, offset⟩, by rw [here, Image.find_of_apart apart member (by omega)], ?_⟩
  intro i below
  apply holds sec member (offset + i) (by omega)
  rw [BitVec.toNat_add, BitVec.toNat_ofNat]
  omega

/-- A big-endian number with one more byte. -/
theorem toNat_append_byte {width : Nat} (front : BitVec width) (byte : Byte) :
    (front ++ byte).toNat = 256 * front.toNat + byte.toNat := by
  rw [BitVec.toNat_append, ← Nat.shiftLeft_add_eq_or_of_lt byte.isLt, Nat.shiftLeft_eq,
    Nat.mul_comm]

/-- A load has one more byte. -/
theorem loadNumber_succ (address : Word) (size : Nat) :
    loadNumber memory address (size + 1) =
      256 * loadNumber memory address size + (memory (address + BitVec.ofNat 32 size)).toNat := by
  unfold loadNumber
  rw [bigEndian, Nat.zero_add]

section Loads

variable {pointer : Pointer} {address : Word} {index : Nat}

theorem loadNumber_byte (here : ∀ j < 1, memory (address + BitVec.ofNat 32 j) =
    pointer.byte (index + j)) : loadNumber memory address 1 = (pointer.byte index).toNat := by
  rw [loadNumber_succ, here 0 (by decide)]
  exact Nat.zero_add _

theorem loadNumber_half (here : ∀ j < 2, memory (address + BitVec.ofNat 32 j) =
    pointer.byte (index + j)) : loadNumber memory address 2 = (pointer.half index).toNat := by
  rw [loadNumber_succ, loadNumber_byte fun j below => here j (Nat.lt_succ_of_lt below),
    here 1 (by decide), Pointer.half, toNat_append_byte]

theorem loadNumber_word (here : ∀ j < 4, memory (address + BitVec.ofNat 32 j) =
    pointer.byte (index + j)) : loadNumber memory address 4 = (pointer.word index).toNat := by
  have word : pointer.word index = pointer.half index ++ pointer.byte (index + 2) ++
      pointer.byte (index + 3) := by
    rw [Pointer.half, Pointer.byte, Pointer.byte, Pointer.byte, Pointer.byte, Int.natCast_add,
      Int.natCast_add, Int.natCast_add, ← Int.add_assoc, ← Int.add_assoc, ← Int.add_assoc]
    rfl
  rw [loadNumber_succ, loadNumber_succ, loadNumber_half fun j below => here j (by omega),
    here 2 (by decide), here 3 (by decide), word, toNat_append_byte, toNat_append_byte]

end Loads

end Entries

/-! ## Dispatch sequences -/

namespace SwitchType

/-- The number of instructions up to the one that sets the count register. -/
def length : SwitchType → Nat
  | absolute => 5
  | computed => 8
  | byteOffset => 7
  | shortOffset => 8

/-- The number of bytes of an entry. -/
def entrySize : SwitchType → Nat
  | absolute => 4
  | computed => 1
  | byteOffset => 1
  | shortOffset => 2

/-- How the instructions hand an index on. -/
def Hands (insn : Nat → Insn) (index : Word) : SwitchType → Prop
  | absolute =>
    (insn 2).Scales index 2 ∧ (insn 1).operand 0 ≠ (insn 2).operand 0 ∧
      (insn 3).Reads ((insn 1).operand 0) ((insn 2).operand 0) ∧
      (insn 4).operand 0 = (insn 3).operand 0
  | computed =>
    (insn 2).Reads ((insn 1).operand 0) index ∧ (insn 3).operand 1 = (insn 2).operand 0 ∧
      Insn.Offsets insn 4 ((insn 3).operand 0)
  | byteOffset =>
    (insn 2).Reads ((insn 1).operand 0) index ∧ Insn.Offsets insn 3 ((insn 2).operand 0)
  | shortOffset =>
    (insn 2).Scales index 1 ∧ (insn 1).operand 0 ≠ (insn 2).operand 0 ∧
      (insn 3).Reads ((insn 1).operand 0) ((insn 2).operand 0) ∧
      Insn.Offsets insn 4 ((insn 3).operand 0)

/-- The instructions chain their registers: the address of the table is put together and leaves the
index, rotations shift, and the index is handed on. -/
structure Chains (type : SwitchType) (insn : Nat → Insn) (index : Word) : Prop where
  linked : (insn 1).operand 1 = (insn 0).operand 0
  notHigh : index ≠ (insn 0).operand 0
  notLow : index ≠ (insn 1).operand 0
  shifts : ∀ c < type.length, (insn c).ShiftsLeft
  hands : type.Hands insn index

/-- The count register behind the instructions, for an entry of the table. -/
def label (insn : Nat → Insn) (entry : Word) : SwitchType → Word
  | absolute => entry
  | computed => assembledAddress (insn 4) (insn 5) + entry <<< ((insn 3).operand 2).toNat
  | byteOffset => assembledAddress (insn 3) (insn 4) + entry
  | shortOffset => assembledAddress (insn 4) (insn 5) + entry

/-- The instructions up to the one that sets the count register are those of the pattern. -/
def Decodes (type : SwitchType) (insn : Nat → Insn) : Prop :=
  ∀ c < type.length, (insn c).opcode = type.pattern[c]?

/-- A shifted index is a multiple. -/
theorem shiftLeft_eq_ofNat (index : Word) (count : Nat) :
    index <<< count = BitVec.ofNat 32 (2 ^ count * index.toNat) := by
  apply BitVec.eq_of_toNat_eq
  rw [BitVec.toNat_shiftLeft, Nat.shiftLeft_eq, BitVec.toNat_ofNat, Nat.mul_comm]

/-- An index that is not shifted. -/
theorem eq_ofNat_one_mul (index : Word) : index = BitVec.ofNat 32 (1 * index.toNat) := by
  rw [Nat.one_mul, BitVec.ofNat_toNat, BitVec.setWidth_eq]

/-- A chain leaves a label in the count register. -/
theorem ctr_of_chains (memory : BitVec 32 → Byte) {type : SwitchType} {insn : Nat → Insn}
    {index : Word} (decodes : type.Decodes insn) (chains : type.Chains insn index)
    (state : LowState) :
    (LowState.execAll memory ((List.range type.length).map insn) state).ctr =
      type.label insn (BitVec.ofNat 32 (loadNumber memory
        (assembledAddress (insn 0) (insn 1) +
          BitVec.ofNat 32 (type.entrySize * (state.r index).toNat)) type.entrySize)) := by
  obtain ⟨linked, notHigh, notLow, -, hands⟩ := chains
  have opcode : ∀ {c : Nat} {id : PpcInst}, c < type.length → type.pattern[c]? = some id →
      (insn c).opcode = some id := fun below here => (decodes _ below).trans here
  obtain ⟨table, keeps⟩ := @LowState.execAll_address memory (insn 0) (insn 1)
    (opcode (by cases type <;> decide) (by cases type <;> rfl))
    (opcode (by cases type <;> decide) (by cases type <;> rfl)) linked state
  have kept := keeps index notHigh notLow
  cases type with
  | absolute =>
      obtain ⟨⟨source, count⟩, apart, reads, moves⟩ := hands
      change ((((LowState.execAll memory [insn 0, insn 1] state).exec memory (insn 2)).exec memory
        (insn 3)).exec memory (insn 4)).ctr = _
      rw [LowState.exec_mtctr (opcode (by decide) rfl),
        LowState.exec_load (opcode (by decide) rfl) rfl reads,
        LowState.exec_rlwinm (opcode (by decide) rfl), moves, LowState.r_set_self,
        LowState.r_set_self, LowState.r_set_of_ne _ apart, table, source, count, kept,
        shiftLeft_eq_ofNat]
      rfl
  | computed =>
      obtain ⟨reads, source, offsets⟩ := hands
      have unshifted := kept.trans (eq_ofNat_one_mul (state.r index))
      change (LowState.execAll memory [insn 4, insn 5, insn 6, insn 7]
        (((LowState.execAll memory [insn 0, insn 1] state).exec memory (insn 2)).exec memory
          (insn 3))).ctr = _
      rw [LowState.execAll_offsets (opcode (by decide) rfl) (opcode (by decide) rfl)
          (opcode (by decide) rfl) (opcode (by decide) rfl) offsets,
        LowState.exec_rlwinm (opcode (by decide) rfl), LowState.r_set_self, source,
        LowState.exec_load (opcode (by decide) rfl) rfl reads, LowState.r_set_self, table,
        unshifted]
      rfl
  | byteOffset =>
      obtain ⟨reads, offsets⟩ := hands
      have unshifted := kept.trans (eq_ofNat_one_mul (state.r index))
      change (LowState.execAll memory [insn 3, insn 4, insn 5, insn 6]
        ((LowState.execAll memory [insn 0, insn 1] state).exec memory (insn 2))).ctr = _
      rw [LowState.execAll_offsets (opcode (by decide) rfl) (opcode (by decide) rfl)
          (opcode (by decide) rfl) (opcode (by decide) rfl) offsets,
        LowState.exec_load (opcode (by decide) rfl) rfl reads, LowState.r_set_self, table,
        unshifted]
      rfl
  | shortOffset =>
      obtain ⟨⟨source, count⟩, apart, reads, offsets⟩ := hands
      change (LowState.execAll memory [insn 4, insn 5, insn 6, insn 7]
        (((LowState.execAll memory [insn 0, insn 1] state).exec memory (insn 2)).exec memory
          (insn 3))).ctr = _
      rw [LowState.execAll_offsets (opcode (by decide) rfl) (opcode (by decide) rfl)
          (opcode (by decide) rfl) (opcode (by decide) rfl) offsets,
        LowState.exec_load (opcode (by decide) rfl) rfl reads, LowState.r_set_self,
        LowState.exec_rlwinm (opcode (by decide) rfl), LowState.r_set_self,
        LowState.r_set_of_ne _ apart, table, source, count, kept, shiftLeft_eq_ofNat]
      rfl

end SwitchType

/-! ## Labels -/

/-- An instruction behind a position. -/
def siteInsn (dis : Disassembler) (sec : Section) (position c : Nat) : Insn :=
  dis.disassemble (sec.word (4 * ((position + c : Nat) : Int))) (sec.base + 4 * position + 4 * c)

section Labels

variable {dis : Disassembler} {image : Image} {memory : BitVec 32 → Byte} {sec : Section}
  {position : Nat}

/-- The entry of a table, as a load of the guest. -/
def entryAt (memory : BitVec 32 → Byte) (type : SwitchType) (start : Word) (i : Nat) : Word :=
  BitVec.ofNat 32
    (loadNumber memory (start + BitVec.ofNat 32 (type.entrySize * i)) type.entrySize)

/-- The entry that `ReadTable` reads. -/
def tableEntry (pointer : Pointer) (i : Nat) : SwitchType → Word
  | .absolute => pointer.word (4 * i)
  | .computed => (pointer.byte i).setWidth 32
  | .byteOffset => (pointer.byte i).setWidth 32
  | .shortOffset => (pointer.half (2 * i)).setWidth 32

/-- What `ReadTable` reads is what the guest loads. -/
theorem entryAt_eq {type : SwitchType} {start : Word} {pointer : Pointer} {i : Nat}
    (here : ∀ j < type.entrySize, memory (start + BitVec.ofNat 32 (type.entrySize * i + j)) =
      pointer.byte (type.entrySize * i + j)) :
    entryAt memory type start i = tableEntry pointer i type := by
  have split : ∀ j < type.entrySize, memory (start + BitVec.ofNat 32 (type.entrySize * i) +
      BitVec.ofNat 32 j) = pointer.byte (type.entrySize * i + j) := by
    intro j below
    rw [BitVec.add_assoc, ← BitVec.ofNat_add, here j below]
  cases type with
  | absolute =>
      rw [entryAt]
      exact (congrArg (BitVec.ofNat 32) (loadNumber_word split)).trans
        ((BitVec.ofNat_toNat ..).trans (BitVec.setWidth_eq _))
  | computed | byteOffset =>
      rw [entryAt]
      refine (congrArg (BitVec.ofNat 32) (loadNumber_byte split)).trans ?_
      rw [BitVec.ofNat_toNat]
      exact congrArg (fun index => (pointer.byte index).setWidth 32) (Nat.one_mul i)
  | shortOffset =>
      rw [entryAt]
      exact (congrArg (BitVec.ofNat 32) (loadNumber_half split)).trans (BitVec.ofNat_toNat ..)

/-- `ReadTable` gives a table labels and nothing else. -/
theorem readTable_fill {table read : SwitchTable} (found : readTable dis image table = some read) :
    ∃ label, read = table.fill label := by
  rw [readTable] at found
  obtain ⟨code, -, found⟩ := Option.bind_eq_some_iff.mp found
  obtain ⟨offsets, -, found⟩ := Option.bind_eq_some_iff.mp found
  split_ifs at found <;> exact ⟨_, (Option.some.inj found).symm⟩

theorem SwitchTable.length_fill (table : SwitchTable) (label : Nat → Word) :
    (table.fill label).labels.length = table.labels.length := by
  rw [fill, List.length_map, List.length_range]

/-- The labels of a table that `ReadTable` filled. -/
theorem readTable_labels (apart : image.Apart) (holds : image.Holds memory)
    (member : sec ∈ image.sections) (inside : position < wordCount sec) {type : SwitchType}
    {table read : SwitchTable} (isType : table.type = type.number)
    (base : table.base = sec.base + 4 * position)
    (spans : Spans image
      (assembledAddress (siteInsn dis sec position 0) (siteInsn dis sec position 1))
      (type.entrySize * table.labels.length)) (some : 0 < table.labels.length)
    (found : readTable dis image table = .some read) :
    ∀ i < table.labels.length, read.labels[i]? = .some
      (type.label (siteInsn dis sec position) (entryAt memory type
        (assembledAddress (siteInsn dis sec position 0) (siteInsn dis sec position 1))
        i)).toNat := by
  have code : image.find table.base = .some ⟨sec, ((4 * position : Nat) : Int)⟩ := by
    rw [base, Image.find_of_apart apart member]
    unfold wordCount at inside
    omega
  have insns : ∀ c : Nat, dis.disassemble
      ((⟨sec, ((4 * position : Nat) : Int)⟩ : Pointer).word (4 * c)) (table.base + 4 * c) =
        siteInsn dis sec position c := by
    intro c
    rw [siteInsn, base, Pointer.word]
    congr 2
    dsimp only
    omega
  obtain ⟨pointer, offsets, bytes⟩ := find_of_spans apart holds spans
    (Nat.mul_pos (by cases type <;> decide) some)
  have entries : ∀ i < table.labels.length, ∀ j < type.entrySize,
      memory (assembledAddress (siteInsn dis sec position 0) (siteInsn dis sec position 1) +
        BitVec.ofNat 32 (type.entrySize * i + j)) = pointer.byte (type.entrySize * i + j) := by
    intro i below j small
    apply bytes
    have bound := Nat.mul_le_mul_left type.entrySize (Nat.succ_le_of_lt below)
    rw [Nat.mul_succ] at bound
    omega
  have filled : ∃ label, read = table.fill label ∧ ∀ i < table.labels.length,
      label i = type.label (siteInsn dis sec position) (entryAt memory type
        (assembledAddress (siteInsn dis sec position 0) (siteInsn dis sec position 1)) i) := by
    rw [readTable, code] at found
    simp only [Option.bind_eq_bind, Option.bind_some, insns, offsets, isType] at found
    cases type with
    | absolute =>
        exact ⟨_, (Option.some.inj found).symm, fun i below => (entryAt_eq (entries i below)).symm⟩
    | computed =>
        exact ⟨_, (Option.some.inj found).symm, fun i below => by
          rw [entryAt_eq (entries i below)]; rfl⟩
    | byteOffset =>
        exact ⟨_, (Option.some.inj found).symm, fun i below => by
          rw [entryAt_eq (entries i below)]; rfl⟩
    | shortOffset =>
        exact ⟨_, (Option.some.inj found).symm, fun i below => by
          rw [entryAt_eq (entries i below)]; rfl⟩
  obtain ⟨label, rfl, labels⟩ := filled
  intro i below
  rw [SwitchTable.fill, List.getElem?_map, List.getElem?_range below, Option.map_some,
    labels i below]

/-- The words up to the one that sets the count register. -/
def siteWords (sec : Section) (position : Nat) (type : SwitchType) : List Word :=
  (List.range type.length).map fun c => sec.word (4 * ((position + c : Nat) : Int))

/-- The mnemonic of a word does not depend on its address. -/
theorem opcode_disassemble (dis : Disassembler) (insn : Word) (memaddr other : Nat) :
    (dis.disassemble insn memaddr).opcode = (dis.disassemble insn other).opcode := by
  unfold Disassembler.disassemble
  split
  · rfl
  · rfl

/-- Every instruction of a pattern up to the one that sets the count register has a form. -/
theorem SwitchType.form_of_pattern (type : SwitchType) {c : Nat} (below : c < type.length) :
    ∃ id form, type.pattern[c]? = some id ∧ id.dispatchForm = some form := by
  have checked : ∀ c < type.length, ((type.pattern[c]?).bind PpcInst.dispatchForm).isSome := by
    cases type <;> decide
  obtain ⟨form, isForm⟩ := Option.isSome_iff_exists.mp (checked c below)
  obtain ⟨id, here, known⟩ := Option.bind_eq_some_iff.mp isForm
  exact ⟨id, form, here, known⟩

/-- The instructions of a window are those of the pattern. -/
theorem decodes_of_window {type : SwitchType}
    (window : Window sec (fun word => (dis.disassemble word 0).opcode) type.pattern position) :
    type.Decodes (siteInsn dis sec position) := by
  intro c below
  rw [← window c (Nat.lt_of_lt_of_le below (by cases type <;> decide)), siteInsn]
  exact opcode_disassemble _ _ _ _

/-- The instructions of a window are those of a dispatch. -/
theorem dispatches_of_window {type : SwitchType}
    (window : Window sec (fun word => (dis.disassemble word 0).opcode) type.pattern position)
    (shifts : ∀ c < type.length, (siteInsn dis sec position c).ShiftsLeft) :
    ∀ code ∈ (List.range type.length).map (siteInsn dis sec position), code.Dispatches dis := by
  intro code among
  obtain ⟨c, small, rfl⟩ := List.mem_map.mp among
  have below := List.mem_range.mp small
  obtain ⟨id, form, here, isForm⟩ := type.form_of_pattern below
  have decoded := (decodes_of_window window c below).trans here
  have word : (siteInsn dis sec position c).instruction = _ := instruction_disassemble _ _ _
  refine ⟨shifts c below, sec.base + 4 * position + 4 * c, id, form, ?_, decoded, isForm⟩
  rw [word]
  rfl

/-- A position that the scan visits has the pattern. -/
theorem window_of_visited {ι : Type} [DecidableEq ι] {identify : Word → Option ι}
    {pattern : List ι} {fuel : Nat} {last : Scan}
    (completed : Loop.run (scanStep dis sec identify pattern) fuel { data := some 0 } = some last)
    (visited : position ∈ last.visited) :
    position < wordCount sec ∧ Window sec identify pattern position := by
  obtain ⟨otherFuel, other, run⟩ := @exists_run_scanStep dis sec _ _ identify pattern
    (wordCount sec) 0 [] [] (Nat.zero_add _)
  obtain rfl := Loop.run_deterministic completed run
  rw [List.nil_append, hits, List.mem_filter, ← List.range_eq_range', List.mem_range,
    matchWindow_iff] at visited
  exact visited

/-- The bound of a comparison has 16 bits. -/
theorem cmplwi_bound {insn : Word} {memaddr : Nat}
    (decoded : (dis.disassemble insn memaddr).opcode = some .cmplwi) :
    ((dis.disassemble insn memaddr).operand 2).toNat < 2 ^ 16 := by
  obtain ⟨row, among, -, isCmplwi, operands⟩ := row_of_disassemble decoded (by simp) (by simp)
  have rows : ∀ row ∈ powerpcOpcodes, row.id = .cmplwi → row.operands[2]? = some .ui := by decide
  rw [Insn.operand, operands, List.getD_eq_getElem?_getD, List.getElem?_map,
    rows row among isCmplwi]
  change (PowerpcOperand.ui.decode insn memaddr).toNat < 2 ^ 16
  rw [@decode_field .ui rfl rfl]
  exact lt_of_eq_of_lt (@toNat_and_ones insn 0xffff 0 16 rfl) (Nat.mod_lt _ (by decide))

end Labels

/-- A table was read into the room that the comparison in front of its position gives it. -/
theorem tableAt_guarded {dis : Disassembler} {image : Image} {sec : Section} {position : Nat}
    {type : SwitchType} {table : SwitchTable}
    (found : tableAt dis image sec type position = some table) :
    ∃ branch distance, GuardedBy dis sec position (sec.base + 4 * position) 0 branch distance ∧
      table.r = ((guardInsn dis sec position (sec.base + 4 * position) distance).operand 1).toNat ∧
      table.labels.length =
        ((guardInsn dis sec position (sec.base + 4 * position) distance).operand 2).toNat + 1 ∧
      ∃ room, readTable dis image room = some table ∧ room.type = type.number ∧
        room.base = sec.base + 4 * position := by
  rw [tableAt] at found
  split_ifs at found with made
  obtain ⟨branch, distance, default, guarded, -, scanned⟩ := scanTable_guarded made
  rw [scanned] at found
  obtain ⟨labels, rfl⟩ := readTable_fill found
  refine ⟨branch, distance, guarded, rfl, ?_, _, found, rfl, rfl⟩
  -- The number of labels is the bound and one more, without wrapping around.
  have bound := cmplwi_bound guarded.compares.1
  rw [SwitchTable.length_fill, SwitchTable.compared, List.length_replicate, BitVec.toNat_add]
  exact Nat.mod_eq_of_lt (Nat.lt_trans (Nat.succ_lt_succ bound) (by decide))

/-- At a window of a pattern, the instructions lead to the labels of the table. -/
theorem tableAt_leads {dis : Disassembler} {image : Image} {memory : BitVec 32 → Byte}
    {sec : Section} {position : Nat} (apart : image.Apart) (holds : image.Holds memory)
    (member : sec ∈ image.sections) {type : SwitchType} (inside : position < wordCount sec)
    (window : Window sec (fun word => (dis.disassemble word 0).opcode) type.pattern position)
    {table : SwitchTable} (found : tableAt dis image sec type position = some table)
    (chains : type.Chains (siteInsn dis sec position) (BitVec.ofNat 32 table.r))
    (spans : Spans image
      (assembledAddress (siteInsn dis sec position 0) (siteInsn dis sec position 1))
      (type.entrySize * table.labels.length)) (state : LowState) {label : Nat}
    (here : table.labels[(state.r (BitVec.ofNat 32 table.r)).toNat]? = some label) :
    (LowState.execAll memory ((List.range type.length).map (siteInsn dis sec position))
      state).ctr.toNat = label := by
  obtain ⟨-, -, -, -, -, room, read, isType, base⟩ := tableAt_guarded found
  have length : table.labels.length = room.labels.length := by
    obtain ⟨labels, rfl⟩ := readTable_fill read
    exact room.length_fill labels
  have below := (List.getElem?_eq_some_iff.mp here).1
  rw [length] at below spans
  have labelled := readTable_labels apart holds member inside isType base spans
    (Nat.zero_lt_of_lt below) read _ below
  rw [SwitchType.ctr_of_chains memory (decodes_of_window window) chains state]
  exact Option.some.inj (labelled.symm.trans here)

/-- The register of a table is an operand. -/
theorem toNat_register {dis : Disassembler} {image : Image} {sec : Section} {position : Nat}
    {type : SwitchType} {table : SwitchTable}
    (found : tableAt dis image sec type position = some table) :
    (BitVec.ofNat 32 table.r : Word).toNat = table.r := by
  obtain ⟨_, _, _, register, _⟩ := tableAt_guarded found
  rw [register, BitVec.ofNat_toNat, BitVec.setWidth_eq]

/-- Every table that is found in a run of the scan has the register and the bound of the comparison
that guards its position. When the instructions there chain their registers, and the table is in a
section, they lead every index within the bound to the label of the table at that index. -/
theorem jump_table (dis : Disassembler) (image : Image) (type : SwitchType) {sec : Section}
    (member : sec ∈ image.sections) {fuel : Nat} {last : Scan}
    (completed : Loop.run (scanStep dis sec (fun word => (dis.disassemble word 0).opcode)
      type.pattern) fuel { data := some 0 } = some last)
    {position : Nat} (visited : position ∈ last.visited) {table : SwitchTable}
    (found : tableAt dis image sec type position = some table) :
    (∃ branch distance,
      GuardedBy dis sec position (sec.base + 4 * position) 0 branch distance ∧
      table.r = ((guardInsn dis sec position (sec.base + 4 * position) distance).operand 1).toNat ∧
      table.labels.length =
        ((guardInsn dis sec position (sec.base + 4 * position) distance).operand 2).toNat + 1) ∧
    ∀ memory : BitVec 32 → Byte, image.Apart → image.Holds memory →
      type.Chains (siteInsn dis sec position) (BitVec.ofNat 32 table.r) →
      Spans image (assembledAddress (siteInsn dis sec position 0) (siteInsn dis sec position 1))
        (type.entrySize * table.labels.length) →
      ∀ (state : DispatchState) (label : Nat),
        table.labels[((state.r table.r).setWidth 32).toNat]? = some label →
        ∃ behind, DispatchState.execAll memory (siteWords sec position type) state = some behind ∧
          (behind.ctr.setWidth 32).toNat = label ∧
          ((∀ c < type.length, (siteInsn dis sec position c).operand 0 ≠ BitVec.ofNat 32 table.r) →
            behind.r table.r = state.r table.r) := by
  obtain ⟨inside, window⟩ := window_of_visited completed visited
  obtain ⟨branch, distance, guarded, register, length, -⟩ := tableAt_guarded found
  have index := toNat_register found
  refine ⟨⟨branch, distance, guarded, register, length⟩, ?_⟩
  intro memory apart holds chains spans state label here
  obtain ⟨behind, ran, low, keeps⟩ :=
    low_execAll memory (dispatches_of_window window chains.shifts) state
  refine ⟨behind, ?_, ?_, fun notTarget => ?_⟩
  · rw [← ran, siteWords, List.map_map]
    congr 1
    exact List.map_congr_left fun c _ => (instruction_disassemble _ _ _).symm
  · rw [DispatchState.low_r index] at here
    have lowCtr : behind.ctr.setWidth 32 = behind.low.ctr := rfl
    rw [lowCtr, low]
    exact tableAt_leads apart holds member inside window found chains spans state.low here
  · apply keeps
    intro code among
    obtain ⟨c, small, rfl⟩ := List.mem_map.mp among
    intro same
    exact notTarget c (List.mem_range.mp small) (BitVec.eq_of_toNat_eq (same.symm.trans index.symm))

/-- A guard lets control go on to the dispatch at an address: a branch on greater is not taken, or
the opposite one, which goes there, is. A return on the opposite condition lets nothing go on. -/
def Passes (guard : Insn) (dispatch : Nat) (state : BranchState) : Prop :=
  ∃ id, guard.opcode = some id ∧
    ((id = .bgt ∨ id = .bgtlr) ∧ taken guard.instruction state = false ∨
      id = .ble ∧ (guard.operand 1).toNat = dispatch ∧ taken guard.instruction state = true)

/-- A guard leads to the dispatch at an address or past it: it does not return where it would have
to go on, nor does it go elsewhere. -/
def LeadsOn (guard : Insn) (dispatch : Nat) : Prop :=
  guard.opcode ≠ some .blelr ∧ (guard.opcode = some .ble → (guard.operand 1).toNat = dispatch)

/-- The bit that a comparison without sign sets when the register is greater than its bound. -/
def greaterBit (compare : Insn) : Nat := 4 * (compare.operand 0).toNat + 1

/-- What the guards test. -/
theorem test_of_guard {id : PpcInst} {greater : Bool}
    (kind : greater = false ∧ (id = .bgt ∨ id = .bgtlr) ∨
      greater = true ∧ (id = .ble ∨ id = .blelr)) :
    id.branchTest = some ⟨none, some greater⟩ ∧ id.branchBit = some 1 := by
  obtain ⟨rfl, rfl | rfl⟩ | ⟨rfl, rfl | rfl⟩ := kind <;> exact ⟨rfl, rfl⟩

/-- A guard that leads on passes if and only if its bit is clear. -/
theorem passes_iff {dis : Disassembler} {insn : Word} {memaddr dispatch : Nat} {id : PpcInst}
    (decoded : (dis.disassemble insn memaddr).opcode = some id) (guard : isGuard id = true)
    (leads : LeadsOn (dis.disassemble insn memaddr) dispatch) (state : BranchState) :
    Passes (dis.disassemble insn memaddr) dispatch state ↔
      state.cr (4 * ((dis.disassemble insn memaddr).operand 0).toNat + 1) = false := by
  have kinds : (id = .bgt ∨ id = .bgtlr) ∨ id = .ble := by
    have notReturn : id ≠ .blelr := fun same => leads.1 (same ▸ decoded)
    have listed : (id = .bgt ∨ id = .bgtlr) ∨ id = .ble ∨ id = .blelr := by
      simpa [isGuard, or_assoc] using guard
    tauto
  obtain ⟨greater, same⟩ : ∃ greater,
      greater = false ∧ (id = .bgt ∨ id = .bgtlr) ∨ greater = true ∧ (id = .ble ∨ id = .blelr) := by
    rcases kinds with above | below
    · exact ⟨false, .inl ⟨rfl, above⟩⟩
    · exact ⟨true, .inr ⟨rfl, .inl below⟩⟩
  obtain ⟨test, bit⟩ := test_of_guard same
  obtain ⟨row, member, matched, rfl, operands⟩ := row_of_disassemble decoded
    (by rintro rfl; cases bit) (by rintro number rfl; cases bit)
  obtain ⟨-, -, field⟩ := row_branchBit row member 1 bit
  have named : 4 * ((dis.disassemble insn memaddr).operand 0).toNat + 1 = conditionBit insn := by
    have low := matched.conditionBit member bit
    rw [Insn.operand, operands, List.getD_eq_getElem?_getD, List.getElem?_map, field]
    change 4 * (PowerpcOperand.cr.decode insn memaddr).toNat + 1 = _
    rw [cr_decode]
    omega
  obtain ⟨-, holds⟩ := takenOn_of_flags (matched.flags member test) state (conditionBit insn)
  have takes : taken insn state = (state.cr (conditionBit insn) != greater) := by
    rw [taken, holds, BranchTest.holds]
    exact Bool.true_and _
  rw [named, Passes, instruction_disassemble, takes, decoded]
  simp only [Option.some.injEq, exists_eq_left']
  rcases same with ⟨rfl, above⟩ | ⟨rfl, -⟩
  · have notBelow : row.id ≠ .ble := by rcases above with same | same <;> simp [same]
    simp [above, notBelow]
  · have below : row.id = .ble := by
      rcases kinds with (same | same) | below
      · rw [same] at test
        cases test
      · rw [same] at test
        cases test
      · exact below
    simp [below, leads.2 (below ▸ decoded)]

/-- A table has labels for the indices that a guard which leads to it lets pass, and for no others. -/
theorem guarded_index (dis : Disassembler) (image : Image) (type : SwitchType) (sec : Section)
    (position : Nat) {table : SwitchTable}
    (found : tableAt dis image sec type position = some table) :
    ∃ branch distance, GuardedBy dis sec position (sec.base + 4 * position) 0 branch distance ∧
      (LeadsOn (guardInsn dis sec position (sec.base + 4 * position) branch)
          (sec.base + 4 * position) →
        ∀ (state : BranchState) (index : Word),
          state.cr (greaterBit (guardInsn dis sec position (sec.base + 4 * position) distance)) =
            decide ((guardInsn dis sec position (sec.base + 4 * position) distance).operand 2 <
              index) →
          (Passes (guardInsn dis sec position (sec.base + 4 * position) branch)
              (sec.base + 4 * position) state ↔
            ∃ label, table.labels[index.toNat]? = some label)) := by
  obtain ⟨branch, distance, guarded, -, length, -⟩ := tableAt_guarded found
  refine ⟨branch, distance, guarded, fun leads state index compared => ?_⟩
  obtain ⟨id, decoded, guard⟩ := guarded.guards
  rw [greaterBit, guarded.compares.2] at compared
  have passes := passes_iff decoded guard leads state
  rw [guardInsn, passes]
  rw [guardInsn] at compared
  have labelled : (∃ label, table.labels[index.toNat]? = some label) ↔
      index.toNat < table.labels.length :=
    ⟨fun ⟨_, here⟩ => (List.getElem?_eq_some_iff.mp here).1,
      fun below => ⟨_, List.getElem?_eq_getElem below⟩⟩
  rw [compared, decide_eq_false_iff_not, BitVec.lt_def, labelled, length]
  omega

/-- A comparison with one, its branch, a dispatch and a table of two labels. -/
def dispatchBytes : List Byte :=
  [0x28, 0x0B, 0x00, 0x01, 0x41, 0x81, 0x00, 0x40, 0x3D, 0x80, 0x10, 0x00, 0x39, 0x8C, 0x00, 0x20,
    0x55, 0x60, 0x10, 0x3A, 0x7C, 0x0C, 0x00, 0x2E, 0x7C, 0x09, 0x03, 0xA6, 0x4E, 0x80, 0x04, 0x20,
    0x10, 0x00, 0x00, 0x44, 0x10, 0x00, 0x00, 0x48]

def dispatchSection : Section :=
  .ofAddress ".text" 0x10000000 40 sectionFlagsCode fun offset => dispatchBytes.getD offset.toNat 0

def dispatchImage : Image where
  sections := [dispatchSection]
  symbols := .empty
  entryPoint := 0x10000000
  ordered := List.pairwise_singleton _ _
  thunks := SymbolTable.thunks_empty

def dispatchMemory (address : BitVec 32) : Byte :=
  dispatchBytes.getD (address.toNat - 0x10000000) 0

/-- A disassembler that knows the rows of the model. -/
def rowsOnly : Disassembler := ⟨fun _ => false, fun _ => none⟩

theorem dispatch_chains : SwitchType.Chains .absolute (siteInsn rowsOnly dispatchSection 2) 11 where
  linked := by decide +kernel
  notHigh := by decide +kernel
  notLow := by decide +kernel
  shifts := by
    unfold Insn.ShiftsLeft
    decide +kernel
  hands := ⟨⟨by decide +kernel, by decide +kernel⟩, by decide +kernel,
    ⟨by decide +kernel, .inl ⟨by decide +kernel, by decide +kernel⟩⟩, by decide +kernel⟩

theorem dispatch_holds : dispatchImage.Holds dispatchMemory := by
  intro sec member offset below address here
  obtain rfl := List.mem_singleton.mp member
  change dispatchBytes.getD (address.toNat - 0x10000000) 0 = dispatchBytes.getD offset 0
  rw [here]
  exact congrArg (fun index => dispatchBytes.getD index 0) (Nat.add_sub_cancel_left ..)

theorem dispatch_visited : ∃ fuel last, Loop.run (scanStep rowsOnly dispatchSection
    (fun word => (rowsOnly.disassemble word 0).opcode) SwitchType.absolute.pattern) fuel
      { data := some 0 } = some last ∧ 2 ∈ last.visited := by
  obtain ⟨fuel, last, completed⟩ := @exists_run_scanStep rowsOnly dispatchSection _ _
    (fun word => (rowsOnly.disassemble word 0).opcode) SwitchType.absolute.pattern
    (wordCount dispatchSection) 0 [] [] (Nat.zero_add _)
  have visited : 2 ∈ hits dispatchSection (fun word => (rowsOnly.disassemble word 0).opcode)
      SwitchType.absolute.pattern 0 (wordCount dispatchSection) := by decide +kernel
  exact ⟨fuel, _, completed, visited⟩

theorem dispatch_found : ∃ table,
    tableAt rowsOnly dispatchImage dispatchSection .absolute 2 = some table ∧ table.r = 11 ∧
      table.labels = [0x10000044, 0x10000048] := by
  have result : (tableAt rowsOnly dispatchImage dispatchSection .absolute 2).map
      (fun table => (table.r, table.labels)) = some (11, [0x10000044, 0x10000048]) := by
    decide +kernel
  obtain ⟨table, found, fields⟩ := Option.map_eq_some_iff.mp result
  exact ⟨table, found, Prod.mk.inj fields⟩

theorem dispatch_spans : Spans dispatchImage
    (assembledAddress (siteInsn rowsOnly dispatchSection 2 0)
      (siteInsn rowsOnly dispatchSection 2 1))
    (SwitchType.absolute.entrySize * 2) :=
  ⟨dispatchSection, List.mem_singleton_self _, 0x20, by decide +kernel, by decide +kernel,
    by decide +kernel⟩

theorem jump_table_dispatch : ∃ behind,
    DispatchState.execAll dispatchMemory (siteWords dispatchSection 2 .absolute) ⟨fun _ => 1, 0⟩ =
        some behind ∧ (behind.ctr.setWidth 32).toNat = 0x10000048 ∧ behind.r 11 = 1 := by
  obtain ⟨fuel, last, completed, visited⟩ := dispatch_visited
  obtain ⟨table, found, register, labels⟩ := dispatch_found
  obtain ⟨-, leads⟩ := jump_table rowsOnly dispatchImage .absolute (List.mem_singleton_self _)
    completed visited found
  obtain ⟨behind, ran, ctr, keeps⟩ := leads dispatchMemory (List.pairwise_singleton _ _)
    dispatch_holds (by rw [register]; exact dispatch_chains) (by rw [labels]; exact dispatch_spans)
    ⟨fun _ => 1, 0⟩ 0x10000048 (by
      rw [labels]
      rfl)
  rw [register] at keeps
  exact ⟨behind, ran, ctr, keeps (by decide +kernel)⟩

/-- The two words in front of the dispatch guard it. -/
theorem dispatch_guard {branch distance : Nat}
    (guarded : GuardedBy rowsOnly dispatchSection 2 0x10000008 0 branch distance) :
    branch = 1 ∧ distance = 2 := by
  have guards : Guards rowsOnly dispatchSection 2 0x10000008 1 :=
    ⟨.bgt, by decide +kernel, by decide⟩
  have lis : (guardInsn rowsOnly dispatchSection 2 0x10000008 0).opcode = some .lis := by
    decide +kernel
  have notFirst : branch ≠ 0 := by
    rintro rfl
    obtain ⟨id, decoded, guard⟩ := guarded.guards
    obtain rfl := Option.some.inj (lis.symm.trans decoded)
    cases guard
  obtain rfl : branch = 1 := by
    by_contra other
    exact guarded.first 1 (by omega) (by omega) guards
  have compares : Compares rowsOnly dispatchSection 2 0x10000008
      ((guardInsn rowsOnly dispatchSection 2 0x10000008 1).operand 0) 2 :=
    ⟨by decide +kernel, by decide +kernel⟩
  have order := guarded.order
  refine ⟨rfl, ?_⟩
  by_contra other
  exact guarded.next 2 (by decide) (by omega) compares

/-- Index 0 is let pass and has a label, index 2 is not and has none. -/
theorem guarded_index_dispatch : ∃ table branch,
    tableAt rowsOnly dispatchImage dispatchSection .absolute 2 = some table ∧
      (Passes (guardInsn rowsOnly dispatchSection 2 0x10000008 branch) 0x10000008
          ⟨0, fun _ => false⟩ ∧ ∃ label, table.labels[0]? = some label) ∧
      ¬Passes (guardInsn rowsOnly dispatchSection 2 0x10000008 branch) 0x10000008
          ⟨0, fun _ => true⟩ ∧ ¬∃ label, table.labels[2]? = some label := by
  obtain ⟨table, found, -, labels⟩ := dispatch_found
  obtain ⟨branch, distance, guarded, passes⟩ :=
    guarded_index rowsOnly dispatchImage .absolute dispatchSection 2 found
  obtain ⟨rfl, rfl⟩ := dispatch_guard guarded
  have leads : LeadsOn (guardInsn rowsOnly dispatchSection 2 0x10000008 1) 0x10000008 := by
    unfold LeadsOn
    decide +kernel
  have low := passes leads ⟨0, fun _ => false⟩ 0 (decide_eq_false (BitVec.not_lt_zero)).symm
  have above : (guardInsn rowsOnly dispatchSection 2 0x10000008 2).operand 2 < 2 := by decide +kernel
  have high := passes leads ⟨0, fun _ => true⟩ 2 (decide_eq_true above).symm
  have labelled : ∃ label, table.labels[0]? = some label := ⟨0x10000044, by rw [labels]; rfl⟩
  have unlabelled : ¬∃ label, table.labels[2]? = some label := by rw [labels]; simp
  exact ⟨table, 1, found, ⟨low.mpr labelled, labelled⟩, fun passed => unlabelled (high.mp passed),
    unlabelled⟩

end UfcRecomp.Analyze
