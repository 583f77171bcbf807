import UfcRecomp.Lib.Memory
import UfcRecomp.Lib.Unsigned
import UfcRecomp.Utils.Image

/-!
# Guest memory and the function table

The runtime reserves the guest's address space and commits the image, behind it a table with
the host function of every guest address in the code range, the stack and a page of kernel
data. A slot takes eight bytes for the four bytes of a guest word, so the table has two bytes
for each byte of the code range. Addresses are offsets from the base of the reservation.
-/

namespace UfcRecomp.Native

open UfcRecomp.Lib UfcRecomp.Utils

/-! ## Constants of the recompiled program -/

/-- The lowest base of a code section. -/
def codeMin (image : Image) : Nat :=
  (image.sections.filter Section.isCode).foldl
    (fun low sec => if sec.base < low then sec.base else low) (2 ^ 64 - 1)

/-- The highest end of a code section. -/
def codeMax (image : Image) : Nat :=
  (image.sections.filter Section.isCode).foldl
    (fun high sec => if sec.base + sec.size > high then sec.base + sec.size else high) 0

/-- The constants of `ppc_config.h`. -/
structure PpcConfig where
  imageBase : Nat
  imageSize : Nat
  codeBase : Nat
  codeSize : Nat
  codeSize_lt : codeSize < 2 ^ 63
  codeEnd_le : codeBase + codeSize ≤ 2 ^ 64

/-- An image without code has an empty maximum below its maximal minimum. -/
theorem code_bounds (sections : List Section) {low high : Nat}
    (bounds : low = 2 ^ 64 - 1 ∧ high = 0 ∨ low ≤ high ∧ high < 2 ^ 34) :
    let low' := sections.foldl (fun low sec => if sec.base < low then sec.base else low) low
    let high' := sections.foldl
      (fun high sec => if sec.base + sec.size > high then sec.base + sec.size else high) high
    low' = 2 ^ 64 - 1 ∧ high' = 0 ∨ low' ≤ high' ∧ high' < 2 ^ 34 := by
  induction sections generalizing low high with
  | nil => exact bounds
  | cons sec sections ih =>
      apply ih
      have baseLow := sec.base_lt
      have sizeLow := sec.size_lt
      simp only
      split <;> split <;> omega

/-- The size of the code range. -/
def codeRangeSize (image : Image) : Nat := unsigned 64 ((codeMax image : Int) - codeMin image)

theorem codeRangeSize_cases (image : Image) :
    codeMin image = 2 ^ 64 - 1 ∧ codeRangeSize image = 1 ∨
      codeMin image + codeRangeSize image = codeMax image ∧ codeMax image < 2 ^ 34 := by
  rcases code_bounds (image.sections.filter Section.isCode) (.inl ⟨rfl, rfl⟩) with
    ⟨low, high⟩ | ⟨order, high⟩
  · change codeMin image = _ at low
    change codeMax image = _ at high
    exact .inl ⟨low, by rw [codeRangeSize, low, high]; decide⟩
  · change codeMin image ≤ codeMax image at order
    change codeMax image < _ at high
    have size : codeRangeSize image = codeMax image - codeMin image := unsigned_sub order (by omega)
    exact .inr ⟨by omega, high⟩

/-- The constants that the recompiler prints for an image. -/
def PpcConfig.ofImage (image : Image) (base size : Nat) : PpcConfig where
  imageBase := base
  imageSize := size
  codeBase := codeMin image
  codeSize := codeRangeSize image
  codeSize_lt := by
    have cases := codeRangeSize_cases image
    omega
  codeEnd_le := by
    have cases := codeRangeSize_cases image
    omega

/-! ## Committed regions -/

/-- A range of guest addresses. -/
structure Region where
  start : Nat
  size : Nat
  deriving DecidableEq

/-- Whether an address lies in the region. -/
def Region.Holds (region : Region) (address : Nat) : Prop :=
  region.start ≤ address ∧ address < region.start + region.size

def kAddressSpaceSize : Nat := 2 ^ 32
def kStackBase : Nat := 0x70000000
def kStackSize : Nat := 1024 * 1024
def kKernelDataBase : Nat := 0x60000000
def kKernelDataSize : Nat := 0x1000

namespace PpcConfig

variable (config : PpcConfig)

def kFunctionTableSize : Nat := unsigned 64 (config.codeSize * 2)

def image : Region := ⟨config.imageBase, config.imageSize⟩

def functionTable : Region := ⟨config.imageBase + config.imageSize, config.kFunctionTableSize⟩

/-- What the constructor of `NativeMemory` commits. -/
def regions : List Region :=
  [config.image, config.functionTable, ⟨kStackBase, kStackSize⟩,
    ⟨kKernelDataBase, kKernelDataSize⟩]

theorem kFunctionTableSize_eq : config.kFunctionTableSize = 2 * config.codeSize := by
  have small := config.codeSize_lt
  have size : config.kFunctionTableSize = config.codeSize * 2 := by
    exact_mod_cast @unsigned_of_lt 64 (config.codeSize * 2) (by omega)
  omega

end PpcConfig

/-- A valid `NativeMemory`: every region could be committed within the reservation. -/
structure NativeMemory (config : PpcConfig) where
  contents : Memory
  committed : ∀ region ∈ config.regions,
    0 < region.size ∧ region.start + region.size ≤ kAddressSpaceSize

/-! ## The function table -/

/-- An entry of `PPCFuncMappings`; the host function is a pointer. -/
structure PpcFuncMapping where
  guest : BitVec 64
  host : BitVec 64

/-- The guest address of an entry. -/
def PpcFuncMapping.guestAddress (mapping : PpcFuncMapping) : Nat :=
  unsigned 32 mapping.guest.toNat

/-- The bytes of a host pointer in memory. -/
def pointerBytes (host : BitVec 64) : Bytes := (Bytes.encode 8 host.toNat).reverse

/-- The host pointer with given bytes. -/
def pointer (bytes : Bytes) : BitVec 64 := BitVec.ofNat 64 (Bytes.value bytes.reverse)

namespace PpcConfig

variable (config : PpcConfig)

/-- The slot that the table's initialization writes for a guest address. -/
def slot (guest : Nat) : Nat :=
  config.imageBase + config.imageSize +
    unsigned 64 (unsigned 64 ((guest : Int) - config.codeBase) * 2)

/-- The loop of `initializeFunctionTable`. It has no result when the entries end without a
null pointer. -/
def fillTable (memory : Memory) (count : Nat) : List PpcFuncMapping → Option (Memory × Nat)
  | [] => none
  | mapping :: rest =>
    if mapping.host = 0 then some (memory, count)
    else
      let guest := mapping.guestAddress
      if guest < config.codeBase ∨ guest ≥ unsigned 64 ((config.codeBase + config.codeSize : Nat)) then
        fillTable memory (count + 1) rest
      else
        fillTable (memory.store (config.slot guest) (pointerBytes mapping.host))
          (count + 1) rest

/-- `PPC_LOOKUP_FUNC`. -/
def ppcLookupFunc (memory : Memory) (y : Nat) : BitVec 64 :=
  pointer (memory.load (config.imageBase + config.imageSize +
    unsigned 64 (unsigned 64 ((unsigned 32 y : Int) - config.codeBase) * 2)) 8)

end PpcConfig

/-- `NativeMemory::initializeFunctionTable`, with the number of entries that it returns. -/
def NativeMemory.initializeFunctionTable {config : PpcConfig} (native : NativeMemory config)
    (mappings : List PpcFuncMapping) : Option (Memory × Nat) :=
  config.fillTable native.contents 0 mappings

/-- Whether an address lies in the code range. -/
def PpcConfig.InCode (config : PpcConfig) (address : Nat) : Prop :=
  config.codeBase ≤ address ∧ address < config.codeBase + config.codeSize

instance (config : PpcConfig) (address : Nat) : Decidable (config.InCode address) :=
  inferInstanceAs (Decidable (_ ∧ _))

/-- The host function of the last entry for a guest address; null when there is none. -/
def hostOf (mappings : List PpcFuncMapping) (address : Nat) : BitVec 64 :=
  ((mappings.filter fun mapping => mapping.guestAddress = address).getLast?.map
    PpcFuncMapping.host).getD 0

theorem hostOf_append_singleton (mappings : List PpcFuncMapping) (mapping : PpcFuncMapping)
    (address : Nat) :
    hostOf (mappings ++ [mapping]) address =
      if mapping.guestAddress = address then mapping.host else hostOf mappings address := by
  by_cases same : mapping.guestAddress = address <;> simp [hostOf, same]

@[simp] theorem length_pointerBytes (host : BitVec 64) : (pointerBytes host).length = 8 := by
  simp [pointerBytes]

@[simp] theorem pointer_pointerBytes (host : BitVec 64) : pointer (pointerBytes host) = host := by
  rw [pointer, pointerBytes, List.reverse_reverse, Bytes.value_encode_of_lt host.isLt,
    BitVec.ofNat_toNat, BitVec.setWidth_eq]

theorem guestAddress_lt (mapping : PpcFuncMapping) : mapping.guestAddress < 2 ^ 32 :=
  unsigned_lt 32 _

namespace PpcConfig

variable {config : PpcConfig}

/-- The slot of an address in the code range, without wrapping around. -/
theorem slot_eq {address : Nat} (inCode : config.InCode address) :
    config.slot address =
      config.imageBase + config.imageSize + 2 * (address - config.codeBase) := by
  obtain ⟨low, high⟩ := inCode
  have rangeEnd := config.codeEnd_le
  have rangeSize := config.codeSize_lt
  have distance : unsigned 64 ((address : Int) - config.codeBase) = address - config.codeBase :=
    unsigned_sub low (by omega)
  have double : unsigned 64 ((address - config.codeBase : Nat) * 2) =
      (address - config.codeBase) * 2 := by
    exact_mod_cast @unsigned_of_lt 64 ((address - config.codeBase) * 2) (by omega)
  rw [slot, distance, double]
  omega

/-- The loop's test picks out the code range. -/
theorem skipped_iff {guest : Nat} (low : guest < 2 ^ 32) :
    (guest < config.codeBase ∨ guest ≥ unsigned 64 ((config.codeBase + config.codeSize : Nat))) ↔
      ¬ config.InCode guest := by
  have rangeEnd := config.codeEnd_le
  have rangeSize := config.codeSize_lt
  rw [InCode, unsigned_natCast]
  rcases Nat.lt_or_eq_of_le rangeEnd with inside | full
  · rw [Nat.mod_eq_of_lt inside]
    omega
  · rw [full]
    omega

/-- Slots of different words do not overlap. -/
theorem slot_apart {left right : Nat} (leftCode : config.InCode left)
    (rightCode : config.InCode right) (leftWord : 4 ∣ left) (rightWord : 4 ∣ right)
    (different : left ≠ right) :
    config.slot left + 8 ≤ config.slot right ∨ config.slot right + 8 ≤ config.slot left := by
  rw [slot_eq leftCode, slot_eq rightCode]
  obtain ⟨_, _⟩ := leftCode
  obtain ⟨_, _⟩ := rightCode
  omega

/-- What the table holds after some entries. -/
structure Filled (config : PpcConfig) (done : List PpcFuncMapping) (memory : Memory) : Prop where
  slots : ∀ address, 4 ∣ address → config.InCode address →
    memory.load (config.slot address) 8 = pointerBytes (hostOf done address)
  written : ∀ position, memory.written position ↔
    ∃ mapping ∈ done, config.InCode mapping.guestAddress ∧
      config.slot mapping.guestAddress ≤ position ∧
      position < config.slot mapping.guestAddress + 8

theorem Filled.zeroed : Filled config [] Memory.zeroed where
  slots address _ _ := by
    have null : Bytes.zeros 8 = pointerBytes 0 := by decide
    rw [Memory.load_zeroed, null]
    rfl
  written position := by simp [Memory.zeroed]

variable {done : List PpcFuncMapping} {memory : Memory} {mapping : PpcFuncMapping}

/-- An entry outside the code range. -/
theorem Filled.skip (filled : Filled config done memory)
    (outside : ¬ config.InCode mapping.guestAddress) :
    Filled config (done ++ [mapping]) memory where
  slots address word inCode := by
    have other : mapping.guestAddress ≠ address := by
      rintro rfl
      exact outside inCode
    rw [hostOf_append_singleton, if_neg other]
    exact filled.slots address word inCode
  written position := by
    rw [filled.written]
    constructor
    · rintro ⟨entry, member, rest⟩
      exact ⟨entry, List.mem_append_left _ member, rest⟩
    · rintro ⟨entry, member, inCode, rest⟩
      rcases List.mem_append.mp member with earlier | last
      · exact ⟨entry, earlier, inCode, rest⟩
      · obtain rfl := List.mem_singleton.mp last
        exact absurd inCode outside

/-- An entry in the code range. -/
theorem Filled.store (filled : Filled config done memory)
    (inCode : config.InCode mapping.guestAddress) (word : 4 ∣ mapping.guestAddress) :
    Filled config (done ++ [mapping])
      (memory.store (config.slot mapping.guestAddress) (pointerBytes mapping.host)) where
  slots address aligned inside := by
    rw [hostOf_append_singleton]
    by_cases same : mapping.guestAddress = address
    · subst same
      rw [if_pos rfl, Memory.load_store (length_pointerBytes _)]
    · rw [if_neg same, Memory.load_store_of_disjoint, filled.slots address aligned inside]
      rw [length_pointerBytes]
      exact slot_apart inside inCode aligned word (Ne.symm same)
  written position := by
    rw [Memory.written_store, length_pointerBytes, filled.written]
    constructor
    · rintro (⟨entry, member, rest⟩ | here)
      · exact ⟨entry, List.mem_append_left _ member, rest⟩
      · exact ⟨mapping, by simp, inCode, here⟩
    · rintro ⟨entry, member, rest⟩
      rcases List.mem_append.mp member with earlier | last
      · exact .inl ⟨entry, earlier, rest⟩
      · obtain rfl := List.mem_singleton.mp last
        exact .inr rest.2

/-- The whole loop, from any state of it. -/
theorem filled_of_fillTable (entries : List PpcFuncMapping) {terminator : PpcFuncMapping}
    {rest : List PpcFuncMapping} {count : Nat} (filled : Filled config done memory)
    (hosts : ∀ entry ∈ entries, entry.host ≠ 0) (words : ∀ entry ∈ entries, 4 ∣ entry.guestAddress)
    (null : terminator.host = 0) :
    ∃ final, config.fillTable memory count (entries ++ terminator :: rest) =
        some (final, count + entries.length) ∧ Filled config (done ++ entries) final := by
  induction entries generalizing done memory count with
  | nil => exact ⟨memory, by simp [fillTable, null], by simpa using filled⟩
  | cons entry entries ih =>
      have host := hosts entry (by simp)
      have word := words entry (by simp)
      have hosts' : ∀ later ∈ entries, later.host ≠ 0 :=
        fun later member => hosts later (by simp [member])
      have words' : ∀ later ∈ entries, 4 ∣ later.guestAddress :=
        fun later member => words later (by simp [member])
      have skipped := @skipped_iff config _ (guestAddress_lt entry)
      by_cases inCode : config.InCode entry.guestAddress
      · obtain ⟨final, run, result⟩ :=
          @ih (done ++ [entry]) _ (count + 1) (filled.store inCode word) hosts' words'
        refine ⟨final, ?_, by simpa using result⟩
        rw [List.cons_append, fillTable, if_neg host]
        simp only
        rw [if_neg (fun test => skipped.mp test inCode), run, List.length_cons]
        congr 2
        omega
      · obtain ⟨final, run, result⟩ :=
          @ih (done ++ [entry]) _ (count + 1) (filled.skip inCode) hosts' words'
        refine ⟨final, ?_, by simpa using result⟩
        rw [List.cons_append, fillTable, if_neg host]
        simp only
        rw [if_pos (skipped.mpr inCode), run, List.length_cons]
        congr 2
        omega

/-! ## What the table promises -/

/-- The table for a list of entries: every word of the code range has the host function of its
last entry in a slot of its own, and only the committed table was written. -/
structure TableBuilt (config : PpcConfig) (entries : List PpcFuncMapping) (memory : Memory) :
    Prop where
  lookup : ∀ address < 2 ^ 32, 4 ∣ address → config.InCode address →
    config.ppcLookupFunc memory address = hostOf entries address
  apart : ∀ left right, 4 ∣ left → 4 ∣ right → config.InCode left → config.InCode right →
    left ≠ right → config.slot left + 8 ≤ config.slot right ∨
      config.slot right + 8 ≤ config.slot left
  frame : ∀ position, memory.written position → config.functionTable.Holds position

/-- The reader's slot is the writer's. -/
theorem ppcLookupFunc_eq {address : Nat} (low : address < 2 ^ 32) :
    config.ppcLookupFunc memory address = pointer (memory.load (config.slot address) 8) := by
  rw [ppcLookupFunc, unsigned_of_lt low, slot]

/-- Only the last word of the code range can have a slot that leaves the table. -/
theorem Filled.frame_iff (filled : Filled config done memory) :
    (∀ position, memory.written position → config.functionTable.Holds position) ↔
      ∀ entry ∈ done, config.InCode entry.guestAddress →
        entry.guestAddress + 4 ≤ config.codeBase + config.codeSize := by
  have tableSize := config.kFunctionTableSize_eq
  constructor
  · intro frame entry member inCode
    have last := frame (config.slot entry.guestAddress + 7)
      ((filled.written _).mpr ⟨entry, member, inCode, by omega, by omega⟩)
    have here := slot_eq inCode
    obtain ⟨low, high⟩ := inCode
    obtain ⟨_, below⟩ := last
    simp only [functionTable] at below
    omega
  · intro whole position written
    obtain ⟨entry, member, inCode, low, high⟩ := (filled.written position).mp written
    have room := whole entry member inCode
    have here := slot_eq inCode
    obtain ⟨codeLow, _⟩ := inCode
    constructor
    · simp only [functionTable]
      omega
    · simp only [functionTable]
      omega

/-- A filled table keeps its promise exactly when no entry needs a slot behind it. -/
theorem Filled.built_iff (filled : Filled config done memory) :
    TableBuilt config done memory ↔
      ∀ entry ∈ done, config.InCode entry.guestAddress →
        entry.guestAddress + 4 ≤ config.codeBase + config.codeSize := by
  rw [← filled.frame_iff]
  constructor
  · exact TableBuilt.frame
  · intro frame
    constructor
    · intro address low word inCode
      rw [ppcLookupFunc_eq low, filled.slots address word inCode, pointer_pointerBytes]
    · intro left right leftWord rightWord leftCode rightCode different
      exact slot_apart leftCode rightCode leftWord rightWord different
    · exact frame

/-- A code range of whole words leaves room for every slot. -/
theorem Filled.built_of_whole (filled : Filled config done memory)
    (whole : 4 ∣ config.codeBase + config.codeSize)
    (words : ∀ entry ∈ done, 4 ∣ entry.guestAddress) : TableBuilt config done memory := by
  apply filled.built_iff.mpr
  intro entry member inCode
  have word := words entry member
  obtain ⟨_, high⟩ := inCode
  omega

end PpcConfig

/-- The cast to 32 bits keeps words aligned. -/
theorem guestAddress_word {mapping : PpcFuncMapping} (word : 4 ∣ mapping.guest.toNat) :
    4 ∣ mapping.guestAddress := by
  rw [PpcFuncMapping.guestAddress, unsigned_natCast]
  omega

/-- The initialization always completes, and the table is as promised exactly when no entry
lies in a part of a word at the end of the code range. -/
theorem initializeFunctionTable_built {config : PpcConfig} (native : NativeMemory config)
    (fresh : native.contents = Memory.zeroed) (entries rest : List PpcFuncMapping)
    (terminator : PpcFuncMapping) (words : ∀ entry ∈ entries, 4 ∣ entry.guest.toNat)
    (hosts : ∀ entry ∈ entries, entry.host ≠ 0) (null : terminator.host = 0) :
    ∃ final, native.initializeFunctionTable (entries ++ terminator :: rest) =
        some (final, entries.length) ∧
      (config.TableBuilt entries final ↔ ∀ entry ∈ entries, config.InCode entry.guestAddress →
        entry.guestAddress + 4 ≤ config.codeBase + config.codeSize) := by
  have words' : ∀ entry ∈ entries, 4 ∣ entry.guestAddress :=
    fun entry member => guestAddress_word (words entry member)
  obtain ⟨final, run, filled⟩ :
      ∃ final, config.fillTable .zeroed 0 (entries ++ terminator :: rest) =
        some (final, 0 + entries.length) ∧ config.Filled ([] ++ entries) final :=
    PpcConfig.filled_of_fillTable entries .zeroed hosts words' null
  refine ⟨final, ?_, filled.built_iff⟩
  rw [NativeMemory.initializeFunctionTable, fresh, run, Nat.zero_add]

/-- A code section of one and a half words. -/
def partialSection : Section := .ofAddress ".text" 0x82001000 6 sectionFlagsCode fun _ => 0

/-- An image with a single section. -/
def sectionImage (sec : Section) : Image where
  sections := [sec]
  symbols := .empty
  entryPoint := sec.base
  ordered := List.pairwise_singleton _ _
  thunks := SymbolTable.thunks_empty

def partialConfig : PpcConfig := .ofImage (sectionImage partialSection) 0x82000000 0x10000

/-- Fresh memory for the image. -/
def partialMemory : NativeMemory partialConfig where
  contents := .zeroed
  committed := by decide

/-- One function for each word of the section that is complete. -/
theorem initializeFunctionTable_built_firstWord :
    ∃ final, partialMemory.initializeFunctionTable [⟨0x82001000, 0x140001000⟩, ⟨0, 0⟩] =
        some (final, 1) ∧
      (partialConfig.TableBuilt [⟨0x82001000, 0x140001000⟩] final ↔
        ∀ entry ∈ [PpcFuncMapping.mk 0x82001000 0x140001000],
          partialConfig.InCode entry.guestAddress →
            entry.guestAddress + 4 ≤ partialConfig.codeBase + partialConfig.codeSize) :=
  initializeFunctionTable_built partialMemory rfl [⟨0x82001000, 0x140001000⟩] [] ⟨0, 0⟩
    (by decide) (by decide) rfl

/-- A function in the last half word has a slot that leaves the table. -/
theorem not_initializeFunctionTable_built :
    ∃ final, partialMemory.initializeFunctionTable [⟨0x82001004, 0x140001000⟩, ⟨0, 0⟩] =
        some (final, 1) ∧
      ¬ partialConfig.TableBuilt [⟨0x82001004, 0x140001000⟩] final := by
  obtain ⟨final, run, filled⟩ :
      ∃ final, partialConfig.fillTable .zeroed 0 [⟨0x82001004, 0x140001000⟩, ⟨0, 0⟩] =
        some (final, 0 + 1) ∧
        partialConfig.Filled ([] ++ [⟨0x82001004, 0x140001000⟩]) final :=
    PpcConfig.filled_of_fillTable [⟨0x82001004, 0x140001000⟩] .zeroed (by decide) (by decide) rfl
  refine ⟨final, run, fun built => ?_⟩
  have room := filled.built_iff.mp built ⟨0x82001004, 0x140001000⟩ (by simp) (by decide)
  exact absurd room (by decide)

end UfcRecomp.Native
