import UfcRecomp.Lib.Bytes

/-!
# Looking up resources

`XDBFWrapper` looks up the resources of a file that is held in a buffer, and the strings of a
language among them. Nothing that it reads is checked against the size of the buffer, and it takes
the content to start behind the entries that are used instead of behind the whole table.
-/

namespace UfcRecomp.Xdbf

open UfcRecomp.Lib

def XDBF_SIGNATURE : Nat := 0x58444246

def XDBF_SPA_NAMESPACE_STRING_TABLE : BitVec 16 := 3

/-! ## The wrapper -/

/-- The members of the wrapper; pointers are places in the buffer. There is none for a null pointer
and for a member that the constructor leaves as it is. -/
structure XDBFWrapper where
  buffer : Bytes
  pBuffer : Option Nat := none
  pHeader : Option Nat := none
  pEntries : Option Nat := none
  pFiles : Option Nat := none
  pContent : Option Nat := none

structure XDBFBlock where
  pBuffer : Nat
  bufferSize : Nat
  deriving DecidableEq

/-- The constructor. -/
def XDBFWrapper.create (buffer : Bytes) : Option XDBFWrapper :=
  if buffer.length ≤ 24 then some { buffer }
  else do
    let signature ← buffer.number 0 4
    if signature ≠ XDBF_SIGNATURE then
      return { buffer, pHeader := some 0 }
    else
      let entryCount ← buffer.number 12 4
      let freeSpaceTableLength ← buffer.number 16 4
      return {
        buffer
        pBuffer := some 0
        pHeader := some 0
        pEntries := some 24
        pFiles := some (24 + 18 * entryCount)
        pContent := some (24 + 18 * entryCount + 8 * freeSpaceTableLength) }

namespace XDBFWrapper

/-- The loop over the entries from index `i` on. There is no result when a pointer is not set, when
a read leaves the buffer, and when the index leaves the numbers of an `int`. -/
def searchEntries (wrapper : XDBFWrapper) (ns : BitVec 16) (id : BitVec 64) :
    Nat → Nat → Option (Option XDBFBlock)
  | 0, _ => some none
  | count + 1, i => do
    let next := if i + 1 < 2 ^ 31 then wrapper.searchEntries ns id count (i + 1) else none
    let entry := (← wrapper.pEntries) + 18 * i
    if (← wrapper.buffer.number entry 2) = ns.toNat then
      if (← wrapper.buffer.number (entry + 2) 8) = id.toNat then
        let offset ← wrapper.buffer.number (entry + 10) 4
        let length ← wrapper.buffer.number (entry + 14) 4
        return some ⟨(← wrapper.pContent) + offset, length⟩
      else next
    else next

/-- `GetResource`; the inner `none` is the null block. -/
def getResource (wrapper : XDBFWrapper) (ns : BitVec 16) (id : BitVec 64) :
    Option (Option XDBFBlock) := do
  let entryCount ← wrapper.buffer.number ((← wrapper.pHeader) + 12) 4
  wrapper.searchEntries ns id entryCount 0

/-- The loop over the strings of a block. -/
def searchStrings (buffer : Bytes) (id : BitVec 16) : Nat → Nat → Option Bytes
  | 0, _ => some []
  | count + 1, seek => do
    let entryId ← buffer.number seek 2
    let length ← buffer.number (seek + 2) 2
    if entryId = id.toNat then buffer.read (seek + 4) length
    else searchStrings buffer id count (seek + 4 + length)

/-- `GetString` -/
def getString (wrapper : XDBFWrapper) (language : BitVec 32) (id : BitVec 16) : Option Bytes := do
  match ← wrapper.getResource XDBF_SPA_NAMESPACE_STRING_TABLE (language.setWidth 64) with
  | none => return []
  | some languageBlock =>
    let stringCount ← wrapper.buffer.number (languageBlock.pBuffer + 12) 2
    searchStrings wrapper.buffer id stringCount (languageBlock.pBuffer + 14)

end XDBFWrapper

/-- `GetResource` on the wrapper of a buffer. -/
def resource (buffer : Bytes) (ns : BitVec 16) (id : BitVec 64) : Option (Option XDBFBlock) :=
  (XDBFWrapper.create buffer).bind fun wrapper => wrapper.getResource ns id

/-- `GetString` on the wrapper of a buffer. -/
def string (buffer : Bytes) (language : BitVec 32) (id : BitVec 16) : Option Bytes :=
  (XDBFWrapper.create buffer).bind fun wrapper => wrapper.getString language id

/-! ## The layout of a file -/

section Layout

variable (buffer : Bytes)

def entryTableLength : Nat := buffer.peek 8 4
def entryCount : Nat := buffer.peek 12 4
def freeSpaceTableLength : Nat := buffer.peek 16 4
def freeSpaceTableEntryCount : Nat := buffer.peek 20 4

def entryNamespace (i : Nat) : Nat := buffer.peek (24 + 18 * i) 2
def entryId (i : Nat) : Nat := buffer.peek (24 + 18 * i + 2) 8
def entryOffset (i : Nat) : Nat := buffer.peek (24 + 18 * i + 10) 4
def entryLength (i : Nat) : Nat := buffer.peek (24 + 18 * i + 14) 4

/-- The content starts behind the capacities of both tables. -/
def content : Nat := 24 + 18 * entryTableLength buffer + 8 * freeSpaceTableLength buffer

/-- A file: the tables hold what they use, and the resources lie in the content. -/
structure Laid : Prop where
  signature : buffer.peek 0 4 = XDBF_SIGNATURE
  entries : entryCount buffer ≤ entryTableLength buffer
  freeSpace : freeSpaceTableEntryCount buffer ≤ freeSpaceTableLength buffer
  header : 24 ≤ buffer.length
  tables : content buffer ≤ buffer.length
  resources : ∀ i < entryCount buffer,
    content buffer + entryOffset buffer i + entryLength buffer i ≤ buffer.length

/-- An entry has a namespace and an identifier. -/
def IsEntry (ns : BitVec 16) (id : BitVec 64) (i : Nat) : Prop :=
  entryNamespace buffer i = ns.toNat ∧ entryId buffer i = id.toNat

instance (ns : BitVec 16) (id : BitVec 64) (i : Nat) : Decidable (IsEntry buffer ns id i) :=
  inferInstanceAs (Decidable (_ ∧ _))

/-- The first used entry with a namespace and an identifier. -/
def firstEntry (ns : BitVec 16) (id : BitVec 64) : Option Nat :=
  (List.range (entryCount buffer)).find? fun i => IsEntry buffer ns id i

/-- The content bytes of an entry. -/
def block (i : Nat) : XDBFBlock := ⟨content buffer + entryOffset buffer i, entryLength buffer i⟩

end Layout

/-- The strings of a block from a place on, with their identifiers; none when they do not fit. -/
def stringsFrom (bytes : Bytes) : Nat → Nat → Option (List (Nat × Bytes))
  | 0, _ => some []
  | count + 1, seek => do
    let id ← bytes.number seek 2
    let length ← bytes.number (seek + 2) 2
    let text ← bytes.read (seek + 4) length
    let rest ← stringsFrom bytes count (seek + 4 + length)
    return (id, text) :: rest

/-- The strings of a block. -/
def blockStrings (bytes : Bytes) : Option (List (Nat × Bytes)) := do
  stringsFrom bytes (← bytes.number 12 2) 14

/-- The first string with an identifier, or the empty text. -/
def firstString (strings : List (Nat × Bytes)) (id : BitVec 16) : Bytes :=
  ((strings.find? fun entry => entry.1 = id.toNat).map Prod.snd).getD []

/-! ## The search among the entries -/

/-- The wrapper of a buffer with the signature. -/
def opened (buffer : Bytes) : XDBFWrapper where
  buffer
  pBuffer := some 0
  pHeader := some 0
  pEntries := some 24
  pFiles := some (24 + 18 * entryCount buffer)
  pContent := some (24 + 18 * entryCount buffer + 8 * freeSpaceTableLength buffer)

/-- Where the wrapper takes an entry's content to be. -/
def foundBlock (buffer : Bytes) (i : Nat) : XDBFBlock :=
  ⟨24 + 18 * entryCount buffer + 8 * freeSpaceTableLength buffer + entryOffset buffer i,
    entryLength buffer i⟩

theorem create_of_signature {buffer : Bytes} (header : 24 < buffer.length)
    (signature : buffer.peek 0 4 = XDBF_SIGNATURE) :
    XDBFWrapper.create buffer = some (opened buffer) := by
  rw [XDBFWrapper.create, if_neg (by omega), Bytes.number_of_le (by omega),
    Bytes.number_of_le (by omega), Bytes.number_of_le (by omega)]
  simp only [Option.bind_eq_bind, Option.bind_some]
  rw [if_neg (by simpa using signature)]
  rfl

theorem create_of_ne {buffer : Bytes} (header : 24 < buffer.length)
    (signature : buffer.peek 0 4 ≠ XDBF_SIGNATURE) :
    XDBFWrapper.create buffer = some { buffer, pHeader := some 0 } := by
  rw [XDBFWrapper.create, if_neg (by omega), Bytes.number_of_le (by omega)]
  simp only [Option.bind_eq_bind, Option.bind_some]
  rw [if_pos signature]
  rfl

section

variable {buffer : Bytes} {ns : BitVec 16} {id : BitVec 64}

/-- The search for an entry from index `i` on, step by step. -/
theorem searchEntries_succ (count i : Nat) :
    (opened buffer).searchEntries ns id (count + 1) i =
      (buffer.number (24 + 18 * i) 2).bind fun namespaceId =>
        if namespaceId = ns.toNat then
          (buffer.number (24 + 18 * i + 2) 8).bind fun resourceId =>
            if resourceId = id.toNat then
              (buffer.number (24 + 18 * i + 10) 4).bind fun offset =>
                (buffer.number (24 + 18 * i + 14) 4).bind fun length =>
                  some (some ⟨24 + 18 * entryCount buffer + 8 * freeSpaceTableLength buffer +
                    offset, length⟩)
            else if i + 1 < 2 ^ 31 then (opened buffer).searchEntries ns id count (i + 1) else none
        else if i + 1 < 2 ^ 31 then (opened buffer).searchEntries ns id count (i + 1)
          else none := rfl

/-- The same step when the key of the entry is in the buffer. -/
theorem searchEntries_of_inside {i : Nat} (count : Nat)
    (inside : 24 + 18 * i + 10 ≤ buffer.length) :
    (opened buffer).searchEntries ns id (count + 1) i =
      if IsEntry buffer ns id i then
        (buffer.number (24 + 18 * i + 10) 4).bind fun offset =>
          (buffer.number (24 + 18 * i + 14) 4).bind fun length =>
            some (some ⟨24 + 18 * entryCount buffer + 8 * freeSpaceTableLength buffer + offset,
              length⟩)
      else if i + 1 < 2 ^ 31 then (opened buffer).searchEntries ns id count (i + 1) else none := by
  rw [searchEntries_succ, Bytes.number_of_le (by omega), Bytes.number_of_le (by omega)]
  simp only [Option.bind_some]
  change (if entryNamespace buffer i = ns.toNat then
    if entryId buffer i = id.toNat then _ else _ else _) = _
  by_cases sameNamespace : entryNamespace buffer i = ns.toNat
  · by_cases sameId : entryId buffer i = id.toNat
    · rw [if_pos sameNamespace, if_pos sameId]
      exact (if_pos ⟨sameNamespace, sameId⟩).symm
    · rw [if_pos sameNamespace, if_neg sameId]
      exact (if_neg fun isEntry => sameId isEntry.2).symm
  · rw [if_neg sameNamespace]
    exact (if_neg fun isEntry => sameNamespace isEntry.1).symm

/-- With its entries in the buffer the search gives the first that matches. -/
theorem searchEntries_eq {count i : Nat} (bound : i + count < 2 ^ 31)
    (keys : ∀ j < i + count, 24 + 18 * j + 10 ≤ buffer.length)
    (whole : ∀ j, (List.range' i count).find? (fun j => IsEntry buffer ns id j) = some j →
      24 + 18 * j + 18 ≤ buffer.length) :
    (opened buffer).searchEntries ns id count i =
      some (((List.range' i count).find? fun j => IsEntry buffer ns id j).map
        (foundBlock buffer)) := by
  induction count generalizing i with
  | zero => rfl
  | succ count ih =>
      rw [List.range'_succ] at whole ⊢
      rw [searchEntries_of_inside count (keys i (by omega))]
      by_cases isEntry : IsEntry buffer ns id i
      · rw [List.find?_cons_of_pos (by simpa using isEntry)] at whole ⊢
        have room := whole i rfl
        rw [if_pos isEntry, Bytes.number_of_le (by omega), Bytes.number_of_le (by omega)]
        rfl
      · rw [List.find?_cons_of_neg (by simpa using isEntry)] at whole ⊢
        rw [if_neg isEntry, if_pos (by omega)]
        exact ih (by omega) (fun j less => keys j (by omega)) whole

/-- A search without a match reads every namespace, and every identifier behind its namespace. -/
theorem inside_of_unmatched {count i : Nat}
    (defined : ((opened buffer).searchEntries ns id count i).isSome)
    (unmatched : ∀ j, i ≤ j → j < i + count → ¬IsEntry buffer ns id j) :
    ∀ j, i ≤ j → j < i + count → j + 1 < 2 ^ 31 ∧
      (entryNamespace buffer j = ns.toNat → 24 + 18 * j + 10 ≤ buffer.length) := by
  induction count generalizing i with
  | zero => exact fun j low high => absurd high (by omega)
  | succ count ih =>
      have here : i + 1 < 2 ^ 31 ∧
          (entryNamespace buffer i = ns.toNat → 24 + 18 * i + 10 ≤ buffer.length) ∧
            ((opened buffer).searchEntries ns id count (i + 1)).isSome := by
        rw [searchEntries_succ] at defined
        obtain ⟨result, found⟩ := Option.isSome_iff_exists.mp defined
        obtain ⟨namespaceId, read, found⟩ := Option.bind_eq_some_iff.mp found
        have place := Bytes.le_of_number read
        rw [Bytes.number_of_le place] at read
        obtain rfl : entryNamespace buffer i = namespaceId := Option.some.inj read
        by_cases sameNamespace : entryNamespace buffer i = ns.toNat
        · rw [if_pos sameNamespace] at found
          obtain ⟨resourceId, read, found⟩ := Option.bind_eq_some_iff.mp found
          have place := Bytes.le_of_number read
          rw [Bytes.number_of_le place] at read
          obtain rfl : entryId buffer i = resourceId := Option.some.inj read
          have other : entryId buffer i ≠ id.toNat := fun sameId =>
            unmatched i (Nat.le_refl i) (by omega) ⟨sameNamespace, sameId⟩
          rw [if_neg other] at found
          split_ifs at found with bound
          exact ⟨bound, fun _ => by omega, Option.isSome_iff_exists.mpr ⟨_, found⟩⟩
        · rw [if_neg sameNamespace] at found
          split_ifs at found with bound
          exact ⟨bound, fun same => absurd same sameNamespace,
            Option.isSome_iff_exists.mpr ⟨_, found⟩⟩
      intro j low high
      by_cases first : j = i
      · exact first ▸ ⟨here.1, here.2.1⟩
      · exact ih here.2.2 (fun j low high => unmatched j (by omega) (by omega)) j (by omega)
          (by omega)

/-- A search that comes to a match reads the whole entry. -/
theorem inside_of_matched {count i j : Nat}
    (defined : ((opened buffer).searchEntries ns id count i).isSome)
    (keys : ∀ j < i + count, 24 + 18 * j + 10 ≤ buffer.length)
    (first : (List.range' i count).find? (fun j => IsEntry buffer ns id j) = some j) :
    24 + 18 * j + 18 ≤ buffer.length := by
  induction count generalizing i with
  | zero => exact absurd first (by simp)
  | succ count ih =>
      rw [searchEntries_of_inside count (keys i (by omega))] at defined
      rw [List.range'_succ] at first
      by_cases isEntry : IsEntry buffer ns id i
      · rw [List.find?_cons_of_pos (by simpa using isEntry)] at first
        obtain rfl := Option.some.inj first
        rw [if_pos isEntry] at defined
        obtain ⟨result, found⟩ := Option.isSome_iff_exists.mp defined
        obtain ⟨offset, -, found⟩ := Option.bind_eq_some_iff.mp found
        obtain ⟨length, read, -⟩ := Option.bind_eq_some_iff.mp found
        have := Bytes.le_of_number read
        omega
      · rw [List.find?_cons_of_neg (by simpa using isEntry)] at first
        rw [if_neg isEntry] at defined
        split_ifs at defined
        · exact ih defined (fun j less => keys j (by omega)) first
        · exact absurd defined (by simp)

end

/-! ## Resources -/

/-- There is a number that fewer numbers leave out. -/
theorem exists_fresh {width count : Nat} (used : Nat → Nat) (few : count < 2 ^ width) :
    ∃ fresh : BitVec width, ∀ j < count, used j ≠ fresh.toNat := by
  by_contra none
  have covered : List.range (2 ^ width) ⊆ (List.range count).map used := by
    intro number member
    have small := List.mem_range.mp member
    by_contra missing
    refine none ⟨BitVec.ofNat width number, fun j less same => missing ?_⟩
    rw [BitVec.toNat_ofNat, Nat.mod_eq_of_lt small] at same
    exact same ▸ List.mem_map_of_mem (List.mem_range.mpr less)
  have := List.nodup_range.length_le_of_subset covered
  rw [List.length_map, List.length_range, List.length_range] at this
  omega

/-- The used entries lie in the buffer. The last eight bytes of an entry are not needed when an
entry in front of it has the same key. -/
structure EntriesFit (buffer : Bytes) : Prop where
  header : 24 < buffer.length
  signature : entryCount buffer = 0 ∨ buffer.peek 0 4 = XDBF_SIGNATURE
  count : entryCount buffer < 2 ^ 31
  keys : ∀ i < entryCount buffer, 24 + 18 * i + 10 ≤ buffer.length
  whole : ∀ i < entryCount buffer, (∀ j < i, ¬(entryNamespace buffer j = entryNamespace buffer i ∧
    entryId buffer j = entryId buffer i)) → 24 + 18 * i + 18 ≤ buffer.length

section

variable {buffer : Bytes}

theorem resource_opened (header : 24 < buffer.length)
    (signature : buffer.peek 0 4 = XDBF_SIGNATURE) (ns : BitVec 16) (id : BitVec 64) :
    resource buffer ns id = (opened buffer).searchEntries ns id (entryCount buffer) 0 := by
  rw [resource, create_of_signature header signature, Option.bind_some]
  change (buffer.number (0 + 12) 4).bind _ = _
  rw [Bytes.number_of_le (by omega)]
  rfl

/-- Without the signature there is a result only when there are no entries. -/
theorem resource_of_ne (header : 24 < buffer.length)
    (signature : buffer.peek 0 4 ≠ XDBF_SIGNATURE) (ns : BitVec 16) (id : BitVec 64) :
    resource buffer ns id = if entryCount buffer = 0 then some none else none := by
  rw [resource, create_of_ne header signature, Option.bind_some]
  change (buffer.number (0 + 12) 4).bind _ = _
  rw [Bytes.number_of_le (by omega)]
  change XDBFWrapper.searchEntries _ ns id (entryCount buffer) 0 = _
  cases entryCount buffer with
  | zero => rfl
  | succ count => rfl

theorem resource_of_short (header : ¬24 < buffer.length) (ns : BitVec 16) (id : BitVec 64) :
    resource buffer ns id = none := by
  rw [resource, XDBFWrapper.create, if_pos (by omega)]
  rfl

theorem isEntry_of_firstEntry {ns : BitVec 16} {id : BitVec 64} {i : Nat}
    (first : firstEntry buffer ns id = some i) :
    i < entryCount buffer ∧ IsEntry buffer ns id i ∧ ∀ j < i, ¬IsEntry buffer ns id j := by
  rw [firstEntry, List.find?_range_eq_some] at first
  obtain ⟨isEntry, less, before⟩ := first
  refine ⟨List.mem_range.mp less, by simpa using isEntry, fun j earlier => ?_⟩
  simpa using before j earlier

theorem whole_of_firstEntry (fit : EntriesFit buffer) {ns : BitVec 16} {id : BitVec 64} {i : Nat}
    (first : firstEntry buffer ns id = some i) : 24 + 18 * i + 18 ≤ buffer.length := by
  obtain ⟨less, isEntry, before⟩ := isEntry_of_firstEntry first
  refine fit.whole i less fun j earlier same => before j earlier ?_
  exact ⟨same.1.trans isEntry.1, same.2.trans isEntry.2⟩

/-- The block of the first entry that matches, at the place where the wrapper takes it to be. -/
theorem resource_eq (fit : EntriesFit buffer) (ns : BitVec 16) (id : BitVec 64) :
    resource buffer ns id = some ((firstEntry buffer ns id).map (foundBlock buffer)) := by
  by_cases signature : buffer.peek 0 4 = XDBF_SIGNATURE
  · have range : List.range' 0 (entryCount buffer) = List.range (entryCount buffer) :=
      (List.range_eq_range' (n := entryCount buffer)).symm
    have bound := fit.count
    rw [resource_opened fit.header signature, searchEntries_eq (by omega)
      (fun j less => fit.keys j (by omega))
      (fun j first => whole_of_firstEntry fit (by rwa [range] at first)), range]
    rfl
  · have empty := fit.signature.resolve_right signature
    rw [resource_of_ne fit.header signature, if_pos empty, firstEntry, empty]
    rfl

/-- Every search has a result exactly when the entries fit. -/
theorem entriesFit_iff :
    (∀ ns id, (resource buffer ns id).isSome) ↔ EntriesFit buffer := by
  constructor
  · intro defined
    have header : 24 < buffer.length := by
      by_contra short
      have := defined 0 0
      rw [resource_of_short short] at this
      exact absurd this (by simp)
    by_cases signature : buffer.peek 0 4 = XDBF_SIGNATURE
    · have searches : ∀ ns id,
          ((opened buffer).searchEntries ns id (entryCount buffer) 0).isSome := by
        intro ns id
        rw [← resource_opened header signature]
        exact defined ns id
      -- an identifier that no entry has leads through all of them
      have bound : entryCount buffer < 2 ^ 64 :=
        Nat.lt_of_lt_of_le (Bytes.peek_lt buffer 12 4) (by decide)
      obtain ⟨fresh, unused⟩ := @exists_fresh 64 _ (entryId buffer) bound
      have through : ∀ ns : BitVec 16, ∀ i < entryCount buffer, i + 1 < 2 ^ 31 ∧
          (entryNamespace buffer i = ns.toNat → 24 + 18 * i + 10 ≤ buffer.length) := by
        intro ns i less
        exact inside_of_unmatched (searches ns fresh)
          (fun j _ high isEntry => unused j (by omega) isEntry.2) i (Nat.zero_le i) (by omega)
      have keys : ∀ i < entryCount buffer, 24 + 18 * i + 10 ≤ buffer.length := by
        intro i less
        refine (through (BitVec.ofNat 16 (entryNamespace buffer i)) i less).2 ?_
        rw [BitVec.toNat_ofNat]
        exact (Nat.mod_eq_of_lt (Bytes.peek_lt buffer _ 2)).symm
      refine ⟨header, .inr signature, ?_, keys, fun i less first => ?_⟩
      · by_contra many
        have := (through 0 (2 ^ 31 - 1) (by omega)).1
        omega
      · have sameNamespace : (BitVec.ofNat 16 (entryNamespace buffer i)).toNat =
            entryNamespace buffer i :=
          Nat.mod_eq_of_lt (Bytes.peek_lt buffer _ 2)
        have sameId : (BitVec.ofNat 64 (entryId buffer i)).toNat = entryId buffer i :=
          Nat.mod_eq_of_lt (Bytes.peek_lt buffer _ 8)
        apply inside_of_matched (searches (BitVec.ofNat 16 (entryNamespace buffer i))
          (BitVec.ofNat 64 (entryId buffer i))) (fun j less => keys j (by omega))
        rw [← List.range_eq_range', List.find?_range_eq_some]
        refine ⟨by simp [IsEntry, sameNamespace, sameId], List.mem_range.mpr less, ?_⟩
        intro j earlier
        have other : ¬IsEntry buffer (BitVec.ofNat 16 (entryNamespace buffer i))
            (BitVec.ofNat 64 (entryId buffer i)) j := fun isEntry =>
          first j earlier ⟨isEntry.1.trans sameNamespace, isEntry.2.trans sameId⟩
        simpa using other
    · have empty : entryCount buffer = 0 := by
        by_contra entries
        have := defined 0 0
        rw [resource_of_ne header signature, if_neg entries] at this
        exact absurd this (by simp)
      refine ⟨header, .inl empty, ?_, fun i less => ?_, fun i less => ?_⟩
      · rw [empty]
        decide
      · omega
      · omega
  · intro fit ns id
    rw [resource_eq fit]
    rfl

end

/-! ## Strings -/

section

variable (buffer : Bytes) (start : Nat)

def stringCount : Nat := buffer.peek (start + 12) 2

/-- Where the string with an index starts in the block at a place. -/
def seekAt : Nat → Nat
  | 0 => start + 14
  | i + 1 => seekAt i + 4 + buffer.peek (seekAt i + 2) 2

def stringId (i : Nat) : Nat := buffer.peek (seekAt buffer start i) 2

def stringLength (i : Nat) : Nat := buffer.peek (seekAt buffer start i + 2) 2

/-- The strings of a block lie in the buffer. The text of the last one is not needed when a string
in front of it has the same identifier. -/
structure StringsFit : Prop where
  header : start + 14 ≤ buffer.length
  entries : ∀ i < stringCount buffer start, seekAt buffer start i + 4 ≤ buffer.length
  texts : ∀ i < stringCount buffer start,
    (∀ j < i, stringId buffer start j ≠ stringId buffer start i) →
      seekAt buffer start i + 4 + stringLength buffer start i ≤ buffer.length

/-- The search for a string in the block at a place. -/
def searchBlock (id : BitVec 16) : Option Bytes :=
  (buffer.number (start + 12) 2).bind fun count =>
    XDBFWrapper.searchStrings buffer id count (start + 14)

end

section

variable {buffer : Bytes} {start : Nat} {id : BitVec 16}

theorem searchStrings_of_inside {i : Nat} (count : Nat)
    (inside : seekAt buffer start i + 4 ≤ buffer.length) :
    XDBFWrapper.searchStrings buffer id (count + 1) (seekAt buffer start i) =
      if stringId buffer start i = id.toNat then
        buffer.read (seekAt buffer start i + 4) (stringLength buffer start i)
      else XDBFWrapper.searchStrings buffer id count (seekAt buffer start (i + 1)) := by
  rw [XDBFWrapper.searchStrings, Bytes.number_of_le (by omega), Bytes.number_of_le (by omega)]
  rfl

/-- A search in strings that lie in the buffer has a result. -/
theorem searchStrings_isSome {count i : Nat}
    (entries : ∀ j < i + count, seekAt buffer start j + 4 ≤ buffer.length)
    (texts : ∀ j < i + count, (∀ k, i ≤ k → k < j → stringId buffer start k ≠ id.toNat) → i ≤ j →
      stringId buffer start j = id.toNat →
        seekAt buffer start j + 4 + stringLength buffer start j ≤ buffer.length) :
    (XDBFWrapper.searchStrings buffer id count (seekAt buffer start i)).isSome := by
  induction count generalizing i with
  | zero => rfl
  | succ count ih =>
      rw [searchStrings_of_inside count (entries i (by omega))]
      split_ifs with same
      · rw [Bytes.read_of_le (texts i (by omega) (fun k low high => by omega) (Nat.le_refl i) same)]
        rfl
      · refine ih (fun j less => entries j (by omega)) fun j less before low => ?_
        refine texts j (by omega) (fun k from_ less => ?_) (by omega)
        by_cases first : k = i
        · exact first ▸ same
        · exact before k (by omega) less

/-- A search without a match reads the start of every string. -/
theorem strings_inside_of_unmatched {count i : Nat}
    (defined : (XDBFWrapper.searchStrings buffer id count (seekAt buffer start i)).isSome)
    (unmatched : ∀ j, i ≤ j → j < i + count → stringId buffer start j ≠ id.toNat) :
    ∀ j, i ≤ j → j < i + count → seekAt buffer start j + 4 ≤ buffer.length := by
  induction count generalizing i with
  | zero => exact fun j low high => absurd high (by omega)
  | succ count ih =>
      have here : seekAt buffer start i + 4 ≤ buffer.length := by
        obtain ⟨result, found⟩ := Option.isSome_iff_exists.mp defined
        obtain ⟨entryId, -, found⟩ := Option.bind_eq_some_iff.mp found
        obtain ⟨length, read, -⟩ := Option.bind_eq_some_iff.mp found
        have := Bytes.le_of_number read
        omega
      rw [searchStrings_of_inside count here,
        if_neg (unmatched i (Nat.le_refl i) (by omega))] at defined
      intro j low high
      by_cases first : j = i
      · exact first ▸ here
      · exact ih defined (fun j low high => unmatched j (by omega) (by omega)) j (by omega)
          (by omega)

/-- A search that comes to a match reads its text. -/
theorem text_inside_of_matched {count i j : Nat}
    (defined : (XDBFWrapper.searchStrings buffer id count (seekAt buffer start i)).isSome)
    (entries : ∀ j < i + count, seekAt buffer start j + 4 ≤ buffer.length)
    (low : i ≤ j) (high : j < i + count) (same : stringId buffer start j = id.toNat)
    (first : ∀ k, i ≤ k → k < j → stringId buffer start k ≠ id.toNat) :
    seekAt buffer start j + 4 + stringLength buffer start j ≤ buffer.length := by
  induction count generalizing i with
  | zero => omega
  | succ count ih =>
      rw [searchStrings_of_inside count (entries i (by omega))] at defined
      by_cases here : j = i
      · subst here
        rw [if_pos same] at defined
        obtain ⟨text, read⟩ := Option.isSome_iff_exists.mp defined
        exact Bytes.le_of_read read
      · rw [if_neg (first i (Nat.le_refl i) (by omega))] at defined
        exact ih defined (fun j less => entries j (by omega)) (by omega) (by omega)
          fun k low high => first k (by omega) high

/-- Every search in a block has a result exactly when its strings fit. -/
theorem stringsFit_iff :
    (∀ id, (searchBlock buffer start id).isSome) ↔ StringsFit buffer start := by
  constructor
  · intro defined
    have header : start + 14 ≤ buffer.length := by
      obtain ⟨result, found⟩ := Option.isSome_iff_exists.mp (defined 0)
      obtain ⟨count, read, -⟩ := Option.bind_eq_some_iff.mp found
      have := Bytes.le_of_number read
      omega
    have searches : ∀ id, (XDBFWrapper.searchStrings buffer id (stringCount buffer start)
        (seekAt buffer start 0)).isSome := by
      intro id
      have := defined id
      rwa [searchBlock, Bytes.number_of_le (by omega)] at this
    obtain ⟨fresh, unused⟩ := @exists_fresh 16 (stringCount buffer start) (stringId buffer start)
      (Bytes.peek_lt buffer _ 2)
    have entries : ∀ i < stringCount buffer start, seekAt buffer start i + 4 ≤ buffer.length :=
      fun i less => strings_inside_of_unmatched (searches fresh)
        (fun j _ high => unused j (by omega)) i (Nat.zero_le i) (by omega)
    refine ⟨header, entries, fun i less first => ?_⟩
    have sameId : (BitVec.ofNat 16 (stringId buffer start i)).toNat = stringId buffer start i :=
      Nat.mod_eq_of_lt (Bytes.peek_lt buffer _ 2)
    refine text_inside_of_matched (searches (BitVec.ofNat 16 (stringId buffer start i)))
      (fun j below => entries j (by omega)) (Nat.zero_le i) (by omega) sameId.symm ?_
    intro k _ earlier
    rw [sameId]
    exact first k earlier
  · intro fit id
    have header := fit.header
    rw [searchBlock, Bytes.number_of_le (by omega), Option.bind_some]
    change (XDBFWrapper.searchStrings buffer id (stringCount buffer start)
      (seekAt buffer start 0)).isSome
    apply searchStrings_isSome
    · exact fun j less => fit.entries j (by omega)
    · intro j less first _ same
      refine fit.texts j (by omega) fun k earlier => ?_
      rw [same]
      exact first k (Nat.zero_le k) earlier

/-- The strings that a block has are found in the buffer. -/
theorem searchStrings_of_slice {count size seek : Nat} {strings : List (Nat × Bytes)}
    (room : start + size ≤ buffer.length)
    (parsed : stringsFrom (buffer.slice start size) count seek = some strings) :
    XDBFWrapper.searchStrings buffer id count (start + seek) = some (firstString strings id) := by
  induction count generalizing seek strings with
  | zero =>
      obtain rfl := Option.some.inj parsed
      rfl
  | succ count ih =>
      obtain ⟨entryId, readId, parsed⟩ := Option.bind_eq_some_iff.mp parsed
      obtain ⟨length, readLength, parsed⟩ := Option.bind_eq_some_iff.mp parsed
      obtain ⟨text, readText, parsed⟩ := Option.bind_eq_some_iff.mp parsed
      obtain ⟨rest, parsedRest, last⟩ := Option.bind_eq_some_iff.mp parsed
      obtain rfl : (entryId, text) :: rest = strings := Option.some.inj last
      have behind : start + (seek + 4 + length) = start + seek + 4 + length := by omega
      have next := ih parsedRest
      rw [behind] at next
      have textRead := Bytes.read_of_slice room readText
      rw [← Nat.add_assoc] at textRead
      have lengthRead := Bytes.number_of_slice room readLength
      rw [← Nat.add_assoc] at lengthRead
      rw [XDBFWrapper.searchStrings, Bytes.number_of_slice room readId, lengthRead]
      simp only [Option.bind_eq_bind, Option.bind_some]
      rw [firstString, List.find?_cons]
      split_ifs with same
      · rw [textRead]
        simp [same]
      · rw [next, firstString]
        simp [same]

end

/-! ## Both lookups -/

/-- The key of the strings of a language. -/
def languageEntry (buffer : Bytes) (language : BitVec 32) : Option Nat :=
  firstEntry buffer XDBF_SPA_NAMESPACE_STRING_TABLE (language.setWidth 64)

section

variable {buffer : Bytes} {language : BitVec 32} {id : BitVec 16}

theorem string_opened
    (found : resource buffer XDBF_SPA_NAMESPACE_STRING_TABLE (language.setWidth 64) = some none) :
    string buffer language id = some [] := by
  obtain ⟨wrapper, created, search⟩ := Option.bind_eq_some_iff.mp found
  rw [string, created, Option.bind_some, XDBFWrapper.getString, search]
  rfl

theorem string_of_none (fit : EntriesFit buffer) (none : languageEntry buffer language = none) :
    string buffer language id = some [] := by
  apply string_opened
  rw [resource_eq fit, ← languageEntry, none]
  rfl

theorem string_of_some (fit : EntriesFit buffer) {i : Nat}
    (first : languageEntry buffer language = some i) :
    string buffer language id = searchBlock buffer (foundBlock buffer i).pBuffer id := by
  have found : resource buffer XDBF_SPA_NAMESPACE_STRING_TABLE (language.setWidth 64) =
      some (some (foundBlock buffer i)) := by
    rw [resource_eq fit, ← languageEntry, first]
    rfl
  have signature : buffer.peek 0 4 = XDBF_SIGNATURE := by
    obtain ⟨less, -, -⟩ := isEntry_of_firstEntry first
    exact fit.signature.resolve_left (by omega)
  rw [resource, create_of_signature fit.header signature, Option.bind_some] at found
  rw [string, create_of_signature fit.header signature, Option.bind_some, XDBFWrapper.getString,
    found]
  rfl

end

/-- What a string lookup gives in a file: the first string with the identifier in the block of the
language, as far as the block is well-formed, or the empty text. -/
structure StringRight (buffer : Bytes) (language : BitVec 32) (id : BitVec 16)
    (result : Option Bytes) : Prop where
  missing : languageEntry buffer language = none → result = some []
  found : ∀ i strings, languageEntry buffer language = some i →
    blockStrings (buffer.slice (block buffer i).pBuffer (block buffer i).bufferSize) =
      some strings → result = some (firstString strings id)

/-- What lookups are meant to do: they never read outside the buffer, and in a file they give the
first used entry or string. -/
structure LooksUp (buffer : Bytes) : Prop where
  resourceDefined : ∀ ns id, (resource buffer ns id).isSome
  resourceRight : Laid buffer → ∀ ns id,
    resource buffer ns id = some ((firstEntry buffer ns id).map (block buffer))
  stringDefined : ∀ language id, (string buffer language id).isSome
  stringRight : Laid buffer → ∀ language id,
    StringRight buffer language id (string buffer language id)

/-- Everything that the lookups come to lies in the buffer, and a file uses the whole of its entry
table or nothing of it. -/
structure Fits (buffer : Bytes) : Prop where
  entries : EntriesFit buffer
  strings : ∀ language i, languageEntry buffer language = some i →
    StringsFit buffer (foundBlock buffer i).pBuffer
  table : Laid buffer → entryCount buffer = entryTableLength buffer ∨ entryCount buffer = 0

/-- With the table in full use the blocks are at their places. -/
theorem foundBlock_eq {buffer : Bytes} (full : entryCount buffer = entryTableLength buffer) :
    foundBlock buffer = block buffer := by
  funext i
  rw [foundBlock, block, content, full]

theorem firstEntry_of_empty {buffer : Bytes} (empty : entryCount buffer = 0) (ns : BitVec 16)
    (id : BitVec 64) : firstEntry buffer ns id = none := by
  rw [firstEntry, empty]
  rfl

/-- The lookups do what they are meant to exactly when everything fits. -/
theorem looksUp_iff (buffer : Bytes) : LooksUp buffer ↔ Fits buffer := by
  constructor
  · intro right
    have entries : EntriesFit buffer := entriesFit_iff.mp right.resourceDefined
    refine ⟨entries, fun language i first => stringsFit_iff.mp fun id => ?_, fun laid => ?_⟩
    · rw [← string_of_some entries first]
      exact right.stringDefined language id
    · -- the block of the first entry shows where the content is taken to start
      by_cases empty : entryCount buffer = 0
      · exact .inr empty
      left
      have sameNamespace : (BitVec.ofNat 16 (entryNamespace buffer 0)).toNat =
          entryNamespace buffer 0 := Nat.mod_eq_of_lt (Bytes.peek_lt buffer _ 2)
      have sameId : (BitVec.ofNat 64 (entryId buffer 0)).toNat = entryId buffer 0 :=
        Nat.mod_eq_of_lt (Bytes.peek_lt buffer _ 8)
      have first : firstEntry buffer (BitVec.ofNat 16 (entryNamespace buffer 0))
          (BitVec.ofNat 64 (entryId buffer 0)) = some 0 := by
        rw [firstEntry, List.find?_range_eq_some]
        refine ⟨by simp [IsEntry, sameNamespace, sameId], List.mem_range.mpr (by omega), ?_⟩
        exact fun j less => absurd less (Nat.not_lt_zero j)
      have result := right.resourceRight laid (BitVec.ofNat 16 (entryNamespace buffer 0))
        (BitVec.ofNat 64 (entryId buffer 0))
      rw [resource_eq entries, first] at result
      have places := congrArg XDBFBlock.pBuffer (Option.some.inj (Option.some.inj result))
      rw [foundBlock, block, content] at places
      simp only at places
      omega
  · rintro ⟨entries, strings, table⟩
    refine ⟨entriesFit_iff.mpr entries, fun laid ns id => ?_, fun language id => ?_,
      fun laid language id => ⟨string_of_none entries, fun i texts first parsed => ?_⟩⟩
    · rw [resource_eq entries]
      rcases table laid with full | empty
      · rw [foundBlock_eq full]
      · rw [firstEntry_of_empty empty]
        rfl
    · cases first : languageEntry buffer language with
      | none => rw [string_of_none entries first]; rfl
      | some i =>
          rw [string_of_some entries first]
          exact stringsFit_iff.mpr (strings language i first) id
    · obtain ⟨less, -, -⟩ := isEntry_of_firstEntry first
      have full := (table laid).resolve_right (by omega)
      have room : (block buffer i).pBuffer + (block buffer i).bufferSize ≤ buffer.length :=
        laid.resources i less
      obtain ⟨count, readCount, parsedFrom⟩ := Option.bind_eq_some_iff.mp parsed
      rw [string_of_some entries first, foundBlock_eq full, searchBlock,
        Bytes.number_of_slice room readCount, Option.bind_some]
      exact searchStrings_of_slice room parsedFrom

/-- A file with one entry in a table of two. -/
def sparse : Bytes :=
  Bytes.encode 4 XDBF_SIGNATURE ++ Bytes.encode 4 0x10000 ++ Bytes.encode 4 2 ++ Bytes.encode 4 1 ++
    Bytes.encode 4 0 ++ Bytes.encode 4 0 ++
    (Bytes.encode 2 1 ++ Bytes.encode 8 7 ++ Bytes.encode 4 0 ++ Bytes.encode 4 1) ++
    Bytes.zeros 18 ++ [0xAB]

theorem not_looksUp : ¬∀ buffer, LooksUp buffer := by
  intro every
  have laid : Laid sparse := by
    refine ⟨by decide +kernel, by decide +kernel, by decide +kernel, by decide +kernel,
      by decide +kernel, fun i less => ?_⟩
    have one : entryCount sparse = 1 := by decide +kernel
    obtain rfl : i = 0 := by omega
    decide +kernel
  exact absurd ((every sparse).resourceRight laid 1 7) (by decide +kernel)

end UfcRecomp.Xdbf
