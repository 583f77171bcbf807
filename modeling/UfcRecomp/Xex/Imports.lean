import UfcRecomp.Lib.Bytes
import UfcRecomp.Utils.Symbols
import Mathlib.Algebra.Ring.Nat
import Mathlib.Data.List.Nodup
import Mathlib.Data.List.Pairwise

/-!
# Import thunks

`Xex2LoadImage` goes through the libraries of the import header: it swaps the word of every
descriptor, and replaces the word of a function by a stub and gives it a symbol. The name of a
library is not looked up by the number in its record. The records are paired with the strings of the
table in order, and there are as many passes as strings.
-/

namespace UfcRecomp.Xex

open UfcRecomp.Lib UfcRecomp.Utils

/-! ## The loader -/

/-- A table of exports: the names under their ordinals. -/
abbrev Exports := Nat → Option String

/-- `"xam.xex"` -/
def xamName : Bytes := [0x78, 0x61, 0x6D, 0x2E, 0x78, 0x65, 0x78]

/-- `"xboxkrnl.exe"` -/
def kernelName : Bytes :=
  [0x78, 0x62, 0x6F, 0x78, 0x6B, 0x72, 0x6E, 0x6C, 0x2E, 0x65, 0x78, 0x65]

/-- The exports of the two libraries that the loader knows. -/
structure ExportTables where
  xamExports : Exports
  xboxKernelExports : Exports

/-- The table for the name of a library; an unknown one has no exports. -/
def ExportTables.names (tables : ExportTables) (library : Bytes) : Exports :=
  if library = xamName then tables.xamExports
  else if library = kernelName then tables.xboxKernelExports
  else fun _ => none

/-- The sections of an image: its base and the addresses of its sections relative to that, in
order. -/
structure ImageMap where
  base : Nat
  virtualAddresses : List Nat

/-- `Image::Find`: the place of an address in the data of the image, by the last section that does
not start behind it. -/
def ImageMap.find (map : ImageMap) (address : Nat) : Option Nat :=
  ((map.virtualAddresses.filter fun virtualAddress =>
    map.base + virtualAddress ≤ address).getLast?).map fun virtualAddress =>
      virtualAddress + (address - (map.base + virtualAddress))

/-- The image while its imports are loaded, with the addresses of the descriptors so far. -/
structure Loading where
  data : Bytes
  symbols : SymbolTable
  visited : List Nat

/-- `nop`, `nop`, `nop`, `blr` -/
def stub : Bytes :=
  [0x60, 0, 0, 0, 0x60, 0, 0, 0, 0x60, 0, 0, 0, 0x4E, 0x80, 0, 0x20]

/-- The body of the loop over the descriptors. After the swap the type is the top byte of the word
and the ordinal its low half. -/
def loadThunk (map : ImageMap) (names : Exports) (state : Loading) (firstThunk : Nat) :
    Option Loading := do
  let originalThunk ← map.find firstThunk
  let word ← state.data.read originalThunk 4
  let data ← state.data.write originalThunk word.reverse
  let visited := state.visited ++ [firstThunk]
  if Bytes.value (word.take 1) ≠ 0 then
    let symbols :=
      match names (Bytes.value (word.drop 2)) with
      | some name => state.symbols.emplace ⟨name, firstThunk, stub.length, .symbolFunction⟩
      | none => state.symbols
    let data ← data.write originalThunk stub
    return { data, symbols, visited }
  else
    return { data, symbols := state.symbols, visited }

/-- The loop over the descriptors of a library, given how many are left and where the next is. -/
def loadDescriptors (map : ImageMap) (names : Exports) (imports : Bytes) :
    Nat → Nat → Loading → Option Loading
  | 0, _, state => some state
  | count + 1, descriptor, state => do
    let firstThunk ← imports.number descriptor 4
    let state ← loadThunk map names state firstThunk
    loadDescriptors map names imports count (descriptor + 4) state

/-- The loop over the strings, given where the next library is. -/
def loadLibraries (map : ImageMap) (tables : ExportTables) (imports : Bytes) :
    List Bytes → Nat → Loading → Option Loading
  | [], _, state => some state
  | string :: strings, library, state => do
    let numberOfImports ← imports.number (library + 38) 2
    let state ← loadDescriptors map (tables.names string) imports numberOfImports (library + 40)
      state
    loadLibraries map tables imports strings (library + 40 + numberOfImports * 4) state

/-- The size that a string takes in the table. -/
def paddedSize (length : Nat) : Nat := (length + 1 + 3) / 4 * 4

/-- The loop over the string table, given how many strings are left. -/
def readStrings (imports : Bytes) : Nat → Nat → Option (List Bytes)
  | 0, _ => some []
  | count + 1, paddedStringOffset => do
    let behind := imports.drop (12 + paddedStringOffset)
    let length ← behind.findIdx? fun byte => byte = 0
    let strings ← readStrings imports count (paddedStringOffset + paddedSize length)
    return behind.take length :: strings

/-- The imports of `Xex2LoadImage`, given the file from the import header on. -/
def loadImports (map : ImageMap) (tables : ExportTables) (imports data : Bytes) :
    Option Loading := do
  let sizeOfStringTable ← imports.number 4 4
  let numImports ← imports.number 8 4
  let stringTable ← readStrings imports numImports 0
  loadLibraries map tables imports stringTable (12 + sizeOfStringTable) ⟨data, .empty, []⟩

/-! ## Import headers -/

/-- A record with its descriptors. -/
structure ImportLibrary where
  size : Nat
  nextImportDigest : Bytes
  id : Nat
  version : Nat
  minVersion : Nat
  name : Nat
  descriptors : List (BitVec 32)
  digest_length : nextImportDigest.length = 20
  few : descriptors.length < 2 ^ 16

/-- A string of the table; none of its bytes is zero. -/
structure LibraryName where
  bytes : Bytes
  nonzero : ∀ byte ∈ bytes, byte ≠ 0

/-- An import header: each record names its library by its place in the string table. -/
structure ImportHeader where
  sizeOfHeader : Nat
  strings : List LibraryName
  libraries : List ImportLibrary
  named : ∀ library ∈ libraries, library.name < strings.length
  fewStrings : strings.length < 2 ^ 32
  fewBytes : (strings.map fun string => paddedSize string.bytes.length).sum < 2 ^ 32

def LibraryName.encode (string : LibraryName) : Bytes :=
  string.bytes ++ Bytes.zeros (paddedSize string.bytes.length - string.bytes.length)

def ImportLibrary.encode (library : ImportLibrary) : Bytes :=
  Bytes.encode 4 library.size ++ library.nextImportDigest ++ Bytes.encode 4 library.id ++
    Bytes.encode 4 library.version ++ Bytes.encode 4 library.minVersion ++
    Bytes.encode 2 library.name ++ Bytes.encode 2 library.descriptors.length ++
    library.descriptors.flatMap fun firstThunk => Bytes.encode 4 firstThunk.toNat

/-- The size of the string table. -/
def ImportHeader.sizeOfStringTable (header : ImportHeader) : Nat :=
  (header.strings.map fun string => paddedSize string.bytes.length).sum

def ImportHeader.encode (header : ImportHeader) : Bytes :=
  Bytes.encode 4 header.sizeOfHeader ++ Bytes.encode 4 header.sizeOfStringTable ++
    Bytes.encode 4 header.strings.length ++ header.strings.flatMap LibraryName.encode ++
    header.libraries.flatMap ImportLibrary.encode

/-! ## Reading a header -/

theorem length_encode_libraryName (string : LibraryName) :
    string.encode.length = paddedSize string.bytes.length := by
  rw [LibraryName.encode, List.length_append, List.length_replicate]
  unfold paddedSize
  omega

theorem length_encode_strings (strings : List LibraryName) :
    (strings.flatMap LibraryName.encode).length =
      (strings.map fun string => paddedSize string.bytes.length).sum := by
  rw [List.length_flatMap]
  exact congrArg List.sum (List.map_congr_left fun string _ => length_encode_libraryName string)

theorem length_descriptors (descriptors : List (BitVec 32)) :
    (descriptors.flatMap fun firstThunk => Bytes.encode 4 firstThunk.toNat).length =
      descriptors.length * 4 := by
  induction descriptors with
  | nil => rfl
  | cons firstThunk descriptors ih =>
      rw [List.flatMap_cons, List.length_append, ih, Bytes.length_encode, List.length_cons]
      omega

theorem length_encode_library (library : ImportLibrary) :
    library.encode.length = 40 + library.descriptors.length * 4 := by
  simp only [ImportLibrary.encode, List.length_append, Bytes.length_encode,
    library.digest_length, length_descriptors]

/-- The first zero is behind the bytes of a string. -/
theorem findIdx?_zero {bytes : Bytes} (nonzero : ∀ byte ∈ bytes, byte ≠ 0) (rest : Bytes) :
    (bytes ++ 0 :: rest).findIdx? (fun byte => byte = 0) = some bytes.length := by
  induction bytes with
  | nil => exact List.findIdx?_cons
  | cons byte bytes ih =>
      obtain ⟨here, behind⟩ := List.forall_mem_cons.mp nonzero
      rw [List.cons_append, List.findIdx?_cons, if_neg (by simpa using here), ih behind]
      rfl

/-- The strings are read one behind the other. -/
theorem readStrings_encode {imports front behind : Bytes} {strings : List LibraryName}
    {paddedStringOffset : Nat} (here : front.length = 12 + paddedStringOffset)
    (shape : imports = front ++ (strings.flatMap LibraryName.encode ++ behind)) :
    readStrings imports strings.length paddedStringOffset =
      some (strings.map LibraryName.bytes) := by
  induction strings generalizing front paddedStringOffset with
  | nil => rfl
  | cons string strings ih =>
      obtain ⟨padding, pads⟩ : ∃ padding,
          paddedSize string.bytes.length - string.bytes.length = padding + 1 :=
        ⟨paddedSize string.bytes.length - string.bytes.length - 1, by unfold paddedSize; omega⟩
      have drop : imports.drop (12 + paddedStringOffset) = string.bytes ++
          0 :: (Bytes.zeros padding ++ (strings.flatMap LibraryName.encode ++ behind)) := by
        rw [shape, ← here, List.drop_left, List.flatMap_cons, LibraryName.encode, pads]
        simp [Bytes.zeros, List.replicate_succ]
      have next := @ih (front ++ string.encode)
        (paddedStringOffset + paddedSize string.bytes.length)
        (by rw [List.length_append, length_encode_libraryName]; omega)
        (by rw [shape, List.flatMap_cons]; simp)
      rw [List.length_cons, readStrings, drop, findIdx?_zero string.nonzero]
      simp only [Option.bind_eq_bind, Option.bind_some, next, List.take_left]
      rfl

/-- A descriptor with the exports that its name is looked up in. -/
abbrev Job := Exports × Nat

section

variable (map : ImageMap) (tables : ExportTables)

/-- The loop over descriptors whose addresses have been read. -/
def runJobs (jobs : List Job) (state : Loading) : Option Loading :=
  jobs.foldlM (fun state job => loadThunk map job.1 state job.2) state

theorem runJobs_append (jobs more : List Job) (state : Loading) :
    runJobs map (jobs ++ more) state = (runJobs map jobs state).bind (runJobs map more) := by
  rw [runJobs, List.foldlM_append]
  rfl

/-- The descriptors of a library with some exports. -/
def ImportLibrary.jobs (library : ImportLibrary) (names : Exports) : List Job :=
  library.descriptors.map fun firstThunk => (names, firstThunk.toNat)

variable {map tables}

theorem loadDescriptors_encode {imports front behind : Bytes} {descriptors : List (BitVec 32)}
    {descriptor : Nat} (names : Exports) (here : front.length = descriptor)
    (shape : imports = front ++
      ((descriptors.flatMap fun firstThunk => Bytes.encode 4 firstThunk.toNat) ++ behind))
    (state : Loading) :
    loadDescriptors map names imports descriptors.length descriptor state =
      runJobs map (descriptors.map fun firstThunk => (names, firstThunk.toNat)) state := by
  induction descriptors generalizing front descriptor state with
  | nil => rfl
  | cons firstThunk descriptors ih =>
      have read : imports.number descriptor 4 = some firstThunk.toNat := by
        rw [shape, List.flatMap_cons, List.append_assoc, ← List.append_assoc front,
          Bytes.number_append here.symm (Bytes.length_encode 4 _).symm,
          Bytes.value_encode_of_lt firstThunk.isLt]
      have next := @ih (front ++ Bytes.encode 4 firstThunk.toNat) (descriptor + 4)
        (by rw [List.length_append, Bytes.length_encode, here])
        (by rw [shape, List.flatMap_cons]; simp only [List.append_assoc])
      rw [List.length_cons, loadDescriptors, read, List.map_cons, runJobs, List.foldlM_cons]
      simp only [Option.bind_eq_bind, Option.bind_some]
      exact congrArg _ (funext fun state => next state)

/-- The descriptors that are visited, each with the exports of the string that its library is
paired with. -/
def pairedJobs (tables : ExportTables) (strings : List Bytes) (libraries : List ImportLibrary) :
    List Job :=
  (strings.zip libraries).flatMap fun pair => pair.2.jobs (tables.names pair.1)

theorem pairedJobs_cons (string : Bytes) (strings : List Bytes) (library : ImportLibrary)
    (libraries : List ImportLibrary) :
    pairedJobs tables (string :: strings) (library :: libraries) =
      library.jobs (tables.names string) ++ pairedJobs tables strings libraries := rfl

/-- The loop over the strings goes through the libraries that are paired with them, and then reads
on behind the last library for the strings that are left. -/
theorem loadLibraries_encode {imports front behind : Bytes} {strings : List Bytes}
    {libraries : List ImportLibrary} {place : Nat} (here : front.length = place)
    (shape : imports = front ++ (libraries.flatMap ImportLibrary.encode ++ behind))
    (state : Loading) :
    loadLibraries map tables imports strings place state =
      (runJobs map (pairedJobs tables strings libraries) state).bind
        (loadLibraries map tables imports (strings.drop libraries.length)
          (place + (libraries.flatMap ImportLibrary.encode).length)) := by
  induction libraries generalizing strings front place state with
  | nil => simp [pairedJobs, runJobs]
  | cons library libraries ih =>
      cases strings with
      | nil => simp [pairedJobs, runJobs, loadLibraries]
      | cons string strings =>
          have few := library.few
          -- the fields of a record in front of its number of descriptors
          obtain ⟨fields, fieldsLength, fieldsShape⟩ : ∃ fields : Bytes, fields.length = 38 ∧
              library.encode = fields ++ Bytes.encode 2 library.descriptors.length ++
                library.descriptors.flatMap fun firstThunk => Bytes.encode 4 firstThunk.toNat :=
            ⟨_, by simp only [List.length_append, Bytes.length_encode, library.digest_length], rfl⟩
          have count : imports.number (place + 38) 2 = some library.descriptors.length := by
            have whole : imports = (front ++ fields) ++
                Bytes.encode 2 library.descriptors.length ++
                ((library.descriptors.flatMap fun firstThunk => Bytes.encode 4 firstThunk.toNat) ++
                  (libraries.flatMap ImportLibrary.encode ++ behind)) := by
              rw [shape, List.flatMap_cons, fieldsShape]
              simp only [List.append_assoc]
            rw [whole, Bytes.number_append (by rw [List.length_append]; omega)
              (Bytes.length_encode 2 _).symm, Bytes.value_encode_of_lt few]
          have descriptors := fun state => @loadDescriptors_encode map imports
            (front ++ fields ++ Bytes.encode 2 library.descriptors.length)
            (libraries.flatMap ImportLibrary.encode ++ behind) library.descriptors (place + 40)
            (tables.names string)
            (by rw [List.length_append, List.length_append, Bytes.length_encode]; omega)
            (by rw [shape, List.flatMap_cons, fieldsShape]; simp only [List.append_assoc]) state
          have next := fun state => @ih (front ++ library.encode) strings
            (place + 40 + library.descriptors.length * 4)
            (by rw [List.length_append, length_encode_library]; omega)
            (by rw [shape, List.flatMap_cons]; simp only [List.append_assoc]) state
          have rest : place + (library.encode ++ libraries.flatMap ImportLibrary.encode).length =
              place + 40 + library.descriptors.length * 4 +
                (libraries.flatMap ImportLibrary.encode).length := by
            rw [List.length_append, length_encode_library]
            omega
          rw [loadLibraries, count]
          simp only [Option.bind_eq_bind, Option.bind_some, descriptors, next]
          rw [pairedJobs_cons, runJobs_append, List.length_cons, List.drop_succ_cons,
            List.flatMap_cons, rest, Option.bind_assoc]
          rfl

/-! ## Running on behind the last library -/

theorem visited_loadThunk {names : Exports} {state final : Loading} {firstThunk : Nat}
    (loaded : loadThunk map names state firstThunk = some final) :
    final.visited.length = state.visited.length + 1 := by
  obtain ⟨place, -, loaded⟩ := Option.bind_eq_some_iff.mp loaded
  obtain ⟨word, -, loaded⟩ := Option.bind_eq_some_iff.mp loaded
  obtain ⟨data, -, loaded⟩ := Option.bind_eq_some_iff.mp loaded
  simp only at loaded
  split_ifs at loaded
  · obtain ⟨data, -, loaded⟩ := Option.bind_eq_some_iff.mp loaded
    obtain rfl := Option.some.inj loaded
    exact List.length_append
  · obtain rfl := Option.some.inj loaded
    exact List.length_append

theorem visited_loadDescriptors {names : Exports} {imports : Bytes} {count descriptor : Nat}
    {state final : Loading}
    (loaded : loadDescriptors map names imports count descriptor state = some final) :
    final.visited.length = state.visited.length + count := by
  induction count generalizing descriptor state with
  | zero =>
      obtain rfl := Option.some.inj loaded
      rfl
  | succ count ih =>
      obtain ⟨firstThunk, -, loaded⟩ := Option.bind_eq_some_iff.mp loaded
      obtain ⟨next, thunk, loaded⟩ := Option.bind_eq_some_iff.mp loaded
      rw [ih loaded, visited_loadThunk thunk]
      omega

theorem visited_loadLibraries {imports : Bytes} {strings : List Bytes} {place : Nat}
    {state final : Loading}
    (loaded : loadLibraries map tables imports strings place state = some final) :
    state.visited.length ≤ final.visited.length := by
  induction strings generalizing place state with
  | nil =>
      obtain rfl := Option.some.inj loaded
      exact Nat.le_refl _
  | cons string strings ih =>
      obtain ⟨count, -, loaded⟩ := Option.bind_eq_some_iff.mp loaded
      obtain ⟨next, descriptors, loaded⟩ := Option.bind_eq_some_iff.mp loaded
      have := visited_loadDescriptors descriptors
      have := ih loaded
      omega

/-- Records without descriptors change nothing. -/
theorem loadLibraries_idle {imports : Bytes} {strings : List Bytes} {place : Nat} (state : Loading)
    (none : ∀ j < strings.length, imports.number (place + 40 * j + 38) 2 = some 0) :
    loadLibraries map tables imports strings place state = some state := by
  induction strings generalizing place with
  | nil => rfl
  | cons string strings ih =>
      have rest := @ih (place + 40 + 0 * 4) fun j less => by
        have := none (j + 1) (Nat.succ_lt_succ less)
        rwa [show place + 40 + 0 * 4 + 40 * j + 38 = place + 40 * (j + 1) + 38 by omega]
      have read := none 0 (Nat.succ_pos _)
      rw [loadLibraries, show place + 38 = place + 40 * 0 + 38 by omega, read]
      exact rest

/-- When no further descriptor is visited, no record has one. -/
theorem idle_of_visited {imports : Bytes} {strings : List Bytes} {place : Nat}
    {state final : Loading}
    (loaded : loadLibraries map tables imports strings place state = some final)
    (same : final.visited.length = state.visited.length) :
    ∀ j < strings.length, imports.number (place + 40 * j + 38) 2 = some 0 := by
  induction strings generalizing place state with
  | nil => exact fun j less => absurd less (Nat.not_lt_zero j)
  | cons string strings ih =>
      obtain ⟨count, read, loaded⟩ := Option.bind_eq_some_iff.mp loaded
      obtain ⟨next, descriptors, loaded⟩ := Option.bind_eq_some_iff.mp loaded
      have grown := visited_loadDescriptors descriptors
      have later := visited_loadLibraries loaded
      obtain rfl : count = 0 := by omega
      obtain rfl : state = next := Option.some.inj descriptors
      rintro (_ | j) less
      · exact read
      · have := ih loaded same j (Nat.lt_of_succ_lt_succ less)
        rwa [show place + 40 * (j + 1) + 38 = place + 40 + 0 * 4 + 40 * j + 38 by omega]

end

/-! ## The thunks -/

/-- Whether a word is that of a function: its type is not zero. -/
def IsFunction (word : Bytes) : Prop := Bytes.value (word.take 1) ≠ 0

instance (word : Bytes) : Decidable (IsFunction word) := inferInstanceAs (Decidable (_ ≠ _))

def ordinal (word : Bytes) : Nat := Bytes.value (word.drop 2)

/-- The bytes that the thunk of a word gets. -/
def thunkBytes (word : Bytes) : Bytes := if IsFunction word then stub else word.reverse

def thunkSize (word : Bytes) : Nat := if IsFunction word then 16 else 4

/-- The symbol that the thunk of a word gets. -/
def thunkSymbol (names : Exports) (word : Bytes) (firstThunk : Nat) : Option Symbol :=
  if IsFunction word then
    (names (ordinal word)).map fun name => ⟨name, firstThunk, stub.length, .symbolFunction⟩
  else none

theorem length_thunkBytes {word : Bytes} (four : word.length = 4) :
    (thunkBytes word).length = thunkSize word := by
  unfold thunkBytes thunkSize
  split_ifs
  · rfl
  · rw [List.length_reverse, four]

/-- The place of an address in the data of the image. -/
def ImageMap.place (map : ImageMap) (address : Nat) : Nat := address - map.base

theorem find_eq {map : ImageMap} {address : Nat}
    (starts : ∃ virtualAddress ∈ map.virtualAddresses, map.base + virtualAddress ≤ address) :
    map.find address = some (map.place address) := by
  obtain ⟨virtualAddress, member, low⟩ := starts
  have nonempty : (map.virtualAddresses.filter fun virtualAddress =>
      map.base + virtualAddress ≤ address) ≠ [] := by
    apply List.ne_nil_of_mem
    exact List.mem_filter.mpr ⟨member, by simpa using low⟩
  have isLast := List.getLast?_eq_some_getLast nonempty
  have among := (List.mem_filter.mp (List.mem_of_getLast? isLast)).2
  simp only [decide_eq_true_eq] at among
  rw [ImageMap.find, isLast, Option.map_some, ImageMap.place]
  congr 1
  omega

/-- Loading a thunk that lies in the data. -/
theorem loadThunk_eq {map : ImageMap} (names : Exports) {state : Loading} {firstThunk : Nat}
    (starts : ∃ virtualAddress ∈ map.virtualAddresses, map.base + virtualAddress ≤ firstThunk)
    {word : Bytes} (read : state.data.read (map.place firstThunk) 4 = some word)
    (inside : map.place firstThunk + thunkSize word ≤ state.data.length) :
    loadThunk map names state firstThunk = some {
      data := state.data.overlay (map.place firstThunk) (thunkBytes word)
      symbols := (thunkSymbol names word firstThunk).toList.foldl SymbolTable.emplace state.symbols
      visited := state.visited ++ [firstThunk] } := by
  have four : word.length = 4 := (Bytes.read_eq_some.mp read).2.1
  have whole := Bytes.le_of_read read
  have swap : state.data.write (map.place firstThunk) word.reverse =
      some (state.data.overlay (map.place firstThunk) word.reverse) :=
    if_pos (by rw [List.length_reverse]; omega)
  rw [loadThunk, find_eq starts]
  simp only [Option.bind_eq_bind, Option.bind_some, read, swap]
  by_cases function : Bytes.value (word.take 1) ≠ 0
  · have isFunction : IsFunction word := function
    have room : map.place firstThunk + stub.length ≤ state.data.length := by
      rw [thunkSize, if_pos isFunction] at inside
      exact inside
    have size := @Bytes.length_overlay state.data word.reverse (map.place firstThunk)
      (by rw [List.length_reverse]; omega)
    have covered := @Bytes.overlay_overlay state.data word.reverse stub (map.place firstThunk)
      (by rw [List.length_reverse, four]; decide) room
    have write : (state.data.overlay (map.place firstThunk) word.reverse).write
        (map.place firstThunk) stub =
          some (state.data.overlay (map.place firstThunk) stub) := by
      rw [Bytes.write, if_pos (by omega), covered]
    rw [if_pos function, write, thunkBytes, if_pos isFunction, thunkSymbol, if_pos isFunction]
    simp only [Option.bind_some, Option.pure_def, ordinal]
    cases names (Bytes.value (word.drop 2)) <;> rfl
  · have isData : ¬IsFunction word := function
    rw [if_neg function, thunkBytes, if_neg isData, thunkSymbol, if_neg isData]
    rfl

/-- The thunks of addresses lie in the data of the image, apart from each other. -/
structure Apart (map : ImageMap) (data : Bytes) (addresses : List Nat) : Prop where
  starts : ∀ address ∈ addresses,
    ∃ virtualAddress ∈ map.virtualAddresses, map.base + virtualAddress ≤ address
  inside : ∀ address ∈ addresses, map.place address +
    thunkSize (data.slice (map.place address) 4) ≤ data.length
  apart : addresses.Pairwise fun left right =>
    map.place left + thunkSize (data.slice (map.place left) 4) ≤ map.place right ∨
      map.place right + thunkSize (data.slice (map.place right) 4) ≤ map.place left

/-- What the thunks of addresses are in an image, given its data before: their bytes are replaced
and no others. -/
structure Linked (map : ImageMap) (data : Bytes) (addresses : List Nat) (after : Bytes) :
    Prop where
  length : after.length = data.length
  thunks : ∀ address ∈ addresses,
    after.read (map.place address) (thunkSize (data.slice (map.place address) 4)) =
      some (thunkBytes (data.slice (map.place address) 4))
  others : ∀ position, (∀ address ∈ addresses, position < map.place address ∨
    map.place address + thunkSize (data.slice (map.place address) 4) ≤ position) →
      after[position]? = data[position]?

theorem four_le_thunkSize (word : Bytes) : 4 ≤ thunkSize word := by
  unfold thunkSize
  split_ifs <;> omega

/-- Loading one more thunk, apart from those before. -/
theorem linked_loadThunk {map : ImageMap} {data : Bytes} {done : List Nat} {address : Nat}
    (placed : Apart map data (done ++ [address])) {state : Loading}
    (linked : Linked map data done state.data) (names : Exports) :
    ∃ after, loadThunk map names state address = some {
        data := after
        symbols := (thunkSymbol names (data.slice (map.place address) 4) address).toList.foldl
          SymbolTable.emplace state.symbols
        visited := state.visited ++ [address] } ∧
      Linked map data (done ++ [address]) after := by
  have last : address ∈ done ++ [address] := List.mem_append_right _ List.mem_cons_self
  have inside := placed.inside address last
  have least := four_le_thunkSize (data.slice (map.place address) 4)
  have apart : ∀ earlier ∈ done, map.place earlier +
      thunkSize (data.slice (map.place earlier) 4) ≤ map.place address ∨ map.place address +
        thunkSize (data.slice (map.place address) 4) ≤ map.place earlier := fun earlier member =>
    (List.pairwise_append.mp placed.apart).2.2 earlier member address List.mem_cons_self
  have here := @Bytes.read_of_le data (map.place address) 4 (by omega)
  have four := (Bytes.read_eq_some.mp here).2.1
  -- the word is still that of the image before
  have read : state.data.read (map.place address) 4 =
      some (data.slice (map.place address) 4) := by
    obtain ⟨-, -, same⟩ := Bytes.read_eq_some.mp here
    refine Bytes.read_eq_some.mpr ⟨by rw [linked.length]; omega, four, fun position less => ?_⟩
    rw [same position less, linked.others]
    intro earlier member
    have := apart earlier member
    omega
  have size := length_thunkBytes four
  have room : map.place address + (thunkBytes (data.slice (map.place address) 4)).length ≤
      state.data.length := by
    rw [size, linked.length]
    exact inside
  refine ⟨_, loadThunk_eq names (placed.starts address last) read (size ▸ room), ?_, ?_, ?_⟩
  · rw [Bytes.length_overlay room, linked.length]
  · intro other member
    rcases List.mem_append.mp member with earlier | isLast
    · rw [Bytes.read_overlay_of_apart room (by rw [size]; exact apart other earlier),
        linked.thunks other earlier]
    · obtain rfl := List.mem_singleton.mp isLast
      rw [← size]
      exact Bytes.read_overlay (by omega)
  · intro position outside
    have behind := outside address last
    rw [Bytes.getElem?_overlay room, if_neg (by rw [size]; omega)]
    exact linked.others position fun earlier member =>
      outside earlier (List.mem_append_left _ member)

/-- The symbol of a descriptor. -/
def jobSymbol (map : ImageMap) (data : Bytes) (job : Job) : Option Symbol :=
  thunkSymbol job.1 (data.slice (map.place job.2) 4) job.2

/-- Loading thunks that lie apart. -/
theorem runJobs_eq {map : ImageMap} {data : Bytes} {done : List Nat} {jobs : List Job}
    (placed : Apart map data (done ++ jobs.map Prod.snd)) {state : Loading}
    (linked : Linked map data done state.data) :
    ∃ after, runJobs map jobs state = some {
        data := after
        symbols := (jobs.filterMap (jobSymbol map data)).foldl SymbolTable.emplace state.symbols
        visited := state.visited ++ jobs.map Prod.snd } ∧
      Linked map data (done ++ jobs.map Prod.snd) after := by
  induction jobs generalizing done state with
  | nil =>
      refine ⟨state.data, ?_, by simpa using linked⟩
      simp [runJobs]
  | cons job jobs ih =>
      have shape : done ++ (job :: jobs).map Prod.snd =
          done ++ [job.2] ++ jobs.map Prod.snd := by
        simp
      rw [shape] at placed ⊢
      have front : Apart map data (done ++ [job.2]) := {
        starts := fun address member => placed.starts address (List.mem_append_left _ member)
        inside := fun address member => placed.inside address (List.mem_append_left _ member)
        apart := (List.pairwise_append.mp placed.apart).1 }
      obtain ⟨first, loaded, linkedFirst⟩ := linked_loadThunk front linked job.1
      obtain ⟨after, ran, linkedAfter⟩ := @ih (done ++ [job.2]) placed ⟨first, _, _⟩ linkedFirst
      refine ⟨after, ?_, linkedAfter⟩
      rw [runJobs, List.foldlM_cons, loaded]
      refine ran.trans ?_
      simp only [List.filterMap_cons, List.map_cons, List.append_assoc, List.singleton_append]
      unfold jobSymbol
      cases thunkSymbol job.1 (data.slice (map.place job.2) 4) job.2 <;> rfl

/-! ## Resolving imports -/

namespace ImportHeader

variable (header : ImportHeader) (tables : ExportTables)

/-- The exports of the library that a record names. -/
def names (library : ImportLibrary) : Exports :=
  tables.names ((header.strings.map LibraryName.bytes).getD library.name [])

/-- The descriptors of all records, each with the exports of its own library. -/
def ownJobs : List Job :=
  header.libraries.flatMap fun library => library.jobs (header.names tables library)

/-- The addresses of the descriptors of all records. -/
def addresses : List Nat :=
  header.libraries.flatMap fun library => library.descriptors.map BitVec.toNat

/-- The records with the strings in their places. -/
def pairs : List (Bytes × ImportLibrary) :=
  (header.strings.map LibraryName.bytes).zip header.libraries

end ImportHeader

/-- The imports are resolved: every descriptor of every record is visited once, the thunks of
functions are stubs with the names of their own libraries, and those of data are swapped. -/
structure Resolved (map : ImageMap) (tables : ExportTables) (header : ImportHeader) (data : Bytes)
    (final : Loading) : Prop where
  visited : final.visited = header.addresses
  symbols : final.symbols =
    ((header.ownJobs tables).filterMap (jobSymbol map data)).foldl SymbolTable.emplace .empty
  data : Linked map data header.addresses final.data

/-- Where the loader comes to the same: the records that no string is left for have no descriptors,
the strings that no record is left for find none behind the header, and the table for the string in
the place of a record has the same names for its functions as the table for its own string. -/
structure Agrees (map : ImageMap) (tables : ExportTables) (header : ImportHeader)
    (behind data : Bytes) : Prop where
  beyond : ∀ library ∈ header.libraries.drop header.strings.length, library.descriptors = []
  quiet : ∀ j < header.strings.length - header.libraries.length,
    behind.number (40 * j + 38) 2 = some 0
  names : ∀ pair ∈ header.pairs, ∀ firstThunk ∈ pair.2.descriptors,
    IsFunction (data.slice (map.place firstThunk.toNat) 4) →
      tables.names pair.1 (ordinal (data.slice (map.place firstThunk.toNat) 4)) =
        header.names tables pair.2 (ordinal (data.slice (map.place firstThunk.toNat) 4))

section

variable {map : ImageMap} {tables : ExportTables} {header : ImportHeader} {behind data : Bytes}

/-- The elements of a list with partners in another come before the others. -/
theorem flatMap_zip {α β γ : Type} (partners : List α) (elements : List β) (f : β → List γ) :
    elements.flatMap f = (partners.zip elements).flatMap (fun pair => f pair.2) ++
      (elements.drop partners.length).flatMap f := by
  induction elements generalizing partners with
  | nil => simp
  | cons element elements ih =>
      cases partners with
      | nil => simp
      | cons partner partners =>
          rw [List.zip_cons_cons, List.flatMap_cons, List.flatMap_cons, List.length_cons,
            List.drop_succ_cons, ih partners, List.append_assoc]

theorem mem_foldl_emplace {symbols : List Symbol} {table : SymbolTable} {symbol : Symbol} :
    symbol ∈ (symbols.foldl SymbolTable.emplace table).symbols ↔
      symbol ∈ symbols ∨ symbol ∈ table.symbols := by
  induction symbols generalizing table with
  | nil => simp
  | cons first symbols ih =>
      rw [List.foldl_cons, ih, SymbolTable.mem_emplace, List.mem_cons]
      tauto

/-- The loader reads the header as it was written. -/
theorem loadImports_encode :
    loadImports map tables (header.encode ++ behind) data =
      loadLibraries map tables (header.encode ++ behind) (header.strings.map LibraryName.bytes)
        (12 + header.sizeOfStringTable) ⟨data, .empty, []⟩ := by
  have size : (header.encode ++ behind).number 4 4 = some header.sizeOfStringTable := by
    have shape : header.encode ++ behind = Bytes.encode 4 header.sizeOfHeader ++
        Bytes.encode 4 header.sizeOfStringTable ++ (Bytes.encode 4 header.strings.length ++
          (header.strings.flatMap LibraryName.encode ++
            (header.libraries.flatMap ImportLibrary.encode ++ behind))) := by
      simp only [ImportHeader.encode, List.append_assoc]
    rw [shape, Bytes.number_append (Bytes.length_encode 4 _).symm (Bytes.length_encode 4 _).symm,
      Bytes.value_encode_of_lt header.fewBytes]
  have count : (header.encode ++ behind).number 8 4 = some header.strings.length := by
    have shape : header.encode ++ behind = (Bytes.encode 4 header.sizeOfHeader ++
        Bytes.encode 4 header.sizeOfStringTable) ++ Bytes.encode 4 header.strings.length ++
          (header.strings.flatMap LibraryName.encode ++
            (header.libraries.flatMap ImportLibrary.encode ++ behind)) := by
      simp only [ImportHeader.encode, List.append_assoc]
    rw [shape, Bytes.number_append (by rw [List.length_append, Bytes.length_encode,
      Bytes.length_encode]) (Bytes.length_encode 4 _).symm,
      Bytes.value_encode_of_lt header.fewStrings]
  have strings : readStrings (header.encode ++ behind) header.strings.length 0 =
      some (header.strings.map LibraryName.bytes) := by
    refine @readStrings_encode _ (Bytes.encode 4 header.sizeOfHeader ++
      Bytes.encode 4 header.sizeOfStringTable ++ Bytes.encode 4 header.strings.length)
      (header.libraries.flatMap ImportLibrary.encode ++ behind) header.strings 0 ?_ ?_
    · simp only [List.length_append, Bytes.length_encode]
    · simp only [ImportHeader.encode, List.append_assoc]
  rw [loadImports, size, count]
  simp only [Option.bind_eq_bind, Option.bind_some, strings]

/-- The loader runs the descriptors that are paired, and reads on for the strings that are left. -/
theorem loadImports_eq :
    loadImports map tables (header.encode ++ behind) data =
      (runJobs map (pairedJobs tables (header.strings.map LibraryName.bytes) header.libraries)
        ⟨data, .empty, []⟩).bind (loadLibraries map tables (header.encode ++ behind)
          ((header.strings.map LibraryName.bytes).drop header.libraries.length)
          header.encode.length) := by
  have here : (Bytes.encode 4 header.sizeOfHeader ++ Bytes.encode 4 header.sizeOfStringTable ++
      Bytes.encode 4 header.strings.length ++
        header.strings.flatMap LibraryName.encode).length = 12 + header.sizeOfStringTable := by
    simp only [List.length_append, Bytes.length_encode, length_encode_strings]
    rfl
  have whole : 12 + header.sizeOfStringTable +
      (header.libraries.flatMap ImportLibrary.encode).length = header.encode.length := by
    rw [ImportHeader.encode, List.length_append, here]
  have shape : header.encode ++ behind = (Bytes.encode 4 header.sizeOfHeader ++
      Bytes.encode 4 header.sizeOfStringTable ++ Bytes.encode 4 header.strings.length ++
        header.strings.flatMap LibraryName.encode) ++
          (header.libraries.flatMap ImportLibrary.encode ++ behind) := by
    simp only [ImportHeader.encode, List.append_assoc]
  rw [loadImports_encode, loadLibraries_encode here shape, whole]

theorem map_snd_pairedJobs :
    (pairedJobs tables (header.strings.map LibraryName.bytes) header.libraries).map Prod.snd =
      header.pairs.flatMap fun pair => pair.2.descriptors.map BitVec.toNat := by
  rw [pairedJobs, List.map_flatMap]
  exact List.flatMap_congr fun pair _ => by rw [ImportLibrary.jobs, List.map_map]; rfl

/-- The records with a string left for them come first. -/
theorem addresses_eq : header.addresses =
    (header.pairs.flatMap fun pair => pair.2.descriptors.map BitVec.toNat) ++
      (header.libraries.drop header.strings.length).flatMap fun library =>
        library.descriptors.map BitVec.toNat := by
  rw [ImportHeader.addresses, flatMap_zip (header.strings.map LibraryName.bytes), List.length_map]
  rfl

theorem ownJobs_eq (beyond : ∀ library ∈ header.libraries.drop header.strings.length,
    library.descriptors = []) :
    header.ownJobs tables =
      header.pairs.flatMap fun pair => pair.2.jobs (header.names tables pair.2) := by
  rw [ImportHeader.ownJobs, flatMap_zip (header.strings.map LibraryName.bytes), List.length_map]
  refine (congrArg _ (List.flatMap_eq_nil_iff.mpr fun library member => ?_)).trans
    (List.append_nil _)
  rw [ImportLibrary.jobs, beyond library member]
  rfl

/-- Two records with an address in common are the same pair. -/
theorem eq_of_mem_descriptors (placed : Apart map data header.addresses)
    {left right : Bytes × ImportLibrary} (leftMember : left ∈ header.pairs)
    (rightMember : right ∈ header.pairs) {firstThunk : BitVec 32}
    (leftThunk : firstThunk ∈ left.2.descriptors) (rightThunk : firstThunk ∈ right.2.descriptors) :
    left = right := by
  have distinct : header.addresses.Nodup := by
    refine placed.apart.imp fun {left right} apart same => ?_
    subst same
    have := four_le_thunkSize (data.slice (map.place left) 4)
    omega
  rw [addresses_eq, List.nodup_append, List.nodup_flatMap] at distinct
  by_contra other
  have symmetric : Std.Symm (Function.onFun List.Disjoint fun pair : Bytes × ImportLibrary =>
      pair.2.descriptors.map BitVec.toNat) := 
    ⟨fun _ _ apart _ inRight inLeft => apart inLeft inRight⟩
  have apart := distinct.1.2.forall leftMember rightMember other
  exact apart (List.mem_map_of_mem leftThunk) (List.mem_map_of_mem rightThunk)

/-- Names that agree give the same symbols. -/
theorem filterMap_pairedJobs (agrees : ∀ pair ∈ header.pairs, ∀ firstThunk ∈ pair.2.descriptors,
    IsFunction (data.slice (map.place firstThunk.toNat) 4) →
      tables.names pair.1 (ordinal (data.slice (map.place firstThunk.toNat) 4)) =
        header.names tables pair.2 (ordinal (data.slice (map.place firstThunk.toNat) 4))) :
    (pairedJobs tables (header.strings.map LibraryName.bytes) header.libraries).filterMap
        (jobSymbol map data) =
      (header.pairs.flatMap fun pair => pair.2.jobs (header.names tables pair.2)).filterMap
        (jobSymbol map data) := by
  rw [pairedJobs, List.filterMap_flatMap, List.filterMap_flatMap]
  refine List.flatMap_congr fun pair member => ?_
  rw [ImportLibrary.jobs, ImportLibrary.jobs, List.filterMap_map, List.filterMap_map]
  refine List.filterMap_congr fun firstThunk among => ?_
  simp only [Function.comp, jobSymbol, thunkSymbol]
  split_ifs with function
  · rw [agrees pair member firstThunk among function]
  · rfl

/-- A name that one of the tables has under the ordinal of a function. -/
theorem mem_filterMap_jobs {names : Bytes × ImportLibrary → Exports}
    (placed : Apart map data header.addresses) {pair : Bytes × ImportLibrary}
    (member : pair ∈ header.pairs) {firstThunk : BitVec 32}
    (among : firstThunk ∈ pair.2.descriptors)
    (function : IsFunction (data.slice (map.place firstThunk.toNat) 4)) (name : String) :
    (⟨name, firstThunk.toNat, stub.length, .symbolFunction⟩ : Symbol) ∈
        (header.pairs.flatMap fun pair => pair.2.jobs (names pair)).filterMap
          (jobSymbol map data) ↔
      names pair (ordinal (data.slice (map.place firstThunk.toNat) 4)) = some name := by
  constructor
  · intro given
    obtain ⟨job, jobMember, symbol⟩ := List.mem_filterMap.mp given
    obtain ⟨other, otherMember, jobs⟩ := List.mem_flatMap.mp jobMember
    obtain ⟨otherThunk, otherAmong, rfl⟩ := List.mem_map.mp jobs
    unfold jobSymbol thunkSymbol at symbol
    split_ifs at symbol
    obtain ⟨found, isName, same⟩ := Option.map_eq_some_iff.mp symbol
    obtain ⟨rfl, address, -, -⟩ := Symbol.mk.injEq .. ▸ same
    obtain rfl : otherThunk = firstThunk := BitVec.eq_of_toNat_eq address
    rw [eq_of_mem_descriptors placed member otherMember among otherAmong]
    exact isName
  · intro isName
    refine List.mem_filterMap.mpr ⟨(names pair, firstThunk.toNat),
      List.mem_flatMap.mpr ⟨pair, member, List.mem_map_of_mem among⟩, ?_⟩
    simp only [jobSymbol, thunkSymbol]
    rw [if_pos function, isName]
    rfl

/-- The imports are resolved exactly when the loader comes to the same. -/
theorem loadImports_iff (map : ImageMap) (tables : ExportTables) (header : ImportHeader)
    (behind data : Bytes) (placed : Apart map data header.addresses) :
    (∃ final, loadImports map tables (header.encode ++ behind) data = some final ∧
      Resolved map tables header data final) ↔ Agrees map tables header behind data := by
  -- what the paired descriptors come to
  have addresses := @addresses_eq header
  have pairedPlaced : Apart map data ([] ++ (pairedJobs tables
      (header.strings.map LibraryName.bytes) header.libraries).map Prod.snd) := by
    rw [List.nil_append, map_snd_pairedJobs]
    rw [addresses] at placed
    exact {
      starts := fun address member => placed.starts address (List.mem_append_left _ member)
      inside := fun address member => placed.inside address (List.mem_append_left _ member)
      apart := (List.pairwise_append.mp placed.apart).1 }
  obtain ⟨after, ran, linked⟩ := @runJobs_eq map data [] _ pairedPlaced ⟨data, .empty, []⟩
    ⟨rfl, fun address member => absurd member List.not_mem_nil, fun _ _ => rfl⟩
  rw [List.nil_append, map_snd_pairedJobs] at linked
  simp only [List.nil_append, map_snd_pairedJobs] at ran
  rw [loadImports_eq, ran, Option.bind_some]
  have length : ((header.strings.map LibraryName.bytes).drop header.libraries.length).length =
      header.strings.length - header.libraries.length := by
    rw [List.length_drop, List.length_map]
  have reads : ∀ j, (header.encode ++ behind).number (header.encode.length + 40 * j + 38) 2 =
      behind.number (40 * j + 38) 2 := by
    intro j
    rw [Nat.add_assoc, Bytes.number_append_right]
  constructor
  · rintro ⟨final, loaded, resolved⟩
    have grown := visited_loadLibraries loaded
    have total := congrArg List.length (resolved.visited.trans addresses)
    rw [List.length_append] at total
    simp only at grown
    have beyond : ∀ library ∈ header.libraries.drop header.strings.length,
        library.descriptors = [] := by
      by_cases fewer : header.strings.length ≤ header.libraries.length
      · -- no string is left, so that nothing else is visited
        rw [List.drop_eq_nil_of_le (by rw [List.length_map]; exact fewer)] at loaded
        obtain rfl := Option.some.inj loaded
        have none : ((header.libraries.drop header.strings.length).flatMap fun library =>
            library.descriptors.map BitVec.toNat) = [] := by
          apply List.eq_nil_of_length_eq_zero
          simp only at total
          omega
        intro library member
        exact List.map_eq_nil_iff.mp (List.flatMap_eq_nil_iff.mp none library member)
      · rw [List.drop_eq_nil_of_le (by omega)]
        exact List.forall_mem_nil _
    have rest : ((header.libraries.drop header.strings.length).flatMap fun library =>
        library.descriptors.map BitVec.toNat) = [] :=
      List.flatMap_eq_nil_iff.mpr fun library member => by rw [beyond library member]; rfl
    rw [rest, List.length_nil, Nat.add_zero] at total
    have quiet := idle_of_visited loaded total
    rw [loadLibraries_idle _ quiet] at loaded
    obtain rfl := Option.some.inj loaded
    rw [length] at quiet
    refine ⟨beyond, fun j less => by rw [← reads]; exact quiet j less, ?_⟩
    have symbols := resolved.symbols
    simp only [ownJobs_eq beyond] at symbols
    intro pair member firstThunk among function
    apply Option.ext
    intro name
    -- a name in one of the tables means a symbol, and the symbols are the same
    have paired := @mem_filterMap_jobs map header data (fun pair => tables.names pair.1) placed pair
      member firstThunk among function name
    have own := @mem_filterMap_jobs map header data (fun pair => header.names tables pair.2) placed
      pair member firstThunk among function name
    have given := congrArg (fun table : SymbolTable =>
      (⟨name, firstThunk.toNat, stub.length, .symbolFunction⟩ : Symbol) ∈ table.symbols) symbols
    simp only [mem_foldl_emplace, SymbolTable.empty, List.not_mem_nil, or_false] at given
    exact paired.symm.trans ((iff_of_eq given).trans own)
  · intro agrees
    have idle := @loadLibraries_idle map tables (header.encode ++ behind)
      ((header.strings.map LibraryName.bytes).drop header.libraries.length) header.encode.length
      ⟨after, ((pairedJobs tables (header.strings.map LibraryName.bytes)
        header.libraries).filterMap (jobSymbol map data)).foldl SymbolTable.emplace .empty,
        header.pairs.flatMap fun pair => pair.2.descriptors.map BitVec.toNat⟩
      (fun j less => by rw [reads]; exact agrees.quiet j (length ▸ less))
    have same : header.addresses =
        header.pairs.flatMap fun pair => pair.2.descriptors.map BitVec.toNat := by
      refine addresses.trans ((congrArg _
        (List.flatMap_eq_nil_iff.mpr fun library member => ?_)).trans (List.append_nil _))
      rw [agrees.beyond library member]
      rfl
    refine ⟨_, idle, same.symm, ?_, same ▸ linked⟩
    rw [ownJobs_eq agrees.beyond, filterMap_pairedJobs agrees.names]

/-- A record without further data. -/
def plainLibrary (name : Nat) (descriptors : List (BitVec 32)) (few : descriptors.length < 2 ^ 16) :
    ImportLibrary where
  size := 40 + descriptors.length * 4
  nextImportDigest := Bytes.zeros 20
  id := 0
  version := 0
  minVersion := 0
  name
  descriptors
  digest_length := rfl
  few

/-- The records name the strings the other way around. -/
def crossed : ImportHeader where
  sizeOfHeader := 120
  strings := [⟨kernelName, by decide⟩, ⟨xamName, by decide⟩]
  libraries := [plainLibrary 1 [0x82000000] (by decide), plainLibrary 0 [] (by decide)]
  named := by decide
  fewStrings := by decide
  fewBytes := by decide

/-- Each record names the string in its place. -/
def straight : ImportHeader where
  sizeOfHeader := 132
  strings := [⟨xamName, by decide⟩, ⟨kernelName, by decide⟩]
  libraries := [plainLibrary 0 [0x82000000, 0x82000010] (by decide),
    plainLibrary 1 [0x82000020, 0x82000024] (by decide)]
  named := by decide
  fewStrings := by decide
  fewBytes := by decide

def oneSection : ImageMap := ⟨0x82000000, [0]⟩

/-- The word of a function with ordinal 1, and what its stub covers. -/
def oneThunk : Bytes := [1, 0, 0, 1] ++ Bytes.zeros 12

def oneExport : ExportTables where
  xamExports ordinal := if ordinal = 1 then some "NetDll_WSAStartup" else none
  xboxKernelExports _ := none

theorem oneThunk_apart : Apart oneSection oneThunk [0x82000000] where
  starts := List.forall_mem_singleton.mpr ⟨0, List.mem_cons_self, by decide⟩
  inside := List.forall_mem_singleton.mpr (by decide)
  apart := List.pairwise_singleton _ _

/-- The words of two functions of the first library, and of a variable and a function of the
second. -/
def fourThunks : Bytes :=
  [1, 0, 0, 1] ++ Bytes.zeros 12 ++ ([1, 0, 0, 2] ++ Bytes.zeros 12) ++ [0, 0, 0, 0x59] ++
    ([1, 0, 0, 1] ++ Bytes.zeros 12)

/-- Ordinals that both libraries have. -/
def bothExports : ExportTables where
  xamExports ordinal := if ordinal = 1 then some "NetDll_WSAStartup"
    else if ordinal = 2 then some "NetDll_WSACleanup" else none
  xboxKernelExports ordinal := if ordinal = 1 then some "DbgBreakPoint" else none

theorem fourThunks_apart : Apart oneSection fourThunks straight.addresses where
  starts := by
    have behind : straight.addresses.all (fun address => 0x82000000 ≤ address) = true := by decide
    intro address member
    exact ⟨0, List.mem_cons_self, of_decide_eq_true (List.all_eq_true.mp behind address member)⟩
  inside := by
    have ends : straight.addresses.all (fun address => oneSection.place address +
        thunkSize (fourThunks.slice (oneSection.place address) 4) ≤ fourThunks.length) = true := by
      decide +kernel
    intro address member
    exact of_decide_eq_true (List.all_eq_true.mp ends address member)
  apart := by decide +kernel

theorem loadImports_straight :
    ∃ final, loadImports oneSection bothExports (straight.encode ++ []) fourThunks = some final ∧
      Resolved oneSection bothExports straight fourThunks final :=
  (loadImports_iff oneSection bothExports straight [] fourThunks fourThunks_apart).mpr {
    beyond := List.forall_mem_nil _
    quiet := fun j less => absurd less (Nat.not_lt_zero j)
    names := fun pair member firstThunk _ _ => by
      rcases List.mem_cons.mp member with rfl | member
      · rfl
      · obtain rfl := List.mem_singleton.mp member
        rfl }

theorem not_loadImports : ¬∀ (map : ImageMap) (tables : ExportTables) (header : ImportHeader)
    (behind data : Bytes), Apart map data header.addresses →
      ∃ final, loadImports map tables (header.encode ++ behind) data = some final ∧
        Resolved map tables header data final := by
  intro every
  obtain ⟨final, loaded, resolved⟩ := every oneSection oneExport crossed [] oneThunk oneThunk_apart
  have symbols : (loadImports oneSection oneExport (crossed.encode ++ []) oneThunk).map
      (fun final => final.symbols.symbols) = some [] := by decide +kernel
  rw [loaded, Option.map_some, resolved.symbols] at symbols
  exact absurd symbols (by decide +kernel)

end

end UfcRecomp.Xex
