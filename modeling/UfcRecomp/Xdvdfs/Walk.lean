import UfcRecomp.Lib.Descent
import UfcRecomp.Xdvdfs.Partition
import Mathlib.Data.Finite.Prod

/-!
# The index of a disc image

The entries of a directory are a binary tree, and an entry that is a directory leads to another.
`extract_xdvdfs_file.py` walks the trees with a function that calls itself. A directory without
entries is filled with `0xFF`, which the function reads as an entry.
-/

namespace UfcRecomp.Xdvdfs

open UfcRecomp.Lib

/-! ## The walk -/

def ATTR_DIR : Nat := 0x10

def PAD_SHORT : Nat := 0xFFFF

structure Entry where
  path : List Char
  startSector : Nat
  size : Nat
  attributes : Nat
  deriving DecidableEq

/-- `decode("ascii", errors="replace")` -/
def decode (data : Bytes) : List Char :=
  data.map fun byte => if byte.toNat < 128 then Char.ofNat byte.toNat else Char.ofNat 0xFFFD

/-- `read_entry`: the links to the left and to the right, and the entry. -/
def readEntry (f : Bytes) (dirStart entryOffset : Nat) : Except Failure (Nat × Nat × Entry) := do
  let offset := dirStart + entryOffset * 4
  let data ← readAt f offset 14
  let name ← readAt f (offset + 14) (unpack data 13 1)
  return (unpack data 0 2, unpack data 2 2,
    ⟨decode name, unpack data 4 4, unpack data 8 4, unpack data 12 1⟩)

/-- The dictionary with the entries. -/
abbrev Index := List Char → Option Entry

def Index.insert (out : Index) (key : List Char) (entry : Entry) : Index :=
  fun other => if other = key then some entry else out other

/-- `lower`, which leaves characters that are not of ASCII alone. -/
def lower (path : List Char) : List Char := path.map Char.toLower

/-- `replace("\\", "/")` -/
def normalize (path : List Char) : List Char := path.map fun c => if c = '\\' then '/' else c

/-- The path of an entry behind that of its directory, which is empty for the root. -/
def fullPath (front name : List Char) : List Char :=
  if front ≠ [] then front ++ '/' :: name else name

/-- Whether the entry is a directory that is walked. -/
def Entry.IsDirectory (entry : Entry) : Prop := entry.attributes &&& ATTR_DIR ≠ 0 ∧ 0 < entry.size

instance (entry : Entry) : Decidable entry.IsDirectory := inferInstanceAs (Decidable (_ ∧ _))

/-- Where the entries of a directory start. -/
def Entry.childStart (base : Nat) (entry : Entry) : Nat := base + entry.startSector * SECTOR_SIZE

/-- The links that `walk_tree` returns for at once. -/
def Stops (entryOffset : Nat) (allowZero : Bool) : Prop :=
  entryOffset = PAD_SHORT ∨ (entryOffset = 0 ∧ ¬allowZero)

instance (entryOffset : Nat) (allowZero : Bool) : Decidable (Stops entryOffset allowZero) :=
  inferInstanceAs (Decidable (_ ∨ _))

/-- `walk_tree`, with the number of calls that may still be open at the same time. -/
def walkTree (f : Bytes) (base : Nat) : Nat → Nat → List Char → Nat → Index → Bool →
    Except (Descent.Failure Failure) Index
  | 0, _, _, _, _, _ => .error .limit
  | limit + 1, dirStart, front, entryOffset, out, allowZero =>
    if Stops entryOffset allowZero then
      .ok out
    else
      match readEntry f dirStart entryOffset with
      | .error reason => .error (.error reason)
      | .ok (left, right, entry) => do
        let out ← if left ≠ 0 then walkTree f base limit dirStart front left out false else .ok out
        let normalized := normalize (fullPath front entry.path)
        let out := out.insert (lower normalized) { entry with path := normalized }
        let out ←
          if entry.IsDirectory then
            walkTree f base limit (entry.childStart base) normalized 0 out true
          else .ok out
        if right ≠ 0 then walkTree f base limit dirStart front right out false else .ok out

/-- `build_index` -/
def buildIndex (limit : Nat) (f : Bytes) :
    Except (Descent.Failure Failure) (Nat × Nat × Nat × Index) :=
  match detectPartition f with
  | .error reason => .error (.error reason)
  | .ok (base, rootSector, rootSize) => do
    let rootStart := base + rootSector * SECTOR_SIZE
    let entries ← walkTree f base limit rootStart [] 0 (fun _ => none) true
    return (base, rootSector, rootSize, entries)

/-! ## Directories -/

/-- An entry, as it is to be found under the path of its directory. -/
structure Item where
  name : List Char
  startSector : Nat
  size : Nat
  attributes : Nat
  ascii : ∀ c ∈ name, c.toNat < 128
  noSlash : '/' ∉ name ∧ '\\' ∉ name
  short : name.length < 2 ^ 8
  startSector_lt : startSector < 2 ^ 32
  size_lt : size < 2 ^ 32
  attributes_lt : attributes < 2 ^ 8

def Item.entry (item : Item) (path : List Char) : Entry :=
  ⟨path, item.startSector, item.size, item.attributes⟩

/-- A number with its least significant byte first. -/
def packed (count number : Nat) : Bytes := (Bytes.encode count number).reverse

/-- The bytes of an entry with the links to the left and to the right. -/
def Item.record (item : Item) (left right : Nat) : Bytes :=
  packed 2 left ++ packed 2 right ++ packed 4 item.startSector ++ packed 4 item.size ++
    packed 1 item.attributes ++ packed 1 item.name.length ++
      item.name.map fun c => BitVec.ofNat 8 c.toNat

/-- The entries of a directory, those of the directories among them included. A directory without
entries is `none`, and so is what a missing link leads to. -/
inductive Tree where
  | none
  | node (left : Tree) (item : Item) (child right : Tree)

/-- Bytes of the image. -/
def Holds (f : Bytes) (position : Nat) (bytes : Bytes) : Prop :=
  (f.drop position).take bytes.length = bytes

/-- The sector of a directory without entries. -/
def Filled (f : Bytes) (dirStart : Nat) : Prop :=
  Holds f dirStart (List.replicate SECTOR_SIZE 0xFF)

/-- A link that leads nowhere. -/
def Missing (link : Nat) : Prop := link = 0 ∨ link = PAD_SHORT

/-- The entry at an offset, with what its links lead to. -/
def Placed (f : Bytes) (base : Nat) : Tree → Nat → Nat → Prop
  | .none, _, _ => False
  | .node left item child right, dirStart, offset =>
    ∃ leftLink < 2 ^ 16, ∃ rightLink < 2 ^ 16,
      Holds f (dirStart + offset * 4) (item.record leftLink rightLink) ∧
      ((Missing leftLink ∧ left = .none) ∨
        (¬Missing leftLink ∧ Placed f base left dirStart leftLink)) ∧
      ((Missing rightLink ∧ right = .none) ∨
        (¬Missing rightLink ∧ Placed f base right dirStart rightLink)) ∧
      if (item.entry item.name).IsDirectory then
        (child = .none ∧ Filled f ((item.entry item.name).childStart base)) ∨
          Placed f base child ((item.entry item.name).childStart base) 0
      else
        child = .none

/-- The names of the entries of a directory, without regard to case. -/
def Tree.names : Tree → List (List Char)
  | .none => []
  | .node left item _ right => left.names ++ lower item.name :: right.names

/-- The entries of each directory below have different names. -/
def Tree.Distinct : Tree → Prop
  | .none => True
  | .node left _ child right =>
    left.Distinct ∧ (child.names.Nodup ∧ child.Distinct) ∧ right.Distinct

/-- The directory at a place is well formed. -/
structure WellFormed (f : Bytes) (base dirStart : Nat) (tree : Tree) : Prop where
  table : (tree = .none ∧ Filled f dirStart) ∨ Placed f base tree dirStart 0
  names : tree.names.Nodup
  distinct : tree.Distinct

/-- The path of an entry; the root has none. -/
def pathIn (directory : Option (List Char)) (name : List Char) : List Char :=
  match directory with
  | none => name
  | some path => path ++ '/' :: name

/-- All files and directories with their keys. -/
def Tree.entries : Tree → Option (List Char) → List (List Char × Entry)
  | .none, _ => []
  | .node left item child right, directory =>
    left.entries directory ++
      (lower (pathIn directory item.name), item.entry (pathIn directory item.name)) ::
        (child.entries (some (pathIn directory item.name)) ++ right.entries directory)

/-- The index of an image is built as it should be, with so many calls that may be open at the same
time. -/
structure Indexes (limit : Nat) (f : Bytes) : Prop where
  terminates : buildIndex limit f ≠ .error .limit
  complete : ∀ base rootSector rootSize tree,
    detectPartition f = .ok (base, rootSector, rootSize) →
      WellFormed f base (base + rootSector * SECTOR_SIZE) tree →
        ∃ index, buildIndex limit f = .ok (base, rootSector, rootSize, index) ∧
          ∀ key entry, index key = some entry ↔ (key, entry) ∈ tree.entries none

/-! ## Reading an entry -/

@[simp] theorem length_packed (count number : Nat) : (packed count number).length = count := by
  rw [packed, List.length_reverse, Bytes.length_encode]

theorem unpack_packed {data front back : Bytes} {start count number : Nat}
    (shape : data = front ++ (packed count number ++ back)) (here : front.length = start)
    (small : number < 256 ^ count) : unpack data start count = number := by
  have field : (data.drop start).take count = packed count number := by
    rw [shape, ← here, List.drop_left]
    exact (congrArg (List.take · _) (length_packed count number).symm).trans List.take_left
  rw [unpack, field, packed, List.reverse_reverse, Bytes.value_encode_of_lt small]

theorem Holds.le {f bytes : Bytes} {position : Nat} (holds : Holds f position bytes)
    (some : bytes ≠ []) : position + bytes.length ≤ f.length := by
  have length := congrArg List.length holds
  have := List.length_pos_iff.mpr some
  rw [List.length_take, List.length_drop] at length
  omega

/-- Bytes at the start of others, and those behind them. -/
theorem Holds.append {f front back : Bytes} {position : Nat}
    (holds : Holds f position (front ++ back)) :
    Holds f position front ∧ Holds f (position + front.length) back := by
  unfold Holds at *
  rw [List.length_append] at holds
  constructor
  · have := congrArg (List.take front.length) holds
    rwa [List.take_take, Nat.min_eq_left (Nat.le_add_right _ _), List.take_left] at this
  · have := congrArg (List.drop front.length) holds
    rwa [List.drop_take, Nat.add_sub_cancel_left, List.drop_drop, List.drop_left] at this

theorem Holds.readAt {f bytes : Bytes} {position : Nat} (holds : Holds f position bytes) :
    readAt f position bytes.length = .ok bytes := by
  unfold Holds at holds
  rw [Xdvdfs.readAt, holds, if_neg (not_not.mpr rfl)]

theorem decode_ascii {name : List Char} (ascii : ∀ c ∈ name, c.toNat < 128) :
    decode (name.map fun c => BitVec.ofNat 8 c.toNat) = name := by
  rw [decode, List.map_map]
  refine (List.map_congr_left fun c member => ?_).trans (List.map_id _)
  have small := ascii c member
  have value : (BitVec.ofNat 8 c.toNat).toNat = c.toNat := by
    rw [BitVec.toNat_ofNat]
    exact Nat.mod_eq_of_lt (by omega)
  simp only [Function.comp_apply, value, if_pos small, Char.ofNat_toNat, id]

theorem readEntry_record {f : Bytes} {dirStart offset left right : Nat} {item : Item}
    (smallLeft : left < 2 ^ 16) (smallRight : right < 2 ^ 16)
    (holds : Holds f (dirStart + offset * 4) (item.record left right)) :
    readEntry f dirStart offset = .ok (left, right, item.entry item.name) := by
  obtain ⟨header, name⟩ := holds.append
  have length : (packed 2 left ++ packed 2 right ++ packed 4 item.startSector ++
      packed 4 item.size ++ packed 1 item.attributes ++ packed 1 item.name.length).length = 14 := by
    simp
  rw [length] at name
  generalize fields : packed 2 left ++ packed 2 right ++ packed 4 item.startSector ++
    packed 4 item.size ++ packed 1 item.attributes ++ packed 1 item.name.length = data
      at header length
  have text := name.readAt
  rw [List.length_map] at text
  have short : unpack data 13 1 = item.name.length := by
    refine @unpack_packed data (packed 2 left ++ packed 2 right ++ packed 4 item.startSector ++
      packed 4 item.size ++ packed 1 item.attributes) [] 13 1 _ ?_ (by simp) item.short
    rw [← fields, List.append_nil]
  have ofLeft : unpack data 0 2 = left := by
    refine @unpack_packed data [] (packed 2 right ++ packed 4 item.startSector ++
      packed 4 item.size ++ packed 1 item.attributes ++ packed 1 item.name.length) 0 2 _ ?_ rfl
        smallLeft
    simp only [← fields, List.append_assoc, List.nil_append]
  have ofRight : unpack data 2 2 = right := by
    refine @unpack_packed data (packed 2 left) (packed 4 item.startSector ++ packed 4 item.size ++
      packed 1 item.attributes ++ packed 1 item.name.length) 2 2 _ ?_ (by simp) smallRight
    simp only [← fields, List.append_assoc]
  have ofSector : unpack data 4 4 = item.startSector := by
    refine @unpack_packed data (packed 2 left ++ packed 2 right) (packed 4 item.size ++
      packed 1 item.attributes ++ packed 1 item.name.length) 4 4 _ ?_ (by simp) item.startSector_lt
    simp only [← fields, List.append_assoc]
  have ofSize : unpack data 8 4 = item.size := by
    refine @unpack_packed data (packed 2 left ++ packed 2 right ++ packed 4 item.startSector)
      (packed 1 item.attributes ++ packed 1 item.name.length) 8 4 _ ?_ (by simp) item.size_lt
    simp only [← fields, List.append_assoc]
  have ofAttributes : unpack data 12 1 = item.attributes := by
    refine @unpack_packed data (packed 2 left ++ packed 2 right ++ packed 4 item.startSector ++
      packed 4 item.size) (packed 1 item.name.length) 12 1 _ ?_ (by simp) item.attributes_lt
    simp only [← fields, List.append_assoc]
  rw [readEntry, ← length, header.readAt]
  simp only [bind, Except.bind, pure, Except.pure, length, short, text, decode_ascii item.ascii,
    ofLeft, ofRight, ofSector, ofSize, ofAttributes, Item.entry]

/-- What is read at the start of a directory without entries. -/
def filler : Entry :=
  ⟨List.replicate 255 (Char.ofNat 0xFFFD), 0xFFFFFFFF, 0xFFFFFFFF, 0xFF⟩

theorem readEntry_filled {f : Bytes} {dirStart : Nat} (filled : Filled f dirStart) :
    readEntry f dirStart 0 = .ok (PAD_SHORT, PAD_SHORT, filler) := by
  have split : (List.replicate SECTOR_SIZE 0xFF : Bytes) = List.replicate 14 0xFF ++
      (List.replicate 255 0xFF ++ List.replicate 1779 0xFF) := by
    rw [List.replicate_append_replicate, List.replicate_append_replicate]
    rfl
  unfold Filled at filled
  rw [split] at filled
  obtain ⟨header, rest⟩ := filled.append
  obtain ⟨name, -⟩ := rest.append
  have first := header.readAt
  have second := name.readAt
  simp only [List.length_replicate] at first second
  have length : unpack (List.replicate 14 0xFF) 13 1 = 255 := by decide
  have text : decode (List.replicate 255 0xFF) = filler.path := List.map_replicate
  have left : unpack (List.replicate 14 0xFF) 0 2 = PAD_SHORT := by decide
  have right : unpack (List.replicate 14 0xFF) 2 2 = PAD_SHORT := by decide
  have startSector : unpack (List.replicate 14 0xFF) 4 4 = filler.startSector := by decide
  have size : unpack (List.replicate 14 0xFF) 8 4 = filler.size := by decide
  have attributes : unpack (List.replicate 14 0xFF) 12 1 = filler.attributes := by decide
  rw [readEntry, Nat.zero_mul, Nat.add_zero, first]
  simp only [bind, Except.bind, pure, Except.pure, length, second, text, left, right, startSector,
    size, attributes]

/-! ## A call that succeeds -/

section

variable {f : Bytes} {base limit dirStart entryOffset : Nat} {front : List Char} {out after : Index}
  {allowZero : Bool}

/-- What is done for a link that is not zero. -/
def follow (f : Bytes) (base limit dirStart : Nat) (front : List Char) (link : Nat) (out : Index) :
    Except (Descent.Failure Failure) Index :=
  if link ≠ 0 then walkTree f base limit dirStart front link out false else .ok out

/-- What is done for an entry that may be a directory. -/
def enterChild (f : Bytes) (base limit : Nat) (front : List Char) (entry : Entry) (out : Index) :
    Except (Descent.Failure Failure) Index :=
  if entry.IsDirectory then walkTree f base limit (entry.childStart base) front 0 out true
  else .ok out

/-- The entry itself. -/
def Index.add (out : Index) (path : List Char) (entry : Entry) : Index :=
  out.insert (lower path) { entry with path }

theorem walkTree_of_stops (stops : Stops entryOffset allowZero) :
    walkTree f base (limit + 1) dirStart front entryOffset out allowZero = .ok out := by
  rw [walkTree, if_pos stops]

theorem walkTree_of_entry {left right : Nat} {entry : Entry} (goes : ¬Stops entryOffset allowZero)
    (read : readEntry f dirStart entryOffset = .ok (left, right, entry)) :
    walkTree f base (limit + 1) dirStart front entryOffset out allowZero =
      ((follow f base limit dirStart front left out).bind fun out =>
        (enterChild f base limit (normalize (fullPath front entry.path)) entry
          (out.add (normalize (fullPath front entry.path)) entry)).bind fun out =>
            follow f base limit dirStart front right out) := by
  rw [walkTree, if_neg goes, read]
  simp only [follow, enterChild]
  split_ifs <;> rfl

/-- A call that reads an entry succeeds with its parts. -/
theorem exists_parts {left right : Nat} {entry : Entry} (goes : ¬Stops entryOffset allowZero)
    (read : readEntry f dirStart entryOffset = .ok (left, right, entry))
    (done : walkTree f base (limit + 1) dirStart front entryOffset out allowZero = .ok after) :
    ∃ before, follow f base limit dirStart front left out = .ok before ∧
      ∃ middle, enterChild f base limit (normalize (fullPath front entry.path)) entry
          (before.add (normalize (fullPath front entry.path)) entry) = .ok middle ∧
        follow f base limit dirStart front right middle = .ok after := by
  rw [walkTree_of_entry goes read] at done
  cases first : follow f base limit dirStart front left out with
  | error failure => rw [first] at done; exact nomatch done
  | ok before =>
      rw [first] at done
      simp only [Except.bind] at done
      cases second : enterChild f base limit (normalize (fullPath front entry.path)) entry
          (before.add (normalize (fullPath front entry.path)) entry) with
      | error failure => rw [second] at done; exact nomatch done
      | ok middle =>
          rw [second] at done
          exact ⟨before, rfl, middle, second, done⟩

/-- A higher limit gives the same index. -/
theorem walkTree_mono {more : Nat} (le : limit ≤ more)
    (done : walkTree f base limit dirStart front entryOffset out allowZero = .ok after) :
    walkTree f base more dirStart front entryOffset out allowZero = .ok after := by
  induction limit generalizing more dirStart front entryOffset out after allowZero with
  | zero => exact nomatch done
  | succ limit ih =>
      obtain ⟨more, rfl⟩ := Nat.exists_eq_add_one_of_ne_zero (by omega : more ≠ 0)
      have follows : ∀ {link out after}, follow f base limit dirStart front link out = .ok after →
          follow f base more dirStart front link out = .ok after := by
        intro link out after done
        unfold follow at *
        split_ifs at done ⊢
        · exact ih (by omega) done
        · exact done
      by_cases stops : Stops entryOffset allowZero
      · rw [walkTree_of_stops stops] at done ⊢
        exact done
      cases read : readEntry f dirStart entryOffset with
      | error reason =>
          rw [walkTree, if_neg stops, read] at done
          exact nomatch done
      | ok result =>
          obtain ⟨left, right, entry⟩ := result
          obtain ⟨before, first, middle, second, third⟩ := exists_parts stops read done
          have entered : enterChild f base more (normalize (fullPath front entry.path)) entry
              (before.add (normalize (fullPath front entry.path)) entry) = .ok middle := by
            unfold enterChild at *
            split_ifs at second ⊢
            · exact ih (by omega) second
            · exact second
          rw [walkTree_of_entry stops read, follows first, Except.bind, entered, Except.bind,
            follows third]

theorem Index.add_keeps {key : List Char} {path : List Char} {entry : Entry}
    (there : out key ≠ none) : out.add path entry key ≠ none := by
  unfold Index.add Index.insert
  split_ifs
  · exact Option.some_ne_none _
  · exact there

/-- No key is taken away. -/
theorem walkTree_keeps {key : List Char}
    (done : walkTree f base limit dirStart front entryOffset out allowZero = .ok after)
    (there : out key ≠ none) : after key ≠ none := by
  induction limit generalizing dirStart front entryOffset out after allowZero with
  | zero => exact nomatch done
  | succ limit ih =>
      have follows : ∀ {link out after}, follow f base limit dirStart front link out = .ok after →
          out key ≠ none → after key ≠ none := by
        intro link out after done there
        unfold follow at done
        split_ifs at done
        · exact ih done there
        · exact Except.ok.inj done ▸ there
      by_cases stops : Stops entryOffset allowZero
      · rw [walkTree_of_stops stops] at done
        exact Except.ok.inj done ▸ there
      cases read : readEntry f dirStart entryOffset with
      | error reason =>
          rw [walkTree, if_neg stops, read] at done
          exact nomatch done
      | ok result =>
          obtain ⟨left, right, entry⟩ := result
          obtain ⟨before, first, middle, second, third⟩ := exists_parts stops read done
          refine follows third ?_
          have added := @Index.add_keeps before key (normalize (fullPath front entry.path)) entry
            (follows first there)
          unfold enterChild at second
          split_ifs at second
          · exact ih second added
          · exact Except.ok.inj second ▸ added

end

/-! ## The index of a tree -/

/-- The directories below all have entries. -/
def Tree.Populated : Tree → Prop
  | .none => True
  | .node left item child right =>
    left.Populated ∧ ((item.entry item.name).IsDirectory → child ≠ .none) ∧ child.Populated ∧
      right.Populated

/-- The entries in the order in which they are put into the index. -/
def Tree.walked : Tree → List Char → List (List Char × Entry)
  | .none, _ => []
  | .node left item child right, front =>
    left.walked front ++
      (lower (fullPath front item.name), item.entry (fullPath front item.name)) ::
        (child.walked (fullPath front item.name) ++ right.walked front)

/-- Put entries into an index. -/
def Index.insertAll (out : Index) (entries : List (List Char × Entry)) : Index :=
  entries.foldl (fun out entry => out.insert entry.1 entry.2) out

theorem Index.insertAll_append (out : Index) (left right : List (List Char × Entry)) :
    out.insertAll (left ++ right) = (out.insertAll left).insertAll right := List.foldl_append

theorem Index.insertAll_cons (out : Index) (entry : List Char × Entry)
    (entries : List (List Char × Entry)) :
    out.insertAll (entry :: entries) = (out.insert entry.1 entry.2).insertAll entries := rfl

theorem normalize_of_plain {path : List Char} (plain : '\\' ∉ path) : normalize path = path := by
  refine (List.map_congr_left fun c member => ?_).trans (List.map_id _)
  exact if_neg fun (same : c = '\\') => plain (same ▸ member)

theorem fullPath_plain {front : List Char} {item : Item} (plain : '\\' ∉ front) :
    '\\' ∉ fullPath front item.name := by
  unfold fullPath
  split_ifs
  · simp [plain, item.noSlash.2]
  · exact item.noSlash.2

theorem not_stops_of_present {link : Nat} (present : ¬Missing link) : ¬Stops link false := by
  rintro (pad | ⟨zero, -⟩)
  · exact present (.inr pad)
  · exact present (.inl zero)

theorem not_stops_first : ¬Stops 0 true := by decide

/-- A walk for all limits from some on. -/
def Walks (f : Bytes) (base : Nat) (tree : Tree) (dirStart entryOffset : Nat) (allowZero : Bool) :
    Prop :=
  ∃ limit, ∀ more, limit ≤ more → ∀ front, '\\' ∉ front → ∀ out,
    walkTree f base more dirStart front entryOffset out allowZero =
      .ok (out.insertAll (tree.walked front))

/-- A link is followed to what it leads to. -/
theorem exists_follow {f : Bytes} {base dirStart link : Nat} {tree : Tree}
    (leads : (Missing link ∧ tree = .none) ∨
      (¬Missing link ∧ Walks f base tree dirStart link false)) :
    ∃ limit, ∀ more, limit ≤ more → ∀ front, '\\' ∉ front → ∀ out,
      follow f base more dirStart front link out = .ok (out.insertAll (tree.walked front)) := by
  rcases leads with ⟨missing, rfl⟩ | ⟨present, limit, walks⟩
  · refine ⟨1, fun more enough front plain out => ?_⟩
    obtain ⟨more, rfl⟩ := Nat.exists_eq_add_one_of_ne_zero (by omega : more ≠ 0)
    unfold follow
    split_ifs with other
    · exact walkTree_of_stops (.inl (missing.resolve_left other))
    · rfl
  · refine ⟨limit, fun more enough front plain out => ?_⟩
    rw [follow, if_pos fun zero => present (.inl zero)]
    exact walks more enough front plain out

/-- A directory all of whose directories have entries is walked in order. -/
theorem walks_of_populated {f : Bytes} {base : Nat} {tree : Tree} {dirStart entryOffset : Nat}
    {allowZero : Bool} (placed : Placed f base tree dirStart entryOffset)
    (populated : tree.Populated) (goes : ¬Stops entryOffset allowZero) :
    Walks f base tree dirStart entryOffset allowZero := by
  induction tree generalizing dirStart entryOffset allowZero with
  | none => exact placed.elim
  | node left item child right ihLeft ihChild ihRight =>
      obtain ⟨leftLink, smallLeft, rightLink, smallRight, record, ofLeft, ofRight, ofChild⟩ :=
        placed
      obtain ⟨leftFull, some, childFull, rightFull⟩ := populated
      obtain ⟨first, toLeft⟩ := exists_follow (ofLeft.imp_right fun leads =>
        ⟨leads.1, ihLeft leads.2 leftFull (not_stops_of_present leads.1)⟩)
      obtain ⟨last, toRight⟩ := exists_follow (ofRight.imp_right fun leads =>
        ⟨leads.1, ihRight leads.2 rightFull (not_stops_of_present leads.1)⟩)
      have below : ∃ limit, ∀ more, limit ≤ more → ∀ front, '\\' ∉ front → ∀ out,
          enterChild f base more front (item.entry item.name) out =
            .ok (out.insertAll (child.walked front)) := by
        unfold enterChild
        split_ifs at ofChild ⊢ with directory
        · exact ihChild (ofChild.resolve_left fun empty => some directory empty.1) childFull
            not_stops_first
        · subst ofChild
          exact ⟨0, fun more _ front _ out => rfl⟩
      obtain ⟨middle, toChild⟩ := below
      refine ⟨max first (max middle last) + 1, fun more enough front plain out => ?_⟩
      obtain ⟨more, rfl⟩ := Nat.exists_eq_add_one_of_ne_zero (by omega : more ≠ 0)
      have path := @fullPath_plain front item plain
      rw [walkTree_of_entry goes (readEntry_record smallLeft smallRight record)]
      simp only [Item.entry] at toChild ⊢
      rw [toLeft more (by omega) front plain, Except.bind, normalize_of_plain path,
        toChild more (by omega) _ path, Except.bind, toRight more (by omega) front plain]
      rw [Tree.walked, Index.insertAll_append, Index.insertAll_cons, Index.insertAll_append]
      rfl

/-! ## Directories without entries -/

/-- The character that stands for a byte that is not of ASCII. -/
def replacement : Char := Char.ofNat 0xFFFD

/-- The key of what is read of a directory without entries. -/
theorem replacement_mem (front : List Char) :
    replacement ∈ lower (normalize (fullPath front filler.path)) := by
  have inside : replacement ∈ filler.path := List.mem_replicate.mpr ⟨by decide, rfl⟩
  have path : replacement ∈ fullPath front filler.path := by
    unfold fullPath
    split_ifs
    · exact List.mem_append_right _ (List.mem_cons_of_mem _ inside)
    · exact inside
  have plain : replacement ∈ normalize (fullPath front filler.path) :=
    List.mem_map.mpr ⟨replacement, path, by decide⟩
  exact List.mem_map.mpr ⟨replacement, plain, by decide⟩

/-- An index with an entry that no file and no directory has. -/
def Strays (out : Index) : Prop := ∃ key, replacement ∈ key ∧ out key ≠ none

section

variable {f : Bytes} {base limit dirStart entryOffset link : Nat} {front path : List Char}
  {entry : Entry} {out after : Index} {allowZero : Bool}

theorem Strays.walk (strays : Strays out)
    (done : walkTree f base limit dirStart front entryOffset out allowZero = .ok after) :
    Strays after := by
  obtain ⟨key, stray, there⟩ := strays
  exact ⟨key, stray, walkTree_keeps done there⟩

theorem Strays.follow (strays : Strays out)
    (done : follow f base limit dirStart front link out = .ok after) : Strays after := by
  unfold Xdvdfs.follow at done
  split_ifs at done
  · exact strays.walk done
  · exact Except.ok.inj done ▸ strays

theorem Strays.enterChild (strays : Strays out)
    (done : enterChild f base limit front entry out = .ok after) : Strays after := by
  unfold Xdvdfs.enterChild at done
  split_ifs at done
  · exact strays.walk done
  · exact Except.ok.inj done ▸ strays

theorem Strays.add (strays : Strays out) : Strays (out.add path entry) := by
  obtain ⟨key, stray, there⟩ := strays
  exact ⟨key, stray, Index.add_keeps there⟩

/-- A directory without entries leaves one that is not there. -/
theorem strays_of_filled (filled : Filled f dirStart)
    (done : walkTree f base limit dirStart front 0 out true = .ok after) : Strays after := by
  cases limit with
  | zero => exact nomatch done
  | succ limit =>
      obtain ⟨before, -, middle, second, third⟩ :=
        exists_parts not_stops_first (readEntry_filled filled) done
      have added : Strays (before.add (normalize (fullPath front filler.path)) filler) :=
        ⟨_, replacement_mem front, by simp [Index.add, Index.insert]⟩
      exact (added.enterChild second).follow third

/-- What a link leads to, when it is not well read. -/
theorem strays_of_link {tree : Tree}
    (leads : (Missing link ∧ tree = .none) ∨ (¬Missing link ∧ Placed f base tree dirStart link))
    (unpopulated : ¬tree.Populated)
    (behind : Placed f base tree dirStart link → ¬Stops link false →
      ∀ {front out}, walkTree f base limit dirStart front link out false = .ok after → Strays after)
    (done : follow f base limit dirStart front link out = .ok after) : Strays after := by
  rcases leads with ⟨-, rfl⟩ | ⟨present, placed⟩
  · exact absurd trivial unpopulated
  · rw [Xdvdfs.follow, if_pos fun zero => present (.inl zero)] at done
    exact behind placed (not_stops_of_present present) done

/-- A tree with a directory without entries leaves an entry that is not there. -/
theorem strays_of_placed {tree : Tree} (placed : Placed f base tree dirStart entryOffset)
    (unpopulated : ¬tree.Populated) (goes : ¬Stops entryOffset allowZero)
    (done : walkTree f base limit dirStart front entryOffset out allowZero = .ok after) :
    Strays after := by
  induction tree generalizing limit dirStart entryOffset front out after allowZero with
  | none => exact placed.elim
  | node left item child right ihLeft ihChild ihRight =>
      obtain ⟨leftLink, smallLeft, rightLink, smallRight, record, ofLeft, ofRight, ofChild⟩ :=
        placed
      cases limit with
      | zero => exact nomatch done
      | succ limit =>
          obtain ⟨before, first, middle, second, third⟩ :=
            exists_parts goes (readEntry_record smallLeft smallRight record) done
          by_cases leftFull : left.Populated
          · by_cases rightFull : right.Populated
            · refine Strays.follow ?_ third
              unfold Xdvdfs.enterChild at second
              split_ifs at ofChild second with directory
              · rcases ofChild with ⟨rfl, filled⟩ | placed
                · exact strays_of_filled filled second
                · refine ihChild placed (fun full => unpopulated ?_) not_stops_first second
                  exact ⟨leftFull, fun _ none => (none ▸ placed : Placed f base .none _ _), full,
                    rightFull⟩
              · subst ofChild
                exact absurd ⟨leftFull, fun is => absurd is directory, trivial, rightFull⟩
                  unpopulated
            · exact strays_of_link ofRight rightFull
                (fun placed goes _ _ done => ihRight placed rightFull goes done) third
          · have early := strays_of_link ofLeft leftFull
              (fun placed goes _ _ done => ihLeft placed leftFull goes done) first
            exact ((early.add).enterChild second).follow third

end

/-! ## Keys -/

theorem toLower_ascii : ∀ n < 128, ((Char.ofNat n).toLower = '/' → n = 47) ∧
    (Char.ofNat n).toLower ≠ replacement := by
  decide +kernel

theorem slash_not_mem_lower (item : Item) : '/' ∉ lower item.name := by
  intro member
  obtain ⟨c, among, same⟩ := List.mem_map.mp member
  have plain := (toLower_ascii c.toNat (item.ascii c among)).1
  rw [Char.ofNat_toNat] at plain
  have slash : c = Char.ofNat 47 := by rw [← plain same, Char.ofNat_toNat]
  exact item.noSlash.1 (slash ▸ among)

theorem replacement_not_mem_lower (item : Item) : replacement ∉ lower item.name := by
  intro member
  obtain ⟨c, among, same⟩ := List.mem_map.mp member
  have plain := (toLower_ascii c.toNat (item.ascii c among)).2
  rw [Char.ofNat_toNat] at plain
  exact plain same

theorem lower_append (left right : List Char) : lower (left ++ right) = lower left ++ lower right :=
  List.map_append

/-- What the keys of the entries of a directory start with. -/
def keyFront : Option (List Char) → List Char
  | none => []
  | some path => lower path ++ ['/']

theorem lower_pathIn (directory : Option (List Char)) (name : List Char) :
    lower (pathIn directory name) = keyFront directory ++ lower name := by
  cases directory with
  | none => rfl
  | some path =>
      rw [pathIn, lower_append, keyFront, List.append_assoc]
      rfl

theorem keyFront_pathIn (directory : Option (List Char)) (name : List Char) :
    keyFront (some (pathIn directory name)) = keyFront directory ++ (lower name ++ ['/']) := by
  rw [keyFront, lower_pathIn, List.append_assoc]

/-- The keys of the entries below a directory. -/
theorem key_eq {tree : Tree} {directory : Option (List Char)} {key : List Char} {entry : Entry}
    (member : (key, entry) ∈ tree.entries directory) :
    ∃ item : Item, lower item.name ∈ tree.names ∧
      ∃ rest, key = keyFront directory ++ (lower item.name ++ rest) ∧
        rest.head? ∈ [none, some '/'] ∧ replacement ∉ rest := by
  induction tree generalizing directory with
  | none => exact absurd member List.not_mem_nil
  | node left item child right ihLeft ihChild ihRight =>
      rw [Tree.entries, List.mem_append, List.mem_cons, List.mem_append] at member
      rcases member with inLeft | itself | inChild | inRight
      · obtain ⟨other, named, rest⟩ := ihLeft inLeft
        exact ⟨other, List.mem_append_left _ named, rest⟩
      · obtain ⟨rfl, rfl⟩ := Prod.mk.injEq .. ▸ itself
        refine ⟨item, List.mem_append_right _ List.mem_cons_self, [], ?_, by simp, by simp⟩
        rw [lower_pathIn, List.append_nil]
      · obtain ⟨other, -, rest, rfl, -, plain⟩ := ihChild inChild
        refine ⟨item, List.mem_append_right _ List.mem_cons_self,
          '/' :: (lower other.name ++ rest), ?_, by simp, ?_⟩
        · rw [keyFront_pathIn]
          simp
        · have slash : replacement ≠ '/' := by decide
          simp [slash, replacement_not_mem_lower other, plain]
      · obtain ⟨other, named, rest⟩ := ihRight inRight
        exact ⟨other, List.mem_append_right _ (List.mem_cons_of_mem _ named), rest⟩

/-- The name of the entry of a directory that a key belongs to, or that it lies below. -/
def nameIn (directory : Option (List Char)) (key : List Char) : List Char :=
  (key.drop (keyFront directory).length).takeWhile (· ≠ '/')

theorem nameIn_eq (directory : Option (List Char)) (item : Item) {rest : List Char}
    (ends : rest.head? ∈ [none, some '/']) :
    nameIn directory (keyFront directory ++ (lower item.name ++ rest)) = lower item.name := by
  have name : ∀ c ∈ lower item.name, decide (c ≠ '/') = true := fun c member =>
    decide_eq_true fun same : c = '/' => slash_not_mem_lower item (same ▸ member)
  have stop : rest.takeWhile (· ≠ '/') = [] := by
    cases rest with
    | nil => rfl
    | cons c rest =>
        obtain rfl : c = '/' := by simpa using ends
        rfl
  rw [nameIn, List.drop_left, List.takeWhile_append_of_pos name, stop, List.append_nil]

theorem nameIn_mem {tree : Tree} {directory : Option (List Char)} {key : List Char}
    (member : key ∈ (tree.entries directory).map Prod.fst) : nameIn directory key ∈ tree.names := by
  obtain ⟨⟨key, entry⟩, among, rfl⟩ := List.mem_map.mp member
  obtain ⟨item, named, rest, same, ends, -⟩ := key_eq among
  simp only [same]
  rwa [nameIn_eq directory item ends]

/-- The keys below a directory lie below its own. -/
theorem child_key {child : Tree} {directory : Option (List Char)} {item : Item} {key : List Char}
    (member : key ∈ (child.entries (some (pathIn directory item.name))).map Prod.fst) :
    ∃ rest, key = keyFront directory ++ (lower item.name ++ '/' :: rest) := by
  obtain ⟨⟨key, entry⟩, among, rfl⟩ := List.mem_map.mp member
  obtain ⟨other, -, rest, rfl, -, -⟩ := key_eq among
  refine ⟨lower other.name ++ rest, ?_⟩
  rw [keyFront_pathIn]
  simp

/-- Different entries have different keys. -/
theorem keys_nodup {tree : Tree} (directory : Option (List Char)) (names : tree.names.Nodup)
    (distinct : tree.Distinct) : ((tree.entries directory).map Prod.fst).Nodup := by
  induction tree generalizing directory with
  | none => exact List.nodup_nil
  | node left item child right ihLeft ihChild ihRight =>
      obtain ⟨leftDistinct, ⟨childNames, childDistinct⟩, rightDistinct⟩ := distinct
      rw [Tree.names, List.nodup_append, List.nodup_cons] at names
      obtain ⟨leftNames, ⟨notRight, rightNames⟩, apart⟩ := names
      have self := @nameIn_eq directory item [] (by simp)
      rw [List.append_nil] at self
      have below : ∀ key ∈ (child.entries (some (pathIn directory item.name))).map Prod.fst,
          nameIn directory key = lower item.name := by
        intro key member
        obtain ⟨rest, rfl⟩ := child_key member
        exact nameIn_eq directory item (by simp)
      rw [Tree.entries, List.map_append, List.map_cons, List.map_append, List.nodup_append,
        List.nodup_cons, List.nodup_append]
      refine ⟨ihLeft directory leftNames leftDistinct, ⟨?_, ihChild _ childNames childDistinct,
        ihRight directory rightNames rightDistinct, ?_⟩, ?_⟩
      · rw [List.mem_append, lower_pathIn]
        rintro (inChild | inRight)
        · obtain ⟨rest, same⟩ := child_key inChild
          have lengths := congrArg List.length same
          simp at lengths
        · exact notRight (self ▸ nameIn_mem inRight)
      · intro key inChild other inRight same
        exact notRight (below key inChild ▸ same ▸ nameIn_mem inRight)
      · intro key inLeft other inRest same
        refine apart _ (nameIn_mem inLeft) _ ?_ (congrArg (nameIn directory) same)
        rcases List.mem_cons.mp inRest with rfl | inRest
        · rw [lower_pathIn, self]
          exact List.mem_cons_self
        · rcases List.mem_append.mp inRest with inChild | inRight
          · rw [below other inChild]
            exact List.mem_cons_self
          · exact List.mem_cons_of_mem _ (nameIn_mem inRight)

/-- What is put into an empty index under different keys is what is in it. -/
theorem insertAll_eq_some {entries : List (List Char × Entry)}
    (different : (entries.map Prod.fst).Nodup) (out : Index) (key : List Char) (entry : Entry) :
    out.insertAll entries key = some entry ↔
      (key, entry) ∈ entries ∨ (key ∉ entries.map Prod.fst ∧ out key = some entry) := by
  induction entries generalizing out with
  | nil => simp [Index.insertAll]
  | cons first entries ih =>
      obtain ⟨new, rest⟩ := List.nodup_cons.mp different
      rw [Index.insertAll_cons, ih rest]
      by_cases same : key = first.1
      · subst same
        have here : out.insert first.1 first.2 first.1 = some first.2 := if_pos rfl
        have absent : (first.1, entry) ∉ entries := fun member =>
          new (List.mem_map.mpr ⟨_, member, rfl⟩)
        rw [here]
        constructor
        · rintro (member | ⟨-, same⟩)
          · exact absurd member absent
          · exact .inl (List.mem_cons.mpr (.inl (Option.some.inj same ▸ rfl)))
        · rintro (member | ⟨other, -⟩)
          · rcases List.mem_cons.mp member with same | member
            · exact .inr ⟨new, congrArg some (congrArg Prod.snd same).symm⟩
            · exact absurd member absent
          · exact absurd List.mem_cons_self other
      · have there : out.insert first.1 first.2 key = out key := if_neg same
        have other : (key, entry) ≠ first := fun equal => same (congrArg Prod.fst equal)
        rw [there, List.mem_cons, List.map_cons, List.mem_cons]
        simp only [other, same, false_or]

/-! ## Paths -/

/-- No directory of the root whose name is empty has entries. -/
def Tree.Named : Tree → Prop
  | .none => True
  | .node left item child right => left.Named ∧ (item.name = [] → child = .none) ∧ right.Named

theorem walked_eq_entries (tree : Tree) {path : List Char} (nonempty : path ≠ []) :
    tree.walked path = tree.entries (some path) := by
  induction tree generalizing path with
  | none => rfl
  | node left item child right ihLeft ihChild ihRight =>
      have full : fullPath path item.name = pathIn (some path) item.name := if_pos nonempty
      have next : pathIn (some path) item.name ≠ [] :=
        List.append_ne_nil_of_right_ne_nil _ (List.cons_ne_nil _ _)
      rw [Tree.walked, Tree.entries, full, ihLeft nonempty, ihChild next, ihRight nonempty]

/-- Without empty names, the paths are those of the entries. -/
theorem walked_root {tree : Tree} (named : tree.Named) : tree.walked [] = tree.entries none := by
  induction tree with
  | none => rfl
  | node left item child right ihLeft _ ihRight =>
      obtain ⟨leftNamed, here, rightNamed⟩ := named
      have full : fullPath [] item.name = pathIn none item.name := if_neg (not_not.mpr rfl)
      have below : child.walked (pathIn none item.name) =
          child.entries (some (pathIn none item.name)) := by
        by_cases empty : item.name = []
        · rw [here empty]
          rfl
        · exact walked_eq_entries child empty
      rw [Tree.walked, Tree.entries, full, ihLeft leftNamed, below, ihRight rightNamed]

/-- An entry below a directory with an empty name has a path that starts with a slash. -/
theorem exists_slash {tree : Tree} (unnamed : ¬tree.Named) :
    ∃ key entry, (key, entry) ∈ tree.entries none ∧ key.head? = some '/' := by
  induction tree with
  | none => exact absurd trivial unnamed
  | node left item child right ihLeft _ ihRight =>
      by_cases leftNamed : left.Named
      · by_cases rightNamed : right.Named
        · have here : ¬(item.name = [] → child = .none) := fun here =>
            unnamed ⟨leftNamed, here, rightNamed⟩
          obtain ⟨empty, filled⟩ := Classical.not_imp.mp here
          cases child with
          | none => exact absurd rfl filled
          | node first below child last =>
              refine ⟨_, _, List.mem_append_right _ (List.mem_cons_of_mem _
                (List.mem_append_left _ (List.mem_append_right _ List.mem_cons_self))), ?_⟩
              rw [empty]
              rfl
        · obtain ⟨key, entry, member, slash⟩ := ihRight rightNamed
          exact ⟨key, entry, List.mem_append_right _ (List.mem_cons_of_mem _
            (List.mem_append_right _ member)), slash⟩
      · obtain ⟨key, entry, member, slash⟩ := ihLeft leftNamed
        exact ⟨key, entry, List.mem_append_left _ member, slash⟩

/-- Paths that do not start with a slash. -/
def Unslashed (path : List Char) : Prop := (lower path).head? ≠ some '/'

theorem unslashed_fullPath {front : List Char} (item : Item) (unslashed : Unslashed front) :
    Unslashed (fullPath front item.name) := by
  unfold Unslashed fullPath at *
  split_ifs with some
  · obtain ⟨c, rest, rfl⟩ := List.exists_cons_of_ne_nil some
    exact unslashed
  · intro slash
    exact slash_not_mem_lower item (List.mem_of_mem_head? slash)

/-- No path of the walk starts with a slash. -/
theorem unslashed_walked {tree : Tree} {front : List Char} (unslashed : Unslashed front)
    {key : List Char} {entry : Entry} (member : (key, entry) ∈ tree.walked front) :
    key.head? ≠ some '/' := by
  induction tree generalizing front with
  | none => exact absurd member List.not_mem_nil
  | node left item child right ihLeft ihChild ihRight =>
      rw [Tree.walked, List.mem_append, List.mem_cons, List.mem_append] at member
      rcases member with inLeft | itself | inChild | inRight
      · exact ihLeft unslashed inLeft
      · obtain ⟨rfl, rfl⟩ := Prod.mk.injEq .. ▸ itself
        exact unslashed_fullPath item unslashed
      · exact ihChild (unslashed_fullPath item unslashed) inChild
      · exact ihRight unslashed inRight

theorem exists_of_insertAll {entries : List (List Char × Entry)} {out : Index} {key : List Char}
    (there : out.insertAll entries key ≠ none) (absent : out key = none) :
    ∃ entry, (key, entry) ∈ entries := by
  induction entries generalizing out with
  | nil => exact absurd absent there
  | cons first entries ih =>
      by_cases same : key = first.1
      · exact ⟨first.2, same ▸ List.mem_cons_self⟩
      · obtain ⟨entry, member⟩ := @ih (out.insert first.1 first.2) there
          ((if_neg same).trans absent)
        exact ⟨entry, List.mem_cons_of_mem first member⟩

/-! ## The calls -/

/-- A call of `walk_tree` without what it puts into the index. -/
structure Call where
  dirStart : Nat
  entryOffset : Nat
  allowZero : Bool

/-- The calls that a call makes, one after the other. -/
def calls (f : Bytes) (base : Nat) (call : Call) : Except Failure (List Call) :=
  if Stops call.entryOffset call.allowZero then
    .ok []
  else
    match readEntry f call.dirStart call.entryOffset with
    | .error reason => .error reason
    | .ok (left, right, entry) =>
      .ok ((if left ≠ 0 then [⟨call.dirStart, left, false⟩] else []) ++
        ((if entry.IsDirectory then [⟨entry.childStart base, 0, true⟩] else []) ++
          if right ≠ 0 then [⟨call.dirStart, right, false⟩] else []))

theorem calls_of_entry {f : Bytes} {base dirStart entryOffset left right : Nat} {entry : Entry}
    {allowZero : Bool} (goes : ¬Stops entryOffset allowZero)
    (read : readEntry f dirStart entryOffset = .ok (left, right, entry)) :
    calls f base ⟨dirStart, entryOffset, allowZero⟩ =
      .ok ((if left ≠ 0 then [⟨dirStart, left, false⟩] else []) ++
        ((if entry.IsDirectory then [⟨entry.childStart base, 0, true⟩] else []) ++
          if right ≠ 0 then [⟨dirStart, right, false⟩] else [])) := by
  rw [calls, if_neg goes, read]

theorem forM_append {ι ε : Type} (f : ι → Except ε Unit) (left right : List ι) :
    (left ++ right).forM f = (left.forM f).bind fun _ => right.forM f := by
  induction left with
  | nil => rfl
  | cons i left ih =>
      rw [List.cons_append, List.forM, List.forM, ih]
      cases f i with
      | error reason => rfl
      | ok => rfl

theorem forM_singleton {ι ε : Type} (f : ι → Except ε Unit) (i : ι) : [i].forM f = f i := by
  rw [List.forM]
  cases f i with
  | error reason => rfl
  | ok => rfl

/-- The failures of one thing after another. -/
theorem map_bind {α β ε : Type} {first : Except ε α} {rest : α → Except ε β} {after : Except ε Unit}
    (each : ∀ result, (rest result).map (fun _ => ()) = after) :
    (first.bind rest).map (fun _ => ()) = (first.map fun _ => ()).bind fun _ => after := by
  cases first with
  | error reason => rfl
  | ok result => exact each result

/-- The walk fails as the descent through its calls does. -/
theorem map_walkTree {f : Bytes} {base limit dirStart entryOffset : Nat} {front : List Char}
    {out : Index} {allowZero : Bool} :
    (walkTree f base limit dirStart front entryOffset out allowZero).map (fun _ => ()) =
      Descent.descend (calls f base) limit ⟨dirStart, entryOffset, allowZero⟩ := by
  induction limit generalizing dirStart entryOffset front out allowZero with
  | zero => rfl
  | succ limit ih =>
      have follows : ∀ link front out,
          (follow f base limit dirStart front link out).map (fun _ => ()) =
            (if link ≠ 0 then [(⟨dirStart, link, false⟩ : Call)] else []).forM
              (Descent.descend (calls f base) limit) := by
        intro link front out
        unfold follow
        split_ifs
        · rw [ih, forM_singleton]
        · rfl
      have enters : ∀ (entry : Entry) front out,
          (enterChild f base limit front entry out).map (fun _ => ()) =
            (if entry.IsDirectory then [(⟨entry.childStart base, 0, true⟩ : Call)] else []).forM
              (Descent.descend (calls f base) limit) := by
        intro entry front out
        unfold enterChild
        split_ifs
        · rw [ih, forM_singleton]
        · rfl
      by_cases stops : Stops entryOffset allowZero
      · have here : calls f base ⟨dirStart, entryOffset, allowZero⟩ = .ok [] := if_pos stops
        rw [walkTree_of_stops stops, Descent.descend_of_ok here]
        rfl
      · cases read : readEntry f dirStart entryOffset with
        | error reason =>
            have here : calls f base ⟨dirStart, entryOffset, allowZero⟩ = .error reason := by
              rw [calls, if_neg stops, read]
            rw [Descent.descend_of_error here, walkTree, if_neg stops, read]
            rfl
        | ok result =>
            obtain ⟨left, right, entry⟩ := result
            -- what follows does not depend on the index
            have parts : ∀ before : Index,
                ((enterChild f base limit (normalize (fullPath front entry.path)) entry
                  (before.add (normalize (fullPath front entry.path)) entry)).bind
                    (follow f base limit dirStart front right)).map (fun _ => ()) = _ :=
              fun before => (map_bind (follows right front)).trans
                (congrArg (Except.bind · _) (enters entry _ _))
            rw [Descent.descend_of_ok (calls_of_entry stops read), walkTree_of_entry stops read,
              forM_append, forM_append, map_bind parts, follows]

theorem unpack_lt (data : Bytes) (start count : Nat) : unpack data start count < 256 ^ count := by
  refine Nat.lt_of_lt_of_le (Bytes.value_lt _) (Nat.pow_le_pow_right (by decide) ?_)
  rw [List.length_reverse]
  exact List.length_take_le _ _

/-- The sizes of what an entry leads to. -/
theorem bounds_of_readEntry {f : Bytes} {dirStart entryOffset left right : Nat} {entry : Entry}
    (read : readEntry f dirStart entryOffset = .ok (left, right, entry)) :
    left < 2 ^ 16 ∧ right < 2 ^ 16 ∧ entry.startSector < 2 ^ 32 := by
  simp only [readEntry] at read
  cases header : readAt f (dirStart + entryOffset * 4) 14 with
  | error reason => rw [header] at read; exact nomatch read
  | ok data =>
      rw [header] at read
      simp only [bind, Except.bind] at read
      cases name : readAt f (dirStart + entryOffset * 4 + 14) (unpack data 13 1) with
      | error reason => rw [name] at read; exact nomatch read
      | ok text =>
          rw [name] at read
          obtain ⟨rfl, rfl, rfl⟩ := by simpa [pure, Except.pure] using read
          exact ⟨unpack_lt data 0 2, unpack_lt data 2 2, unpack_lt data 4 4⟩

/-- The calls that a walk can make. -/
def within (base rootStart : Nat) : Set Call :=
  {call | call.dirStart ≤ max rootStart (base + 2 ^ 32 * SECTOR_SIZE) ∧ call.entryOffset < 2 ^ 16}

theorem finite_within (base rootStart : Nat) : (within base rootStart).Finite := by
  have bounded := (Set.finite_Iic (max rootStart (base + 2 ^ 32 * SECTOR_SIZE))).prod
    ((Set.finite_Iio (2 ^ 16)).prod (Set.finite_univ : (Set.univ : Set Bool).Finite))
  have fields : Set.InjOn (fun call : Call => (call.dirStart, call.entryOffset, call.allowZero))
      (within base rootStart) := by
    rintro ⟨start, offset, zero⟩ - ⟨_, _, _⟩ - same
    cases same
    rfl
  refine Set.Finite.of_injOn (fun call member => ?_) fields bounded
  exact ⟨member.1, member.2, trivial⟩

theorem closed_within {f : Bytes} {base rootStart : Nat} {call next : Call}
    (inside : call ∈ within base rootStart) (enters : Descent.Enters (calls f base) call next) :
    next ∈ within base rootStart := by
  obtain ⟨before, after, here, -⟩ := enters
  unfold calls at here
  split_ifs at here with stops
  · exact absurd (Except.ok.inj here) (by simp)
  · cases read : readEntry f call.dirStart call.entryOffset with
    | error reason => rw [read] at here; exact nomatch here
    | ok result =>
        obtain ⟨left, right, entry⟩ := result
        obtain ⟨leftSmall, rightSmall, sector⟩ := bounds_of_readEntry read
        rw [read] at here
        have member : next ∈ before ++ next :: after := by simp
        rw [← Except.ok.inj here, List.mem_append, List.mem_append] at member
        have single : ∀ {condition : Prop} [Decidable condition] {other : Call},
            next ∈ (if condition then [other] else []) → next = other := by
          intro condition _ other among
          split_ifs at among
          · exact List.mem_singleton.mp among
          · exact absurd among List.not_mem_nil
        rcases member with toLeft | toChild | toRight
        · rw [single toLeft]
          exact ⟨inside.1, leftSmall⟩
        · rw [single toChild]
          refine ⟨Nat.le_trans ?_ (Nat.le_max_right _ _), Nat.two_pow_pos 16⟩
          exact Nat.add_le_add_left (Nat.mul_le_mul_right _ (Nat.le_of_lt sector)) base
        · rw [single toRight]
          exact ⟨inside.1, rightSmall⟩

/-! ## The index -/

/-- The first call, for the root directory. -/
def rootCall (rootStart : Nat) : Call := ⟨rootStart, 0, true⟩

/-- The directories of an image have entries and names. -/
def Full (f : Bytes) (base rootStart : Nat) : Prop :=
  ∀ tree, WellFormed f base rootStart tree → tree ≠ .none ∧ tree.Populated ∧ tree.Named

/-- The links of an image lead no deeper than the limit, and its directories have entries and names.
A link counts when what the links before it lead to ends and is within the file. -/
structure Sound (limit : Nat) (f : Bytes) (base rootStart : Nat) : Prop where
  shallow : ∀ depth call, Descent.Nested (calls f base) (rootCall rootStart) depth call →
    depth < limit
  full : Full f base rootStart

/-- The links of an image end. -/
def Acyclic (f : Bytes) (base rootStart : Nat) : Prop :=
  ¬∃ call, Relation.ReflTransGen (Descent.Enters (calls f base)) (rootCall rootStart) call ∧
    Relation.TransGen (Descent.Enters (calls f base)) call call

/-- The walk exceeds its limit where the descent does. -/
theorem walkTree_limit_iff (f : Bytes) (base rootStart limit : Nat) :
    walkTree f base limit rootStart [] 0 (fun _ => none) true ≠ .error .limit ↔
      Descent.descend (calls f base) limit (rootCall rootStart) ≠ .error .limit := by
  have same := @map_walkTree f base limit rootStart 0 [] (fun _ => none) true
  rw [rootCall, ← same]
  cases walkTree f base limit rootStart [] 0 (fun _ => none) true with
  | error reason => simp [Except.map]
  | ok out => exact iff_of_true nofun nofun

/-- What the walk has as its result within a limit, it has within every limit that it keeps to. -/
theorem walkTree_of_ends {f : Bytes} {base rootStart limit enough : Nat} {index : Index}
    (ends : walkTree f base limit rootStart [] 0 (fun _ => none) true ≠ .error .limit)
    (done : walkTree f base enough rootStart [] 0 (fun _ => none) true = .ok index) :
    walkTree f base limit rootStart [] 0 (fun _ => none) true = .ok index := by
  rcases Nat.le_total enough limit with more | less
  · exact walkTree_mono more done
  · have shallow := (walkTree_limit_iff f base rootStart limit).mp ends
    have result := @map_walkTree f base enough rootStart 0 [] (fun _ => none) true
    rw [done, ← rootCall, Descent.descend_mono less shallow] at result
    cases walk : walkTree f base limit rootStart [] 0 (fun _ => none) true with
    | error reason =>
        have same := @map_walkTree f base limit rootStart 0 [] (fun _ => none) true
        rw [walk, ← rootCall, ← result] at same
        cases same
    | ok out =>
        rw [walkTree_mono less walk] at done
        exact done

/-- The walk ends within a limit when no call lies deeper. -/
theorem ends_iff (f : Bytes) (base rootStart limit : Nat) :
    walkTree f base limit rootStart [] 0 (fun _ => none) true ≠ .error .limit ↔
      ∀ depth call, Descent.Nested (calls f base) (rootCall rootStart) depth call →
        depth < limit :=
  (walkTree_limit_iff f base rootStart limit).trans Descent.ends_iff_nested

/-- The walk ends within some limit when no entry that it reaches leads back to itself. -/
theorem terminates_iff (f : Bytes) (base rootStart : Nat) :
    (∃ limit, walkTree f base limit rootStart [] 0 (fun _ => none) true ≠ .error .limit) ↔
      Acyclic f base rootStart := by
  have root : rootCall rootStart ∈ within base rootStart :=
    ⟨Nat.le_max_left _ _, Nat.two_pow_pos 16⟩
  rw [Acyclic, ← Descent.terminates_iff_of_finite (finite_within base rootStart) root
    fun call inside next => closed_within inside]
  exact exists_congr (walkTree_limit_iff f base rootStart)

theorem buildIndex_of_partition {limit : Nat} {f : Bytes} {base rootSector rootSize : Nat}
    (partition : detectPartition f = .ok (base, rootSector, rootSize)) :
    buildIndex limit f =
      (walkTree f base limit (base + rootSector * SECTOR_SIZE) [] 0 (fun _ => none) true).map
        fun entries => (base, rootSector, rootSize, entries) := by
  rw [buildIndex, partition]
  cases h : walkTree f base limit (base + rootSector * SECTOR_SIZE) [] 0 (fun _ => none) true with
  | error reason => simp only [h]; rfl
  | ok out => simp only [h]; rfl

/-- A well-formed image is indexed when all of its directories have entries and names. -/
theorem indexed_iff {f : Bytes} {base rootStart : Nat} {tree : Tree}
    (wellFormed : WellFormed f base rootStart tree) :
    (∃ limit index, walkTree f base limit rootStart [] 0 (fun _ => none) true = .ok index ∧
      ∀ key entry, index key = some entry ↔ (key, entry) ∈ tree.entries none) ↔
        tree ≠ .none ∧ tree.Populated ∧ tree.Named := by
  constructor
  · rintro ⟨limit, index, done, same⟩
    have populated : tree ≠ .none ∧ tree.Populated := by
      by_contra empty
      have strays : Strays index := by
        rcases wellFormed.table with ⟨rfl, filled⟩ | placed
        · exact strays_of_filled filled done
        · refine strays_of_placed placed (fun full => empty ⟨?_, full⟩) not_stops_first done
          rintro rfl
          exact placed
      obtain ⟨key, stray, there⟩ := strays
      obtain ⟨entry, value⟩ := Option.ne_none_iff_exists'.mp there
      obtain ⟨item, -, rest, rfl, -, plain⟩ := key_eq ((same key entry).mp value)
      rw [keyFront, List.nil_append, List.mem_append] at stray
      exact stray.elim (replacement_not_mem_lower item) plain
    refine ⟨populated.1, populated.2, ?_⟩
    by_contra unnamed
    obtain ⟨key, entry, member, slash⟩ := exists_slash unnamed
    have placed := wellFormed.table.resolve_left fun empty => populated.1 empty.1
    obtain ⟨enough, walks⟩ := walks_of_populated placed populated.2 not_stops_first
    have again := walks (max limit enough) (Nat.le_max_right _ _) [] List.not_mem_nil fun _ => none
    rw [walkTree_mono (Nat.le_max_left _ _) done] at again
    have there := (same key entry).mpr member
    rw [Except.ok.inj again] at there
    obtain ⟨other, walked⟩ := exists_of_insertAll (there ▸ Option.some_ne_none entry) rfl
    exact unslashed_walked (by simp [Unslashed, lower]) walked slash
  · rintro ⟨nonempty, populated, named⟩
    have placed := wellFormed.table.resolve_left fun empty => nonempty empty.1
    obtain ⟨limit, walks⟩ := walks_of_populated placed populated not_stops_first
    refine ⟨limit, _, walks limit (Nat.le_refl limit) [] List.not_mem_nil _, fun key entry => ?_⟩
    rw [walked_root named,
      insertAll_eq_some (keys_nodup none wellFormed.names wellFormed.distinct)]
    simp

/-- An image without a partition has no index. -/
theorem indexes_of_error {limit : Nat} {f : Bytes} {reason : Failure}
    (partition : detectPartition f = .error reason) : Indexes limit f where
  terminates := by
    rw [buildIndex, partition]
    exact nofun
  complete base rootSector rootSize tree found := by
    rw [partition] at found
    cases found

/-- An image with a partition. -/
theorem indexes_of_partition {limit : Nat} {f : Bytes} {base rootSector rootSize : Nat}
    (partition : detectPartition f = .ok (base, rootSector, rootSize)) :
    Indexes limit f ↔ Sound limit f base (base + rootSector * SECTOR_SIZE) := by
  have run := @buildIndex_of_partition limit f base rootSector rootSize partition
  have ends := ends_iff f base (base + rootSector * SECTOR_SIZE) limit
  constructor
  · rintro ⟨terminates, complete⟩
    refine ⟨ends.mp fun exceeded => terminates ?_, fun tree wellFormed => ?_⟩
    · rw [run, exceeded]
      rfl
    · obtain ⟨index, done, same⟩ := complete base rootSector rootSize tree partition wellFormed
      refine (indexed_iff wellFormed).mp ⟨limit, index, ?_, same⟩
      rw [run] at done
      cases walk : walkTree f base limit (base + rootSector * SECTOR_SIZE) [] 0 (fun _ => none)
          true with
      | error reason => rw [walk] at done; exact nomatch done
      | ok out =>
          rw [walk] at done
          obtain ⟨-, -, -, rfl⟩ := by simpa [Except.map] using done
          rfl
  · rintro ⟨shallow, full⟩
    have within := ends.mpr shallow
    constructor
    · rw [run]
      intro exceeded
      cases walk : walkTree f base limit (base + rootSector * SECTOR_SIZE) [] 0 (fun _ => none)
          true with
      | error reason =>
          rw [walk] at exceeded
          exact within (walk.trans (congrArg Except.error (Except.error.inj exceeded)))
      | ok out => rw [walk] at exceeded; exact nomatch exceeded
    · intro otherBase otherSector otherSize tree found wellFormed
      rw [partition] at found
      cases found
      obtain ⟨enough, index, done, same⟩ := (indexed_iff wellFormed).mpr (full tree wellFormed)
      exact ⟨index, by rw [run, walkTree_of_ends within done]; rfl, same⟩

/-- The index of an image is built as it should be within a limit if and only if, wherever its
partition is, no call lies deeper, and no directory of a well-formed root is without entries or has
entries under an empty path. There is such a limit if and only if, with that, no entry that is
reached leads back to itself. -/
theorem indexes_iff (f : Bytes) :
    (∀ limit, Indexes limit f ↔ ∀ base rootSector rootSize,
      detectPartition f = .ok (base, rootSector, rootSize) →
        Sound limit f base (base + rootSector * SECTOR_SIZE)) ∧
    ((∃ limit, Indexes limit f) ↔ ∀ base rootSector rootSize,
      detectPartition f = .ok (base, rootSector, rootSize) →
        Acyclic f base (base + rootSector * SECTOR_SIZE) ∧
          Full f base (base + rootSector * SECTOR_SIZE)) := by
  cases partition : detectPartition f with
  | error reason =>
      exact ⟨fun limit => iff_of_true (indexes_of_error partition) nofun,
        iff_of_true ⟨0, indexes_of_error partition⟩ nofun⟩
  | ok root =>
      obtain ⟨base, rootSector, rootSize⟩ := root
      have within := fun limit => @indexes_of_partition limit f base rootSector rootSize partition
      constructor
      · intro limit
        rw [within]
        constructor
        · rintro sound _ _ _ ⟨⟩
          exact sound
        · exact fun sound => sound base rootSector rootSize rfl
      · constructor
        · rintro ⟨limit, indexes⟩ _ _ _ ⟨⟩
          obtain ⟨shallow, full⟩ := (within limit).mp indexes
          exact ⟨(terminates_iff f base _).mp ⟨limit, (ends_iff f base _ limit).mpr shallow⟩, full⟩
        · intro sound
          obtain ⟨acyclic, full⟩ := sound base rootSector rootSize rfl
          obtain ⟨limit, ends⟩ := (terminates_iff f base _).mpr acyclic
          exact ⟨limit, (within limit).mpr ⟨(ends_iff f base _ limit).mp ends, full⟩⟩

/-- An image with a root directory without entries in sector 33. -/
def emptyRoot : Bytes :=
  Bytes.zeros HEADER_OFFSET ++ HEADER_MAGIC ++ [33, 0, 0, 0, 0, 8, 0, 0] ++ Bytes.zeros 2020 ++
    List.replicate SECTOR_SIZE 0xFF

theorem holds_append (front bytes back : Bytes) :
    Holds (front ++ bytes ++ back) front.length bytes := by
  rw [Holds, List.append_assoc, List.drop_left, List.take_left]

/-- The length of what is in front of the root directory. -/
theorem length_front : (Bytes.zeros HEADER_OFFSET ++ HEADER_MAGIC ++ [33, 0, 0, 0, 0, 8, 0, 0] ++
    Bytes.zeros 2020).length = HEADER_OFFSET + 20 + 8 + 2020 := by
  have parts : ∀ a b c d : Bytes,
      (a ++ b ++ c ++ d).length = a.length + b.length + c.length + d.length := by
    intro a b c d
    rw [List.length_append, List.length_append, List.length_append]
  have zeros : ∀ count, (Bytes.zeros count).length = count := fun _ => List.length_replicate
  have fields : ([33, 0, 0, 0, 0, 8, 0, 0] : Bytes).length = 8 := rfl
  rw [parts, zeros, zeros, length_header_magic, fields]

theorem detectPartition_emptyRoot : detectPartition emptyRoot = .ok (0, 33, 2048) := by
  have header : headerAt emptyRoot 0 = HEADER_MAGIC := by
    have holds := holds_append (Bytes.zeros HEADER_OFFSET) HEADER_MAGIC
      ([33, 0, 0, 0, 0, 8, 0, 0] ++ Bytes.zeros 2020 ++ List.replicate SECTOR_SIZE 0xFF)
    rw [Holds, List.length_replicate, ← List.append_assoc, ← List.append_assoc] at holds
    rw [headerAt, Nat.zero_add, emptyRoot]
    exact holds
  have fields : rootFields emptyRoot 0 = [33, 0, 0, 0, 0, 8, 0, 0] := by
    have holds := holds_append (Bytes.zeros HEADER_OFFSET ++ HEADER_MAGIC) [33, 0, 0, 0, 0, 8, 0, 0]
      (Bytes.zeros 2020 ++ List.replicate SECTOR_SIZE 0xFF)
    have place : (Bytes.zeros HEADER_OFFSET ++ HEADER_MAGIC).length =
        HEADER_OFFSET + HEADER_MAGIC.length := by
      simp only [List.length_append, List.length_replicate]
    have size : ([33, 0, 0, 0, 0, 8, 0, 0] : Bytes).length = 8 := rfl
    rw [Holds, place, size, ← List.append_assoc] at holds
    rw [rootFields, Nat.zero_add, emptyRoot]
    exact holds
  have length : emptyRoot.length = HEADER_OFFSET + 20 + 8 + 2020 + SECTOR_SIZE := by
    rw [emptyRoot, List.length_append, length_front, List.length_replicate]
  have starts : Starts emptyRoot 0 := ⟨header, by rw [length, length_header_magic]; omega⟩
  have sector : unpack [33, 0, 0, 0, 0, 8, 0, 0] 0 4 = 33 := by decide
  have size : unpack [33, 0, 0, 0, 0, 8, 0, 0] 4 4 = 2048 := by decide
  rw [detectPartition, PARTITION_OFFSETS, detectFrom_of_starts starts, fields, sector, size]

/-- The root directory has no entries, and an entry is read there, whatever the limit. -/
theorem not_indexes : ¬∃ limit, Indexes limit emptyRoot := by
  rintro ⟨limit, indexes⟩
  have sound := (indexes_of_partition detectPartition_emptyRoot).mp indexes
  have filled : Filled emptyRoot (0 + 33 * SECTOR_SIZE) := by
    have holds := holds_append (Bytes.zeros HEADER_OFFSET ++ HEADER_MAGIC ++
      [33, 0, 0, 0, 0, 8, 0, 0] ++ Bytes.zeros 2020) (List.replicate SECTOR_SIZE 0xFF) []
    have place : HEADER_OFFSET + 20 + 8 + 2020 = 0 + 33 * SECTOR_SIZE := by decide
    rw [length_front, place, List.append_nil] at holds
    rw [Filled, emptyRoot]
    exact holds
  exact (sound.full .none ⟨.inl ⟨rfl, filled⟩, List.nodup_nil, trivial⟩).1 rfl

end UfcRecomp.Xdvdfs
