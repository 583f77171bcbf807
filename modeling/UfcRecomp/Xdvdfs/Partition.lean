import UfcRecomp.Lib.Bytes

/-!
# The partition of a disc image

`extract_xdvdfs_file.py` tries the places where the partition of a disc image may start, one after
the other. Reading a place that lies behind the end of the image raises an error of its own, and
then no other place is tried.
-/

namespace UfcRecomp.Xdvdfs

open UfcRecomp.Lib

def SECTOR_SIZE : Nat := 2048

/-- `b"MICROSOFT*XBOX*MEDIA"`. -/
def HEADER_MAGIC : Bytes :=
  [0x4D, 0x49, 0x43, 0x52, 0x4F, 0x53, 0x4F, 0x46, 0x54, 0x2A, 0x58, 0x42, 0x4F, 0x58, 0x2A, 0x4D,
    0x45, 0x44, 0x49, 0x41]

def HEADER_OFFSET : Nat := 0x10000

def GLOBAL_LSEEK_OFFSET : Nat := 0x0FD90000

def XGD3_LSEEK_OFFSET : Nat := 0x02080000

def XGD1_LSEEK_OFFSET : Nat := 0x18300000

def PARTITION_OFFSETS : List Nat :=
  [0, GLOBAL_LSEEK_OFFSET, XGD3_LSEEK_OFFSET, XGD1_LSEEK_OFFSET]

/-- The errors that are raised. -/
inductive Failure where
  /-- `EOFError(f"short read at 0x{offset:x}")`. -/
  | shortRead (offset : Nat)
  /-- `RuntimeError("XDVDFS header not found")`. -/
  | headerNotFound
  deriving DecidableEq

/-- `read_at`; what is read behind the end of a file is empty. -/
def readAt (f : Bytes) (offset size : Nat) : Except Failure Bytes :=
  let data := (f.drop offset).take size
  if data.length ≠ size then .error (.shortRead offset) else .ok data

/-- A number of `struct.unpack`, with its least significant byte first. -/
def unpack (data : Bytes) (start count : Nat) : Nat :=
  Bytes.value ((data.drop start).take count).reverse

/-- The loop of `detect_partition`. -/
def detectFrom (f : Bytes) : List Nat → Except Failure (Nat × Nat × Nat)
  | [] => .error .headerNotFound
  | base :: rest => do
    let header ← readAt f (base + HEADER_OFFSET) HEADER_MAGIC.length
    if header = HEADER_MAGIC then
      let fields ← readAt f (base + HEADER_OFFSET + HEADER_MAGIC.length) 8
      return (base, unpack fields 0 4, unpack fields 4 4)
    else detectFrom f rest

/-- `detect_partition`. -/
def detectPartition (f : Bytes) : Except Failure (Nat × Nat × Nat) :=
  detectFrom f PARTITION_OFFSETS

/-! ## Reads -/

theorem length_header_magic : HEADER_MAGIC.length = 20 := rfl

/-- A read succeeds within the file, and a read of something not behind its end. -/
theorem readAt_of_le {f : Bytes} {offset size : Nat} (inside : offset + size ≤ f.length) :
    readAt f offset size = .ok ((f.drop offset).take size) := by
  rw [readAt, if_neg]
  rw [not_not, List.length_take, List.length_drop]
  omega

theorem readAt_of_lt {f : Bytes} {offset size : Nat} (some : 0 < size)
    (outside : f.length < offset + size) : readAt f offset size = .error (.shortRead offset) := by
  rw [readAt, if_pos]
  rw [List.length_take, List.length_drop]
  omega

theorem ok_bind {α β : Type} (result : α) (rest : α → Except Failure β) :
    (Except.ok result >>= rest) = rest result := rfl

theorem error_bind {α β : Type} (failure : Failure) (rest : α → Except Failure β) :
    (Except.error failure >>= rest) = .error failure := rfl

/-! ## The first partition -/

/-- The string at the header of a partition. -/
def headerAt (f : Bytes) (base : Nat) : Bytes :=
  (f.drop (base + HEADER_OFFSET)).take HEADER_MAGIC.length

/-- A partition starts at a place: the magic string and the fields of the root are there. -/
def Starts (f : Bytes) (base : Nat) : Prop :=
  headerAt f base = HEADER_MAGIC ∧ base + HEADER_OFFSET + HEADER_MAGIC.length + 8 ≤ f.length

instance (f : Bytes) (base : Nat) : Decidable (Starts f base) :=
  inferInstanceAs (Decidable (_ ∧ _))

/-- The fields of the root, behind the magic string. -/
def rootFields (f : Bytes) (base : Nat) : Bytes :=
  (f.drop (base + HEADER_OFFSET + HEADER_MAGIC.length)).take 8

/-- What is to be answered: the first place where a partition starts, with its root. -/
def firstPartition (f : Bytes) (candidates : List Nat) : Except Failure (Nat × Nat × Nat) :=
  match candidates.find? fun base => Starts f base with
  | some base => .ok (base, unpack (rootFields f base) 0 4, unpack (rootFields f base) 4 4)
  | none => .error .headerNotFound

/-- A place that is passed over: its header is within the file, and is not the magic string. -/
def Passes (f : Bytes) (base : Nat) : Prop :=
  base + HEADER_OFFSET + HEADER_MAGIC.length ≤ f.length ∧ headerAt f base ≠ HEADER_MAGIC

variable {f : Bytes} {base : Nat} {rest : List Nat}

/-- The loop stops where a partition starts. -/
theorem detectFrom_of_starts (starts : Starts f base) :
    detectFrom f (base :: rest) =
      .ok (base, unpack (rootFields f base) 0 4, unpack (rootFields f base) 4 4) := by
  obtain ⟨magic, inside⟩ := starts
  have header : readAt f (base + HEADER_OFFSET) HEADER_MAGIC.length = .ok HEADER_MAGIC := by
    rw [readAt_of_le (by omega)]
    exact congrArg Except.ok magic
  have fields : readAt f (base + HEADER_OFFSET + HEADER_MAGIC.length) 8 =
      .ok (rootFields f base) := readAt_of_le inside
  rw [detectFrom, header, ok_bind, if_pos rfl, fields, ok_bind]
  rfl

/-- It goes on from a place that is passed over. -/
theorem detectFrom_of_passes (passes : Passes f base) :
    detectFrom f (base :: rest) = detectFrom f rest := by
  obtain ⟨inside, other⟩ := passes
  rw [detectFrom, readAt_of_le inside, ok_bind]
  exact if_neg other

/-- Everywhere else it ends with an error of the read. -/
theorem detectFrom_of_fails (starts : ¬Starts f base) (passes : ¬Passes f base) :
    ∃ offset, detectFrom f (base :: rest) = .error (.shortRead offset) := by
  by_cases inside : base + HEADER_OFFSET + HEADER_MAGIC.length ≤ f.length
  · have magic : headerAt f base = HEADER_MAGIC := by
      by_contra other
      exact passes ⟨inside, other⟩
    have header : readAt f (base + HEADER_OFFSET) HEADER_MAGIC.length = .ok HEADER_MAGIC := by
      rw [readAt_of_le inside]
      exact congrArg Except.ok magic
    have short : f.length < base + HEADER_OFFSET + HEADER_MAGIC.length + 8 := by
      by_contra enough
      exact starts ⟨magic, Nat.le_of_not_lt enough⟩
    refine ⟨base + HEADER_OFFSET + HEADER_MAGIC.length, ?_⟩
    rw [detectFrom, header, ok_bind, if_pos rfl, readAt_of_lt (by decide : 0 < 8) short, error_bind]
  · refine ⟨base + HEADER_OFFSET, ?_⟩
    rw [detectFrom, readAt_of_lt (by rw [length_header_magic]; decide) (by omega), error_bind]

/-- For any candidates, the loop answers with the first partition if and only if it passes over all
places before that one, or over all places when there is none. -/
theorem detectFrom_eq_iff (f : Bytes) (candidates : List Nat) :
    detectFrom f candidates = firstPartition f candidates ↔
      ∀ base ∈ candidates.takeWhile (fun base => ¬Starts f base), Passes f base := by
  induction candidates with
  | nil => exact iff_of_true rfl nofun
  | cons base rest ih =>
      by_cases starts : Starts f base
      · rw [List.takeWhile_cons_of_neg (by simpa using starts), detectFrom_of_starts starts,
          firstPartition, List.find?_cons_of_pos (by simpa using starts)]
        exact iff_of_true rfl nofun
      · have skipped : firstPartition f (base :: rest) = firstPartition f rest := by
          rw [firstPartition, List.find?_cons_of_neg (by simpa using starts), firstPartition]
        rw [List.takeWhile_cons_of_pos (by simpa using starts), List.forall_mem_cons, skipped, ← ih]
        by_cases passes : Passes f base
        · rw [detectFrom_of_passes passes]
          exact (and_iff_right passes).symm
        · obtain ⟨offset, failed⟩ := @detectFrom_of_fails f base rest starts passes
          rw [failed]
          apply iff_of_false
          · intro same
            rw [firstPartition] at same
            split at same <;> cases same
          · exact fun both => passes both.1

/-- The image is searched as it should be if and only if the places that come before the first
partition, or all of them when there is none, have a header within the file, and none of them the
magic string without the fields of the root behind it. -/
theorem detectPartition_iff (f : Bytes) :
    detectPartition f = firstPartition f PARTITION_OFFSETS ↔
      ∀ base ∈ PARTITION_OFFSETS.takeWhile (fun base => ¬Starts f base), Passes f base :=
  detectFrom_eq_iff f PARTITION_OFFSETS

/-- A file without a header that is shorter than the first place. -/
theorem not_detectPartition :
    ¬∀ f : Bytes, detectPartition f = firstPartition f PARTITION_OFFSETS := by
  intro every
  have short : detectPartition [] = .error (.shortRead HEADER_OFFSET) := by decide
  have none : firstPartition [] PARTITION_OFFSETS = .error .headerNotFound := by decide
  have same := every []
  rw [short, none] at same
  cases same

end UfcRecomp.Xdvdfs
