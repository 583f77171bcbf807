import UfcRecomp.Xex.Patcher

/-!
# Memory accesses of a delta

`lzxDeltaApplyPatch` byte by byte: which bytes of the patch and of the destination a record touches,
and what is put into the window of the decoder. A run that touches a byte that it must not touch
ends with a fault. The decoder is a parameter; it reads and writes through the functions that
`xex_patcher.cpp` gives it.
-/

namespace UfcRecomp.Xex.Delta

open UfcRecomp.Lib

/-- What must not happen. -/
inductive Fault where
  /-- A byte is read that does not lie in front of the end of the patch. -/
  | patch
  /-- A byte is touched that does not lie in the destination. -/
  | destination
  /-- `memcpy` between ranges that overlap. -/
  | overlap
  /-- The data of the window are longer than the window. -/
  | window
  deriving DecidableEq

/-- What the decoder asks for through its `mspack_system`. -/
inductive Request where
  | read (chars : Nat)
  | write (buffer : Bytes)

/-- The decoder. -/
structure Lzxd where
  /-- Whether there is memory for a window of so many bits. -/
  allocates : Nat → Bool
  /-- `lzxd_decompress` with the bits and the contents of the window, the input and the number of
  bytes that are asked for: its result, and what it asks for on the way. -/
  decompress : (windowBits : Nat) → (window input : Bytes) → (outBytes : Nat) → Int × List Request

/-- All bytes of a range lie in a buffer of some length. -/
def Inside (start count length : Nat) : Prop := count = 0 ∨ start + count ≤ length

instance (start count length : Nat) : Decidable (Inside start count length) :=
  inferInstanceAs (Decidable (_ ∨ _))

/-! ## The run -/

/-- The lowest bit that is set. -/
def bitScanForward (v : Nat) : Option Nat := (List.range 32).find? fun i => v.testBit i

/-- `lzxd_init`: whether there is a stream for so many bits. -/
def Lzxd.init (lzxd : Lzxd) (windowBits : Nat) : Bool :=
  decide (15 ≤ windowBits ∧ windowBits ≤ 21) && lzxd.allocates windowBits

/-- The memory files of a decompression: where the input and the output start, how long they are
and how much of each is used. -/
structure Files where
  source : Nat
  sourceSize : Nat
  sourceOffset : Nat
  target : Nat
  targetSize : Nat
  targetOffset : Nat

/-- `mspack_memory_read` and `mspack_memory_write` for the requests of the decoder. -/
def serve (patchLength : Nat) : List Request → Files → Bytes → Except Fault Bytes
  | [], _, dst => .ok dst
  | .read chars :: rest, files, dst =>
    let total := min chars (files.sourceSize - files.sourceOffset)
    if Inside (files.source + files.sourceOffset) total patchLength then
      serve patchLength rest { files with sourceOffset := files.sourceOffset + total } dst
    else .error .patch
  | .write buffer :: rest, files, dst =>
    let total := min buffer.length (files.targetSize - files.targetOffset)
    if Inside (files.target + files.targetOffset) total dst.length then
      serve patchLength rest { files with targetOffset := files.targetOffset + total }
        (dst.overlay (files.target + files.targetOffset) (buffer.take total))
    else .error .destination

/-- The window after the preload. -/
def preload (windowSize : Nat) (windowData : Bytes) : Bytes :=
  Bytes.zeros (windowSize - windowData.length) ++ windowData

/-- `lzxDecompress` with window data from the destination. -/
def lzxDecompress (lzxd : Lzxd) (patch : Bytes) (lzxData lzxLength : Nat) (dst : Bytes)
    (dstStart dstLength windowSize windowStart windowDataLength : Nat) :
    Except Fault (Int × Bytes) :=
  match bitScanForward windowSize with
  | none => .ok (1, dst)
  | some windowBits =>
    if lzxd.init windowBits then
      if windowSize < windowDataLength then .error .window
      else if 2 ^ windowBits < windowSize then .error .window
      else if ¬Inside windowStart windowDataLength dst.length then .error .destination
      else
        let (result, requests) := lzxd.decompress windowBits
          (preload windowSize (dst.slice windowStart windowDataLength))
          (patch.slice lzxData lzxLength) dstLength
        match serve patch.length requests ⟨lzxData, lzxLength, 0, dstStart, dstLength, 0⟩ dst with
        | .error fault => .error fault
        | .ok dst => .ok (result, dst)
    else .ok (1, dst)

/-- The effect of a record, and the result when it has one. -/
def applyRecord (lzxd : Lzxd) (patch : Bytes) (windowSize curPatch : Nat) (record : Xex2DeltaPatch)
    (dst : Bytes) : Except Fault (Int × Bytes) :=
  match record.compressedLength with
  | 0 =>
    if Inside record.newAddress record.uncompressedLength dst.length then
      .ok (0, dst.overlay record.newAddress (Bytes.zeros record.uncompressedLength))
    else .error .destination
  | 1 =>
    if ¬(Inside record.newAddress record.uncompressedLength dst.length ∧
        Inside record.oldAddress record.uncompressedLength dst.length) then
      .error .destination
    else if ¬Bytes.Apart record.newAddress record.oldAddress record.uncompressedLength then
      .error .overlap
    else
      .ok (0, dst.overlay record.newAddress
        (dst.slice record.oldAddress record.uncompressedLength))
  | compressedLength =>
    lzxDecompress lzxd patch (curPatch + 12) compressedLength dst record.newAddress
      record.uncompressedLength windowSize record.oldAddress record.uncompressedLength

/-- `sizeof(Xex2DeltaPatch) + patchSize` -/
def stride (record : Xex2DeltaPatch) : Nat :=
  16 + (if record.compressedLength ≤ 1 then (-4 : Int) else record.compressedLength - 4) |>.toNat

theorem stride_pos (record : Xex2DeltaPatch) : 12 ≤ stride record := by
  unfold stride
  split_ifs <;> omega

/-- The record that ends the patch. -/
def endOfPatch : Xex2DeltaPatch := ⟨0, 0, 0, 0⟩

/-- `lzxDeltaApplyPatch` from a record on: its result and the destination after it. -/
def lzxDeltaApplyPatch (lzxd : Lzxd) (patch : Bytes) (windowSize curPatch : Nat) (dst : Bytes) :
    Except Fault (Int × Bytes) :=
  if patch.length ≤ curPatch then .ok (0, dst)
  else
    match deltaPatchAt patch curPatch with
    | none => .error .patch
    | some record =>
      if record = endOfPatch then .ok (0, dst)
      else
        match applyRecord lzxd patch windowSize curPatch record dst with
        | .error fault => .error fault
        | .ok (result, dst) =>
          if result ≠ 0 then .ok (result, dst)
          else lzxDeltaApplyPatch lzxd patch windowSize (curPatch + stride record) dst
termination_by patch.length - curPatch
decreasing_by
  have := stride_pos record
  omega

/-! ## The requests of the decoder -/

/-- The number of bytes that are asked for. -/
def asked : List Request → Nat
  | [] => 0
  | .read chars :: rest => chars + asked rest
  | .write _ :: rest => asked rest

/-- The number of bytes that are handed out. -/
def handed : List Request → Nat
  | [] => 0
  | .read _ :: rest => handed rest
  | .write buffer :: rest => buffer.length + handed rest

theorem length_overlay_take {dst buffer : Bytes} {start total : Nat} (le : total ≤ buffer.length)
    (inside : Inside start total dst.length) :
    (dst.overlay start (buffer.take total)).length = dst.length := by
  have size : (buffer.take total).length = total := by rw [List.length_take]; omega
  rcases inside with rfl | inside
  · rw [List.take_zero, Bytes.overlay]
    simp
  · exact Bytes.length_overlay (by omega)

/-- A request and those after it, with what is left of a file. -/
theorem inside_min_add {start used chars more size length : Nat} (room : used ≤ size) :
    Inside (start + used) (min (chars + more) (size - used)) length ↔
      Inside (start + used) (min chars (size - used)) length ∧
        Inside (start + (used + min chars (size - used)))
          (min more (size - (used + min chars (size - used)))) length := by
  unfold Inside
  omega

/-- The requests are served when all that is used of the input and of the output is there. -/
theorem serve_ok_iff {patchLength : Nat} {requests : List Request} {files : Files} {dst : Bytes}
    (input : files.sourceOffset ≤ files.sourceSize)
    (output : files.targetOffset ≤ files.targetSize) :
    (∃ after, serve patchLength requests files dst = .ok after) ↔
      Inside (files.source + files.sourceOffset)
          (min (asked requests) (files.sourceSize - files.sourceOffset)) patchLength ∧
        Inside (files.target + files.targetOffset)
          (min (handed requests) (files.targetSize - files.targetOffset)) dst.length := by
  induction requests generalizing files dst with
  | nil =>
      apply iff_of_true ⟨dst, rfl⟩
      simp [asked, handed, Inside]
  | cons request rest ih =>
      cases request with
      | read chars =>
          rw [serve, asked, handed, inside_min_add input]
          by_cases inside : Inside (files.source + files.sourceOffset)
              (min chars (files.sourceSize - files.sourceOffset)) patchLength
          · rw [if_pos inside, and_iff_right inside]
            exact @ih { files with
              sourceOffset :=
                files.sourceOffset + min chars (files.sourceSize - files.sourceOffset) }
              dst (by simp only; omega) output
          · rw [if_neg inside]
            exact iff_of_false nofun fun both => inside both.1.1
      | write buffer =>
          rw [serve, asked, handed, inside_min_add output]
          by_cases inside : Inside (files.target + files.targetOffset)
              (min buffer.length (files.targetSize - files.targetOffset)) dst.length
          · have size := length_overlay_take (Nat.min_le_left buffer.length _) inside
            rw [if_pos inside, and_iff_right inside]
            refine (@ih { files with
              targetOffset :=
                files.targetOffset + min buffer.length (files.targetSize - files.targetOffset) }
              _ input (by simp only; omega)).trans ?_
            rw [size]
          · rw [if_neg inside]
            exact iff_of_false nofun fun both => inside both.2.1

/-! ## Records that fit -/

section

variable (lzxd : Lzxd) (patch : Bytes) (windowSize curPatch : Nat) (record : Xex2DeltaPatch)
  (dst : Bytes)

/-- What the decoder asks for to decompress a record. -/
def requests (windowBits : Nat) : List Request :=
  (lzxd.decompress windowBits
    (preload windowSize (dst.slice record.oldAddress record.uncompressedLength))
    (patch.slice (curPatch + 12) record.compressedLength) record.uncompressedLength).2

/-- A compressed record that is decompressed with a window of so many bits. -/
structure Decompresses (windowBits : Nat) : Prop where
  window : record.uncompressedLength ≤ windowSize
  power : windowSize ≤ 2 ^ windowBits
  source : Inside record.oldAddress record.uncompressedLength dst.length
  input : Inside (curPatch + 12)
    (min (asked (requests lzxd patch windowSize curPatch record dst windowBits))
      record.compressedLength) patch.length
  output : Inside record.newAddress
    (min (handed (requests lzxd patch windowSize curPatch record dst windowBits))
      record.uncompressedLength) dst.length

/-- A record that touches only what it may touch. A compressed one without a window is rejected. -/
structure Fits : Prop where
  fill : record.compressedLength = 0 →
    Inside record.newAddress record.uncompressedLength dst.length
  copy : record.compressedLength = 1 →
    Inside record.newAddress record.uncompressedLength dst.length ∧
      Inside record.oldAddress record.uncompressedLength dst.length ∧
        Bytes.Apart record.newAddress record.oldAddress record.uncompressedLength
  compressed : 2 ≤ record.compressedLength → ∀ windowBits,
    bitScanForward windowSize = some windowBits → lzxd.init windowBits →
      Decompresses lzxd patch windowSize curPatch record dst windowBits

end

variable {lzxd : Lzxd} {patch : Bytes} {windowSize : Nat}

/-- A compressed record. -/
theorem lzxDecompress_ok_iff {curPatch : Nat} {record : Xex2DeltaPatch} {dst : Bytes} :
    (∃ result, lzxDecompress lzxd patch (curPatch + 12) record.compressedLength dst
      record.newAddress record.uncompressedLength windowSize record.oldAddress
        record.uncompressedLength = .ok result) ↔
      ∀ windowBits, bitScanForward windowSize = some windowBits → lzxd.init windowBits →
        Decompresses lzxd patch windowSize curPatch record dst windowBits := by
  unfold lzxDecompress
  cases scan : bitScanForward windowSize with
  | none => exact iff_of_true ⟨_, rfl⟩ nofun
  | some windowBits =>
      simp only [Option.some.injEq, forall_eq']
      by_cases opened : lzxd.init windowBits
      · rw [if_pos opened, forall_prop_of_true opened]
        by_cases window : windowSize < record.uncompressedLength
        · rw [if_pos window]
          exact iff_of_false nofun fun fits => absurd fits.window (Nat.not_le_of_lt window)
        rw [if_neg window]
        by_cases power : 2 ^ windowBits < windowSize
        · rw [if_pos power]
          exact iff_of_false nofun fun fits => absurd fits.power (Nat.not_le_of_lt power)
        rw [if_neg power]
        by_cases source : Inside record.oldAddress record.uncompressedLength dst.length
        · rw [if_neg (not_not.mpr source)]
          have served := @serve_ok_iff patch.length
            (requests lzxd patch windowSize curPatch record dst windowBits)
            ⟨curPatch + 12, record.compressedLength, 0, record.newAddress,
              record.uncompressedLength, 0⟩ dst (Nat.zero_le _) (Nat.zero_le _)
          simp only [Nat.add_zero, Nat.sub_zero] at served
          rw [← requests]
          constructor
          · rintro ⟨result, done⟩
            cases serving : serve patch.length
                (requests lzxd patch windowSize curPatch record dst windowBits)
                ⟨curPatch + 12, record.compressedLength, 0, record.newAddress,
                  record.uncompressedLength, 0⟩ dst with
            | error fault => rw [serving] at done; exact nomatch done
            | ok after =>
                obtain ⟨input, output⟩ := served.mp ⟨after, serving⟩
                exact ⟨Nat.le_of_not_lt window, Nat.le_of_not_lt power, source, input, output⟩
          · rintro ⟨-, -, -, input, output⟩
            obtain ⟨after, done⟩ := served.mpr ⟨input, output⟩
            exact ⟨_, by rw [done]⟩
        · rw [if_pos source]
          exact iff_of_false nofun fun fits => source fits.source
      · simp only [if_neg opened]
        exact iff_of_true ⟨_, rfl⟩ fun is => absurd is opened

/-- A record. -/
theorem applyRecord_ok_iff {curPatch : Nat} {record : Xex2DeltaPatch} {dst : Bytes} :
    (∃ result, applyRecord lzxd patch windowSize curPatch record dst = .ok result) ↔
      Fits lzxd patch windowSize curPatch record dst := by
  unfold applyRecord
  split
  next zero =>
    constructor
    · rintro ⟨result, done⟩
      split_ifs at done with inside
      exact ⟨fun _ => inside, fun one => by omega, fun some => by omega⟩
    · intro fits
      rw [if_pos (fits.fill zero)]
      exact ⟨_, rfl⟩
  next one =>
    constructor
    · rintro ⟨result, done⟩
      split_ifs at done with inside apart
      exact ⟨fun zero => by omega, fun _ => ⟨inside.1, inside.2, apart⟩,
        fun some => by omega⟩
    · intro fits
      obtain ⟨target, source, apart⟩ := fits.copy one
      rw [if_neg (not_not.mpr ⟨target, source⟩), if_neg (not_not.mpr apart)]
      exact ⟨_, rfl⟩
  next compressedLength notZero notOne =>
    rw [lzxDecompress_ok_iff]
    constructor
    · intro decompresses
      exact ⟨fun zero => absurd zero notZero, fun one => absurd one notOne, fun _ => decompresses⟩
    · intro fits
      have some : record.compressedLength ≠ 0 := notZero
      have several : record.compressedLength ≠ 1 := notOne
      exact fits.compressed (by omega)

/-! ## The records of a patch -/

/-- The loop comes to a place in the patch, with what the records in front of it have made of the
destination. None of them was rejected. -/
inductive Reached (lzxd : Lzxd) (patch : Bytes) (windowSize : Nat) (dst : Bytes) :
    Nat → Bytes → Prop
  | start : Reached lzxd patch windowSize dst 0 dst
  | next {curPatch : Nat} {before after : Bytes} {record : Xex2DeltaPatch}
      (reached : Reached lzxd patch windowSize dst curPatch before)
      (inside : curPatch < patch.length) (here : deltaPatchAt patch curPatch = some record)
      (more : record ≠ endOfPatch)
      (applied : applyRecord lzxd patch windowSize curPatch record before = .ok (0, after)) :
      Reached lzxd patch windowSize dst (curPatch + stride record) after

/-- The record at a place lies in front of the end of the patch and, when it is not the one that
ends it, fits. -/
def Sound (lzxd : Lzxd) (patch : Bytes) (windowSize curPatch : Nat) (dst : Bytes) : Prop :=
  curPatch + 12 ≤ patch.length ∧ ∀ record, deltaPatchAt patch curPatch = some record →
    record ≠ endOfPatch → Fits lzxd patch windowSize curPatch record dst

theorem exists_deltaPatchAt {curPatch : Nat} (inside : curPatch + 12 ≤ patch.length) :
    ∃ record, deltaPatchAt patch curPatch = some record := by
  rw [deltaPatchAt, Bytes.number_of_le (by omega), Bytes.number_of_le (by omega),
    Bytes.number_of_le (by omega), Bytes.number_of_le (by omega)]
  exact ⟨_, rfl⟩

theorem le_of_deltaPatchAt {curPatch : Nat} {record : Xex2DeltaPatch}
    (here : deltaPatchAt patch curPatch = some record) : curPatch + 12 ≤ patch.length := by
  by_contra short
  have outside : patch.number (curPatch + 10) 2 = none := by
    rw [Bytes.number, Bytes.read, if_neg (by omega)]
    rfl
  simp [deltaPatchAt, outside] at here

/-- What the loop does at a place. -/
theorem lzxDeltaApplyPatch_ok_iff {curPatch : Nat} {dst : Bytes} :
    (∃ result, lzxDeltaApplyPatch lzxd patch windowSize curPatch dst = .ok result) ↔
      (curPatch < patch.length → Sound lzxd patch windowSize curPatch dst ∧
        ∀ record after, deltaPatchAt patch curPatch = some record → record ≠ endOfPatch →
          applyRecord lzxd patch windowSize curPatch record dst = .ok (0, after) →
            ∃ result, lzxDeltaApplyPatch lzxd patch windowSize (curPatch + stride record) after =
              .ok result) := by
  rw [lzxDeltaApplyPatch]
  by_cases done : patch.length ≤ curPatch
  · rw [if_pos done]
    exact iff_of_true ⟨_, rfl⟩ fun less => absurd less (Nat.not_lt_of_le done)
  rw [if_neg done, forall_prop_of_true (Nat.lt_of_not_le done)]
  cases here : deltaPatchAt patch curPatch with
  | none =>
      apply iff_of_false nofun
      rintro ⟨⟨inside, -⟩, -⟩
      obtain ⟨record, there⟩ := exists_deltaPatchAt inside
      rw [here] at there
      exact nomatch there
  | some record =>
      have inside := le_of_deltaPatchAt here
      simp only [Sound, here, Option.some.injEq, forall_eq', inside, true_and]
      by_cases last : record = endOfPatch
      · rw [if_pos last]
        exact iff_of_true ⟨_, rfl⟩
          ⟨fun more => absurd last more, fun _ _ same more => absurd last (same ▸ more)⟩
      rw [if_neg last, forall_prop_of_true last, ← applyRecord_ok_iff]
      cases applied : applyRecord lzxd patch windowSize curPatch record dst with
      | error fault => exact iff_of_false nofun fun both => nomatch both.1
      | ok result =>
          obtain ⟨result, after⟩ := result
          simp only
          by_cases rejected : result ≠ 0
          · rw [if_pos rejected]
            refine iff_of_true ⟨_, rfl⟩ ⟨⟨_, rfl⟩, ?_⟩
            rintro _ other rfl - same
            rw [applied] at same
            exact absurd (congrArg Prod.fst (Except.ok.inj same)) rejected
          · obtain rfl := not_not.mp rejected
            rw [if_neg rejected]
            constructor
            · rintro ⟨result, rest⟩
              refine ⟨⟨_, rfl⟩, ?_⟩
              rintro _ other rfl - same
              rw [applied] at same
              obtain rfl : after = other := congrArg Prod.snd (Except.ok.inj same)
              exact ⟨result, rest⟩
            · exact fun both => both.2 record after rfl last applied

/-- The loop ends with a result, and nothing has happened that must not happen. -/
def Safe (lzxd : Lzxd) (patch : Bytes) (windowSize : Nat) (dst : Bytes) : Prop :=
  ∃ result, lzxDeltaApplyPatch lzxd patch windowSize 0 dst = .ok result

/-- A patch is safe if and only if every record that the loop comes to, up to one that is rejected,
touches only what it may touch. -/
theorem safe_iff (lzxd : Lzxd) (patch : Bytes) (windowSize : Nat) (dst : Bytes) :
    Safe lzxd patch windowSize dst ↔
      ∀ curPatch before, Reached lzxd patch windowSize dst curPatch before →
        curPatch < patch.length → Sound lzxd patch windowSize curPatch before := by
  constructor
  · intro first curPatch before reached
    have here : ∃ result,
        lzxDeltaApplyPatch lzxd patch windowSize curPatch before = .ok result := by
      induction reached with
      | start => exact first
      | next _ inside here more applied ih =>
          exact (lzxDeltaApplyPatch_ok_iff.mp ih inside).2 _ _ here more applied
    exact fun inside => (lzxDeltaApplyPatch_ok_iff.mp here inside).1
  · intro sound
    -- by the number of bytes that are left
    have all : ∀ left curPatch before, patch.length - curPatch ≤ left →
        Reached lzxd patch windowSize dst curPatch before →
          ∃ result, lzxDeltaApplyPatch lzxd patch windowSize curPatch before = .ok result := by
      intro left
      induction left with
      | zero =>
          intro curPatch before none _
          exact lzxDeltaApplyPatch_ok_iff.mpr fun inside => by omega
      | succ left ih =>
          intro curPatch before less reached
          refine lzxDeltaApplyPatch_ok_iff.mpr fun inside =>
            ⟨sound curPatch before reached inside, fun record after here more applied => ?_⟩
          have := stride_pos record
          exact ih _ _ (by omega) (reached.next inside here more applied)
    exact all _ 0 dst (Nat.le_refl _) .start

/-- A record that sets the byte behind a destination of sixteen bytes to zero. -/
theorem not_safe : ¬∀ (lzxd : Lzxd) (patch : Bytes) (windowSize : Nat) (dst : Bytes),
    Safe lzxd patch windowSize dst := by
  intro every
  have sound := (safe_iff ⟨fun _ => true, fun _ _ _ _ => (0, [])⟩
    [0, 0, 0, 0, 0, 0, 0, 16, 0, 1, 0, 0] 0x8000 (Bytes.zeros 16)).mp (every _ _ _ _) 0 _ .start
      (by decide)
  have record : deltaPatchAt [0, 0, 0, 0, 0, 0, 0, 16, 0, 1, 0, 0] 0 = some ⟨0, 16, 1, 0⟩ := by
    decide +kernel
  exact absurd ((sound.2 _ record (by decide)).fill rfl) (by decide)

/-! ## The steps of the patcher

`UfcRecomp.Xex.lzxDeltaApplyPatch` takes a record as one step, and the decompressed bytes from the
codec. Where the run over the bytes does not fault, it makes the same of the destination. -/

/-- The bytes that are handed out. -/
def written : List Request → Bytes
  | [] => []
  | .read _ :: rest => written rest
  | .write buffer :: rest => buffer ++ written rest

theorem length_written (requests : List Request) : (written requests).length = handed requests := by
  induction requests with
  | nil => rfl
  | cons request rest ih =>
      cases request with
      | read chars => exact ih
      | write buffer => rw [written, handed, List.length_append, ih]

/-- A codec that decompresses with a window as the decoder does. -/
structure Decodes (codec : Codec) (lzxd : Lzxd) (windowSize : Nat) : Prop where
  closed : (∀ windowBits, bitScanForward windowSize = some windowBits →
      lzxd.init windowBits = false) →
    ∀ data length window, codec.lzxDecompress data length windowSize (some window) = none
  opened : ∀ windowBits, bitScanForward windowSize = some windowBits → lzxd.init windowBits →
    ∀ data length window, window.length ≤ windowSize →
      codec.lzxDecompress data length windowSize (some window) =
        if (lzxd.decompress windowBits (preload windowSize window) data length).1 = 0 then
          some (written (lzxd.decompress windowBits (preload windowSize window) data length).2)
        else none

/-- The bytes that a record refers to and its new address lie in the destination, and its data in
the patch. -/
structure Contained (patch : Bytes) (curPatch : Nat) (record : Xex2DeltaPatch) (dst : Bytes) :
    Prop where
  source : 1 ≤ record.compressedLength →
    record.oldAddress + record.uncompressedLength ≤ dst.length
  target : record.newAddress ≤ dst.length
  data : 2 ≤ record.compressedLength → curPatch + 12 + record.compressedLength ≤ patch.length

/-- All that is handed out stands in the destination, one piece behind the other. -/
theorem serve_eq {patchLength : Nat} {requests : List Request} {files : Files} {dst after : Bytes}
    (room : files.targetOffset + handed requests ≤ files.targetSize)
    (inside : files.target + files.targetOffset + handed requests ≤ dst.length)
    (served : serve patchLength requests files dst = .ok after) :
    after = dst.overlay (files.target + files.targetOffset) (written requests) := by
  induction requests generalizing files dst with
  | nil =>
      cases served
      rw [written, Bytes.overlay_nil]
  | cons request rest ih =>
      cases request with
      | read chars =>
          rw [serve] at served
          split at served
          next =>
            exact @ih { files with
              sourceOffset :=
                files.sourceOffset + min chars (files.sourceSize - files.sourceOffset) }
              dst room inside served
          next => cases served
      | write buffer =>
          rw [handed] at room inside
          have all : min buffer.length (files.targetSize - files.targetOffset) = buffer.length := by
            omega
          rw [serve, all, List.take_length] at served
          split at served
          next =>
            have size := @Bytes.length_overlay dst buffer (files.target + files.targetOffset)
              (by omega)
            have behind := length_written rest
            have all := ih (by dsimp only; omega) (by dsimp only; omega) served
            rw [all, written, ← Nat.add_assoc, Bytes.overlay_behind (by omega)]
          next => cases served

section

variable {codec : Codec} {curPatch : Nat} {record : Xex2DeltaPatch} {dst after rest : Bytes}
  {result : Int}

theorem stride_eq (record : Xex2DeltaPatch) :
    stride record = 12 + if record.compressedLength ≤ 1 then 0 else record.compressedLength := by
  unfold stride
  split_ifs <;> omega

theorem deltaPatchAt_append (here : deltaPatchAt patch curPatch = some record) (rest : Bytes) :
    deltaPatchAt (patch ++ rest) curPatch = some record := by
  simp only [deltaPatchAt, Option.bind_eq_bind, Option.bind_eq_some_iff] at here ⊢
  obtain ⟨old, oldAt, new, newAt, size, sizeAt, count, countAt, same⟩ := here
  exact ⟨old, Bytes.number_append_of_some oldAt rest, new, Bytes.number_append_of_some newAt rest,
    size, Bytes.number_append_of_some sizeAt rest, count, Bytes.number_append_of_some countAt rest,
    same⟩

/-- A compressed record. -/
theorem lzxDecompress_agrees (decodes : Decodes codec lzxd windowSize)
    (contained : Contained patch curPatch record dst)
    (run : lzxDecompress lzxd patch (curPatch + 12) record.compressedLength dst record.newAddress
      record.uncompressedLength windowSize record.oldAddress record.uncompressedLength =
        .ok (result, after)) :
    (codec.lzxDecompress (patch.slice (curPatch + 12) record.compressedLength)
        record.uncompressedLength windowSize
        (some (dst.slice record.oldAddress record.uncompressedLength)) = none ∧ result ≠ 0) ∨
    ∃ bytes, codec.lzxDecompress (patch.slice (curPatch + 12) record.compressedLength)
        record.uncompressedLength windowSize
        (some (dst.slice record.oldAddress record.uncompressedLength)) = some bytes ∧
      result = 0 ∧ dst.write record.newAddress bytes = some after := by
  have targetIn := contained.target
  have fits := lzxDecompress_ok_iff.mp ⟨_, run⟩
  unfold lzxDecompress at run
  cases scan : bitScanForward windowSize with
  | none =>
      rw [scan] at run
      cases run
      exact .inl ⟨decodes.closed (by simp [scan]) _ _ _, by decide⟩
  | some windowBits =>
      by_cases opened : lzxd.init windowBits
      · obtain ⟨window, power, source, input, output⟩ := fits windowBits scan opened
        have windowed : (dst.slice record.oldAddress record.uncompressedLength).length ≤
            windowSize := by
          rw [Bytes.slice, List.length_take]
          omega
        have decoded := decodes.opened windowBits scan opened
          (patch.slice (curPatch + 12) record.compressedLength) record.uncompressedLength
          (dst.slice record.oldAddress record.uncompressedLength) windowed
        simp only [scan, opened, if_true, Nat.not_lt_of_le window, Nat.not_lt_of_le power,
          if_false, source, not_true] at run
        split at run
        next => cases run
        next served =>
          cases run
          split at decoded
          next zero =>
            refine .inr ⟨_, decoded, zero, ?_⟩
            have size := codec.length_lzxDecompress decoded
            have count : handed (requests lzxd patch windowSize curPatch record dst windowBits) =
                record.uncompressedLength := (length_written _).symm.trans size
            have room : record.newAddress + record.uncompressedLength ≤ dst.length := by
              unfold Inside at output
              omega
            have all := @serve_eq patch.length
              (requests lzxd patch windowSize curPatch record dst windowBits)
              ⟨curPatch + 12, record.compressedLength, 0, record.newAddress,
                record.uncompressedLength, 0⟩ dst _ (by dsimp only; omega) (by dsimp only; omega)
              served
            rw [all]
            exact if_pos (by omega)
          next failed => exact .inl ⟨decoded, failed⟩
      · simp only [scan, if_neg opened] at run
        cases run
        refine .inl ⟨decodes.closed (fun bits same => ?_) _ _ _, by decide⟩
        rw [scan] at same
        cases same
        simpa using opened

/-! The three kinds of records, in the run over the bytes and in the patcher's own. -/

theorem applyRecord_zero (zero : record.compressedLength = 0) :
    applyRecord lzxd patch windowSize curPatch record dst =
      if Inside record.newAddress record.uncompressedLength dst.length then
        .ok (0, dst.overlay record.newAddress (Bytes.zeros record.uncompressedLength))
      else .error .destination := by
  rw [applyRecord, zero]
  rfl

theorem applyRecord_one (one : record.compressedLength = 1) :
    applyRecord lzxd patch windowSize curPatch record dst =
      if ¬(Inside record.newAddress record.uncompressedLength dst.length ∧
          Inside record.oldAddress record.uncompressedLength dst.length) then
        .error .destination
      else if ¬Bytes.Apart record.newAddress record.oldAddress record.uncompressedLength then
        .error .overlap
      else
        .ok (0, dst.overlay record.newAddress
          (dst.slice record.oldAddress record.uncompressedLength)) := by
  rw [applyRecord, one]
  rfl

theorem applyRecord_several (several : 2 ≤ record.compressedLength) :
    applyRecord lzxd patch windowSize curPatch record dst =
      lzxDecompress lzxd patch (curPatch + 12) record.compressedLength dst record.newAddress
        record.uncompressedLength windowSize record.oldAddress record.uncompressedLength := by
  obtain ⟨more, isMore⟩ := Nat.exists_eq_add_of_le' several
  rw [applyRecord, isMore]
  rfl

theorem applyDeltaPatch_zero (codec : Codec) (bytes : Bytes)
    (zero : record.compressedLength = 0) :
    applyDeltaPatch codec bytes windowSize curPatch record dst =
      overwrite (dst.fill record.newAddress record.uncompressedLength) := by
  rw [applyDeltaPatch, zero]
  rfl

theorem applyDeltaPatch_one (codec : Codec) (bytes : Bytes) (one : record.compressedLength = 1)
    (apart : Bytes.Apart record.newAddress record.oldAddress record.uncompressedLength) :
    applyDeltaPatch codec bytes windowSize curPatch record dst =
      (access (dst.read record.oldAddress record.uncompressedLength)).bind fun data =>
        overwrite (dst.write record.newAddress data) := by
  rw [applyDeltaPatch, one]
  exact if_neg (not_not.mpr apart)

theorem applyDeltaPatch_several (codec : Codec) (bytes : Bytes)
    (several : 2 ≤ record.compressedLength) :
    applyDeltaPatch codec bytes windowSize curPatch record dst =
      (access (bytes.read (curPatch + 12) record.compressedLength)).bind fun data =>
        (access (dst.read record.oldAddress record.uncompressedLength)).bind fun window =>
          (codec.lzxDecompress data record.uncompressedLength windowSize (some window)).elim
            (.error (.returned .patchFailed)) fun bytes =>
              overwrite (dst.write record.newAddress bytes) := by
  obtain ⟨more, isMore⟩ := Nat.exists_eq_add_of_le' several
  rw [applyDeltaPatch, isMore]
  refine congrArg (Except.bind _) (funext fun data => ?_)
  refine congrArg (Except.bind _) (funext fun window => ?_)
  cases codec.lzxDecompress data record.uncompressedLength windowSize (some window) <;> rfl

/-- A record. -/
theorem applyRecord_agrees (decodes : Decodes codec lzxd windowSize)
    (contained : Contained patch curPatch record dst)
    (run : applyRecord lzxd patch windowSize curPatch record dst = .ok (result, after)) :
    applyDeltaPatch codec (patch ++ rest) windowSize curPatch record dst =
      if result = 0 then .ok after else .error (.returned .patchFailed) := by
  have targetIn := contained.target
  obtain zero | one | several : record.compressedLength = 0 ∨ record.compressedLength = 1 ∨
      2 ≤ record.compressedLength := by
    omega
  · rw [applyRecord_zero zero] at run
    split_ifs at run with inside
    cases run
    have room : record.newAddress + (Bytes.zeros record.uncompressedLength).length ≤
        dst.length := by
      rw [List.length_replicate]
      unfold Inside at inside
      omega
    rw [applyDeltaPatch_zero _ _ zero, Bytes.fill, Bytes.write, if_pos room, if_pos rfl]
    rfl
  · rw [applyRecord_one one] at run
    split_ifs at run with inside apart
    cases run
    obtain ⟨target, _⟩ := inside
    unfold Inside at target
    have read := Bytes.read_of_le (contained.source (Nat.le_of_eq one.symm))
    obtain ⟨_, size, _⟩ := Bytes.read_eq_some.mp read
    rw [applyDeltaPatch_one _ _ one apart, read, access_some, Except.bind,
      Bytes.write, if_pos (by omega), if_pos rfl]
    rfl
  · rw [applyRecord_several several] at run
    have data := Bytes.read_append_of_some (Bytes.read_of_le (contained.data several)) rest
    have window := Bytes.read_of_le (contained.source (by omega))
    rw [applyDeltaPatch_several _ _ several, data, access_some, Except.bind, window, access_some,
      Except.bind]
    rcases lzxDecompress_agrees decodes contained run with
      ⟨decoded, failed⟩ | ⟨bytes, decoded, rfl, written⟩
    · rw [decoded, if_neg failed]
      rfl
    · rw [decoded, if_pos rfl, Option.elim, written]
      rfl

end

/-- Where the run over the bytes of a patch does not fault, the patcher's own run makes the same of
the destination, when the codec decompresses as the decoder does and every record that the loop
comes to lies in the patch and the destination. -/
theorem lzxDeltaApplyPatch_agrees {codec : Codec} {dst after : Bytes} {result : Int}
    (decodes : Decodes codec lzxd windowSize)
    (contained : ∀ curPatch before record, Reached lzxd patch windowSize dst curPatch before →
      deltaPatchAt patch curPatch = some record → Contained patch curPatch record before)
    (run : lzxDeltaApplyPatch lzxd patch windowSize 0 dst = .ok (result, after)) (rest : Bytes) :
    Xex.lzxDeltaApplyPatch codec (patch ++ rest) patch.length windowSize 0 dst =
      if result = 0 then .ok after else .error (.returned .patchFailed) := by
  -- by the number of bytes that are left
  have all : ∀ left curPatch before, patch.length - curPatch ≤ left →
      Reached lzxd patch windowSize dst curPatch before →
      lzxDeltaApplyPatch lzxd patch windowSize curPatch before = .ok (result, after) →
      Xex.lzxDeltaApplyPatch codec (patch ++ rest) patch.length windowSize curPatch before =
        if result = 0 then .ok after else .error (.returned .patchFailed) := by
    intro left
    induction left with
    | zero =>
        intro curPatch before none _ run
        rw [lzxDeltaApplyPatch, if_pos (by omega)] at run
        cases run
        rw [Xex.lzxDeltaApplyPatch, if_pos (by omega), if_pos rfl]
    | succ left ih =>
        intro curPatch before less reached run
        rw [lzxDeltaApplyPatch] at run
        rw [Xex.lzxDeltaApplyPatch]
        split at run
        next done =>
          cases run
          rw [if_pos done, if_pos rfl]
        next more =>
        rw [if_neg more]
        cases here : deltaPatchAt patch curPatch with
        | none =>
            rw [here] at run
            cases run
        | some record =>
            rw [deltaPatchAt_append here rest]
            simp only [here] at run ⊢
            change (if record = endOfPatch then _ else _) = _
            split at run
            next last =>
              cases run
              rw [if_pos last, if_pos rfl]
            next goesOn =>
            rw [if_neg goesOn]
            cases applied : applyRecord lzxd patch windowSize curPatch record before with
            | error fault =>
                rw [applied] at run
                cases run
            | ok outcome =>
                obtain ⟨answer, between⟩ := outcome
                have step := @applyRecord_agrees lzxd patch windowSize codec curPatch record before
                  between rest answer decodes (contained _ _ _ reached here) applied
                rw [applied] at run
                simp only at run
                split at run
                next rejected =>
                  cases run
                  rw [step, if_neg rejected]
                next accepted =>
                  obtain rfl : answer = 0 := not_not.mp accepted
                  rw [step, if_pos rfl]
                  have := stride_pos record
                  have following := ih _ _ (by omega)
                    (reached.next (Nat.lt_of_not_le more) here goesOn applied) run
                  rw [stride_eq, ← Nat.add_assoc] at following
                  exact following
  exact all _ 0 dst (Nat.le_refl _) .start run

end UfcRecomp.Xex.Delta
