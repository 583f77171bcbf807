import UfcRecomp.Xex.Format

/-!
# Staging the header

Before the header's delta is applied, the patcher copies the base header into a buffer that is as
large as the larger of the two headers, and moves the range that the delta refers to. The copy is
as long as the target header, whatever the size of the base header is.
-/

namespace UfcRecomp.Xex

open UfcRecomp.Lib

variable (headerSize : BitVec 32) (descriptor : Xex2OptDeltaPatchDescriptor)

/-- The checks of the header ranges in `XexPatcher::apply`. -/
def checkHeaderRanges : Except (Stop Result) Unit := do
  if descriptor.deltaHeadersSourceOffset > headerSize then
    throw (.returned .patchIncompatible)
  if descriptor.deltaHeadersSourceSize > headerSize - descriptor.deltaHeadersSourceOffset then
    throw (.returned .patchIncompatible)
  if descriptor.deltaHeadersTargetOffset > descriptor.sizeOfTargetHeaders then
    throw (.returned .patchIncompatible)
  let deltaTargetSize := descriptor.sizeOfTargetHeaders - descriptor.deltaHeadersTargetOffset
  if descriptor.deltaHeadersSourceSize > deltaTargetSize then
    throw (.returned .patchIncompatible)

/-- `headerTargetSize`. -/
def headerTargetSize : BitVec 32 :=
  if descriptor.sizeOfTargetHeaders = 0 then
    descriptor.deltaHeadersTargetOffset + descriptor.deltaHeadersSourceSize
  else descriptor.sizeOfTargetHeaders

/-- `newXexHeaderSize`. -/
def newXexHeaderSize : BitVec 32 :=
  if headerTargetSize descriptor < headerSize then headerSize else headerTargetSize descriptor

/-- The buffer that the header's delta is applied to. -/
def stageHeader (xexBytes : Bytes) : Except (Stop Result) Bytes := do
  let outBytes := Bytes.zeros (newXexHeaderSize headerSize descriptor).toNat
  let header ← access (xexBytes.read 0 (headerTargetSize descriptor).toNat)
  let outBytes ← access (outBytes.write 0 header)
  if descriptor.deltaHeadersSourceOffset > 0 then
    access (outBytes.copyWithin descriptor.deltaHeadersTargetOffset.toNat
      descriptor.deltaHeadersSourceOffset.toNat descriptor.deltaHeadersSourceSize.toNat)
  else return outBytes

/-! ## What the checks promise -/

variable {headerSize descriptor} {xexBytes : Bytes}

/-- Both ranges lie in their headers. -/
structure InRange (headerSize : BitVec 32) (descriptor : Xex2OptDeltaPatchDescriptor) : Prop where
  source : descriptor.deltaHeadersSourceOffset.toNat + descriptor.deltaHeadersSourceSize.toNat ≤
    headerSize.toNat
  target : descriptor.deltaHeadersTargetOffset.toNat + descriptor.deltaHeadersSourceSize.toNat ≤
    (headerTargetSize descriptor).toNat

theorem inRange_of_check (checked : checkHeaderRanges headerSize descriptor = .ok ()) :
    InRange headerSize descriptor := by
  simp only [checkHeaderRanges, throwIf_bind_eq_ok, throwIf_eq_ok] at checked
  obtain ⟨sourceOffset, sourceSize, targetOffset, targetSize⟩ := checked
  constructor
  · bv_omega
  · rw [headerTargetSize]
    split
    next zero => bv_omega
    next => bv_omega

/-- The buffer has room for both headers. -/
theorem newXexHeaderSize_eq : (newXexHeaderSize headerSize descriptor).toNat =
    max headerSize.toNat (headerTargetSize descriptor).toNat := by
  rw [newXexHeaderSize]
  split
  next smaller => bv_omega
  next larger => bv_omega

/-! ## The staged bytes -/

/-- The buffer before a range is moved: a part of the file and zeros. -/
def copied (headerSize : BitVec 32) (descriptor : Xex2OptDeltaPatchDescriptor) (xexBytes : Bytes) :
    Bytes :=
  (Bytes.zeros (newXexHeaderSize headerSize descriptor).toNat).overlay 0
    (xexBytes.take (headerTargetSize descriptor).toNat)

theorem getElem?_copied (readable : (headerTargetSize descriptor).toNat ≤ xexBytes.length)
    (position : Nat) : (copied headerSize descriptor xexBytes)[position]? =
      if position < (headerTargetSize descriptor).toNat then xexBytes[position]?
      else if position < headerSize.toNat then some 0 else none := by
  have sizes := @newXexHeaderSize_eq headerSize descriptor
  have taken : (xexBytes.take (headerTargetSize descriptor).toNat).length =
      (headerTargetSize descriptor).toNat := by simp; omega
  rw [copied, Bytes.getElem?_overlay (by simp; omega), taken]
  by_cases inHeader : position < (headerTargetSize descriptor).toNat
  · rw [if_pos (by omega), if_pos inHeader, Nat.sub_zero, List.getElem?_take_of_lt inHeader]
  · rw [if_neg (by omega), if_neg inHeader]
    by_cases inBase : position < headerSize.toNat
    · rw [if_pos inBase]
      exact List.getElem?_replicate_of_lt (by omega)
    · rw [if_neg inBase]
      exact List.getElem?_eq_none (by simp; omega)

/-- The buffer that the delta is applied to, when both copies are possible. -/
def staged (headerSize : BitVec 32) (descriptor : Xex2OptDeltaPatchDescriptor) (xexBytes : Bytes) :
    Bytes :=
  let outBytes := copied headerSize descriptor xexBytes
  if descriptor.deltaHeadersSourceOffset > 0 then
    outBytes.overlay descriptor.deltaHeadersTargetOffset.toNat
      ((outBytes.drop descriptor.deltaHeadersSourceOffset.toNat).take
        descriptor.deltaHeadersSourceSize.toNat)
  else outBytes

theorem length_copied : (copied headerSize descriptor xexBytes).length =
    max headerSize.toNat (headerTargetSize descriptor).toNat := by
  have sizes := @newXexHeaderSize_eq headerSize descriptor
  rw [copied, Bytes.length_overlay (by simp; omega), List.length_replicate, sizes]

/-- The range that the delta refers to can be copied: a range that is copied at all does not overlap
the one that it goes to. -/
def Copyable (descriptor : Xex2OptDeltaPatchDescriptor) : Prop :=
  0 < descriptor.deltaHeadersSourceOffset.toNat →
    Bytes.Apart descriptor.deltaHeadersTargetOffset.toNat
      descriptor.deltaHeadersSourceOffset.toNat descriptor.deltaHeadersSourceSize.toNat

instance (descriptor : Xex2OptDeltaPatchDescriptor) : Decidable (Copyable descriptor) :=
  inferInstanceAs (Decidable (_ → _))

/-- The copy out of the file can leave the file, and the one inside the buffer can overlap. -/
theorem stageHeader_eq (inRange : InRange headerSize descriptor) :
    stageHeader headerSize descriptor xexBytes =
      if (headerTargetSize descriptor).toNat ≤ xexBytes.length ∧ Copyable descriptor then
        .ok (staged headerSize descriptor xexBytes)
      else .error .outside := by
  have sizes := @newXexHeaderSize_eq headerSize descriptor
  by_cases readable : (headerTargetSize descriptor).toNat ≤ xexBytes.length
  · have length := @length_copied headerSize descriptor xexBytes
    obtain ⟨source, target⟩ := inRange
    have header : xexBytes.read 0 (headerTargetSize descriptor).toNat =
        some (xexBytes.take (headerTargetSize descriptor).toNat) := by
      rw [Bytes.read, if_pos (by omega), List.drop_zero]
    have written : (Bytes.zeros (newXexHeaderSize headerSize descriptor).toNat).write 0
        (xexBytes.take (headerTargetSize descriptor).toNat) =
        some (copied headerSize descriptor xexBytes) := by
      rw [Bytes.write, if_pos (by simp; omega), copied]
    have moved : (copied headerSize descriptor xexBytes).move
        descriptor.deltaHeadersTargetOffset.toNat descriptor.deltaHeadersSourceOffset.toNat
        descriptor.deltaHeadersSourceSize.toNat =
        some ((copied headerSize descriptor xexBytes).overlay
          descriptor.deltaHeadersTargetOffset.toNat
          (((copied headerSize descriptor xexBytes).drop
            descriptor.deltaHeadersSourceOffset.toNat).take
              descriptor.deltaHeadersSourceSize.toNat)) := by
      rw [Bytes.move, Bytes.read, if_pos (by omega), Option.bind_some, Bytes.write, if_pos]
      simp
      omega
    rw [stageHeader, staged]
    simp only [header, written, access_some, bind, Except.bind, Bytes.copyWithin, moved]
    by_cases moves : descriptor.deltaHeadersSourceOffset > 0
    · have positive : 0 < descriptor.deltaHeadersSourceOffset.toNat := by bv_omega
      by_cases apart : Bytes.Apart descriptor.deltaHeadersTargetOffset.toNat
          descriptor.deltaHeadersSourceOffset.toNat descriptor.deltaHeadersSourceSize.toNat
      · have copyable : Copyable descriptor := fun _ => apart
        rw [if_pos moves, if_pos moves, if_pos apart, if_pos ⟨readable, copyable⟩]
        rfl
      · have notCopyable : ¬Copyable descriptor := fun copyable => apart (copyable positive)
        rw [if_pos moves, if_neg apart, if_neg fun both => notCopyable both.2]
        rfl
    · have copyable : Copyable descriptor := fun positive => absurd positive (by bv_omega)
      rw [if_neg moves, if_neg moves, if_pos ⟨readable, copyable⟩]
      rfl
  · have header : xexBytes.read 0 (headerTargetSize descriptor).toNat = none := by
      rw [Bytes.read, if_neg (by omega)]
    rw [if_neg fun both => readable both.1, stageHeader, header]
    rfl

/-- The bytes of the staged buffer. -/
theorem getElem?_staged (inRange : InRange headerSize descriptor) (position : Nat) :
    (staged headerSize descriptor xexBytes)[position]? =
      if 0 < descriptor.deltaHeadersSourceOffset.toNat ∧
          descriptor.deltaHeadersTargetOffset.toNat ≤ position ∧
          position < descriptor.deltaHeadersTargetOffset.toNat +
            descriptor.deltaHeadersSourceSize.toNat then
        (copied headerSize descriptor xexBytes)[descriptor.deltaHeadersSourceOffset.toNat +
          (position - descriptor.deltaHeadersTargetOffset.toNat)]?
      else (copied headerSize descriptor xexBytes)[position]? := by
  have length := @length_copied headerSize descriptor xexBytes
  obtain ⟨source, target⟩ := inRange
  by_cases moves : descriptor.deltaHeadersSourceOffset > 0
  · have positive : 0 < descriptor.deltaHeadersSourceOffset.toNat := by bv_omega
    have count : (((copied headerSize descriptor xexBytes).drop
        descriptor.deltaHeadersSourceOffset.toNat).take
          descriptor.deltaHeadersSourceSize.toNat).length =
        descriptor.deltaHeadersSourceSize.toNat := by
      simp
      omega
    rw [staged, if_pos moves, Bytes.getElem?_overlay (by omega), count]
    by_cases inside : descriptor.deltaHeadersTargetOffset.toNat ≤ position ∧
        position < descriptor.deltaHeadersTargetOffset.toNat +
          descriptor.deltaHeadersSourceSize.toNat
    · rw [if_pos inside, if_pos ⟨positive, inside⟩, List.getElem?_take_of_lt (by omega),
        List.getElem?_drop]
    · rw [if_neg inside, if_neg (fun all => inside all.2)]
  · have zero : ¬ 0 < descriptor.deltaHeadersSourceOffset.toNat := by bv_omega
    rw [staged, if_neg moves, if_neg (fun all => zero all.1)]

/-! ## What the delta needs -/

/-- The buffer is as the header's delta needs it: the target range holds the source range of the
base header, and no byte behind the base header has an influence on the buffer. -/
structure HeaderStaged (headerSize : BitVec 32) (descriptor : Xex2OptDeltaPatchDescriptor)
    (xexBytes buffer : Bytes) : Prop where
  source : ∃ bytes,
    xexBytes.read descriptor.deltaHeadersSourceOffset.toNat
      descriptor.deltaHeadersSourceSize.toNat = some bytes ∧
    buffer.read descriptor.deltaHeadersTargetOffset.toNat
      descriptor.deltaHeadersSourceSize.toNat = some bytes
  baseOnly : ∀ other : Bytes, other.length = xexBytes.length →
    (∀ position < headerSize.toNat, other[position]? = xexBytes[position]?) →
    stageHeader headerSize descriptor other = .ok buffer

/-- When the staging is right: the target header is not longer than the file, the range that is
copied inside the buffer does not overlap its target, what is not copied of the source range is
zero, and everything that is copied from behind the base header is overwritten. -/
structure StagesHeader (headerSize : BitVec 32) (descriptor : Xex2OptDeltaPatchDescriptor)
    (xexBytes : Bytes) : Prop where
  readable : (headerTargetSize descriptor).toNat ≤ xexBytes.length
  present : descriptor.deltaHeadersSourceOffset.toNat + descriptor.deltaHeadersSourceSize.toNat ≤
    xexBytes.length
  copyable : Copyable descriptor
  moved : 0 < descriptor.deltaHeadersSourceOffset.toNat →
    ∀ k < descriptor.deltaHeadersSourceSize.toNat,
      (headerTargetSize descriptor).toNat ≤ descriptor.deltaHeadersSourceOffset.toNat + k →
        xexBytes[descriptor.deltaHeadersSourceOffset.toNat + k]? = some 0
  unmoved : descriptor.deltaHeadersSourceOffset.toNat = 0 →
    ∀ k < descriptor.deltaHeadersSourceSize.toNat,
      xexBytes[descriptor.deltaHeadersTargetOffset.toNat + k]? = xexBytes[k]?
  own : (headerTargetSize descriptor).toNat ≤ headerSize.toNat ∨
    0 < descriptor.deltaHeadersSourceOffset.toNat ∧
      descriptor.deltaHeadersTargetOffset.toNat ≤ headerSize.toNat ∧
      (headerTargetSize descriptor).toNat ≤
        descriptor.deltaHeadersTargetOffset.toNat + descriptor.deltaHeadersSourceSize.toNat

/-- The target range holds the source range exactly when the copy did not cut it off. -/
theorem source_iff (inRange : InRange headerSize descriptor)
    (present : descriptor.deltaHeadersSourceOffset.toNat +
      descriptor.deltaHeadersSourceSize.toNat ≤ xexBytes.length) :
    (∃ bytes, xexBytes.read descriptor.deltaHeadersSourceOffset.toNat
        descriptor.deltaHeadersSourceSize.toNat = some bytes ∧
      (staged headerSize descriptor xexBytes).read descriptor.deltaHeadersTargetOffset.toNat
        descriptor.deltaHeadersSourceSize.toNat = some bytes) ↔
    ∀ k < descriptor.deltaHeadersSourceSize.toNat,
      xexBytes[descriptor.deltaHeadersSourceOffset.toNat + k]? =
        (staged headerSize descriptor xexBytes)[descriptor.deltaHeadersTargetOffset.toNat + k]? := by
  constructor
  · rintro ⟨bytes, base, target⟩ k inside
    obtain ⟨_, _, sameBase⟩ := Bytes.read_eq_some.mp base
    obtain ⟨_, _, sameTarget⟩ := Bytes.read_eq_some.mp target
    exact (sameBase k inside).symm.trans (sameTarget k inside)
  · intro same
    have length := @length_copied headerSize descriptor xexBytes
    have room : descriptor.deltaHeadersTargetOffset.toNat +
        descriptor.deltaHeadersSourceSize.toNat ≤
          (staged headerSize descriptor xexBytes).length := by
      obtain ⟨source, target⟩ := inRange
      rw [staged]
      split
      · rw [Bytes.length_overlay (by simp; omega)]
        omega
      · omega
    have base : xexBytes.read descriptor.deltaHeadersSourceOffset.toNat
        descriptor.deltaHeadersSourceSize.toNat =
        some ((xexBytes.drop descriptor.deltaHeadersSourceOffset.toNat).take
          descriptor.deltaHeadersSourceSize.toNat) := by
      rw [Bytes.read, if_pos present]
    obtain ⟨_, size, bytes⟩ := Bytes.read_eq_some.mp base
    refine ⟨_, base, Bytes.read_eq_some.mpr ⟨room, size, fun k inside => ?_⟩⟩
    rw [bytes k inside, same k inside]

/-- The bytes of the target range. -/
theorem getElem?_target (inRange : InRange headerSize descriptor)
    (readable : (headerTargetSize descriptor).toNat ≤ xexBytes.length) {k : Nat}
    (inside : k < descriptor.deltaHeadersSourceSize.toNat) :
    (staged headerSize descriptor xexBytes)[descriptor.deltaHeadersTargetOffset.toNat + k]? =
      if 0 < descriptor.deltaHeadersSourceOffset.toNat then
        if descriptor.deltaHeadersSourceOffset.toNat + k < (headerTargetSize descriptor).toNat then
          xexBytes[descriptor.deltaHeadersSourceOffset.toNat + k]?
        else some 0
      else xexBytes[descriptor.deltaHeadersTargetOffset.toNat + k]? := by
  rw [getElem?_staged inRange]
  obtain ⟨source, target⟩ := inRange
  by_cases moves : 0 < descriptor.deltaHeadersSourceOffset.toNat
  · rw [if_pos ⟨moves, by omega, by omega⟩, if_pos moves, Nat.add_sub_cancel_left,
      getElem?_copied readable]
    split
    next => rfl
    next => rw [if_pos (by omega)]
  · rw [if_neg (fun all => moves all.1), if_neg moves, getElem?_copied readable, if_pos (by omega)]

/-- Bytes of the buffer that no byte behind the base header is copied to. -/
theorem copied_congr {other : Bytes}
    (readable : (headerTargetSize descriptor).toNat ≤ xexBytes.length)
    (length : other.length = xexBytes.length)
    (agree : ∀ position < headerSize.toNat, other[position]? = xexBytes[position]?) {position : Nat}
    (base : position < headerSize.toNat ∨ (headerTargetSize descriptor).toNat ≤ position) :
    (copied headerSize descriptor other)[position]? =
      (copied headerSize descriptor xexBytes)[position]? := by
  rw [getElem?_copied (length ▸ readable), getElem?_copied readable]
  split
  next inside =>
    rcases base with base | behind
    · exact agree position base
    · omega
  next => rfl

/-- A byte behind the base header that stays in the buffer. -/
theorem exists_foreign (inRange : InRange headerSize descriptor)
    (readable : (headerTargetSize descriptor).toNat ≤ xexBytes.length) {position : Nat}
    (behind : headerSize.toNat ≤ position)
    (inside : position < (headerTargetSize descriptor).toNat)
    (stays : ¬ (0 < descriptor.deltaHeadersSourceOffset.toNat ∧
      descriptor.deltaHeadersTargetOffset.toNat ≤ position ∧
      position < descriptor.deltaHeadersTargetOffset.toNat +
        descriptor.deltaHeadersSourceSize.toNat)) :
    ∃ other : Bytes, other.length = xexBytes.length ∧
      (∀ position < headerSize.toNat, other[position]? = xexBytes[position]?) ∧
      staged headerSize descriptor other ≠ staged headerSize descriptor xexBytes := by
  have low : position < xexBytes.length := by omega
  refine ⟨xexBytes.set position (xexBytes[position] + 1), by simp, ?_, ?_⟩
  · intro earlier below
    exact List.getElem?_set_ne (by omega)
  · intro same
    have here := congrArg (fun buffer : Bytes => buffer[position]?) same
    rw [getElem?_staged inRange, getElem?_staged inRange,
      if_neg stays, if_neg stays, getElem?_copied (by simpa using readable),
      getElem?_copied readable, if_pos inside, if_pos inside, List.getElem?_set_self low,
      List.getElem?_eq_getElem low] at here
    have step : xexBytes[position] + 1 = xexBytes[position] := Option.some.inj here
    bv_omega

/-- Nothing from behind the base header is in the buffer exactly when it is not copied or
overwritten. -/
theorem baseOnly_iff (inRange : InRange headerSize descriptor)
    (readable : (headerTargetSize descriptor).toNat ≤ xexBytes.length)
    (copyable : Copyable descriptor) :
    (∀ other : Bytes, other.length = xexBytes.length →
      (∀ position < headerSize.toNat, other[position]? = xexBytes[position]?) →
      stageHeader headerSize descriptor other = .ok (staged headerSize descriptor xexBytes)) ↔
    ((headerTargetSize descriptor).toNat ≤ headerSize.toNat ∨
      0 < descriptor.deltaHeadersSourceOffset.toNat ∧
        descriptor.deltaHeadersTargetOffset.toNat ≤ headerSize.toNat ∧
        (headerTargetSize descriptor).toNat ≤
          descriptor.deltaHeadersTargetOffset.toNat +
            descriptor.deltaHeadersSourceSize.toNat) := by
  constructor
  · intro independent
    by_contra foreign
    obtain ⟨position, behind, inside, stays⟩ : ∃ position, headerSize.toNat ≤ position ∧
        position < (headerTargetSize descriptor).toNat ∧
        ¬ (0 < descriptor.deltaHeadersSourceOffset.toNat ∧
          descriptor.deltaHeadersTargetOffset.toNat ≤ position ∧
          position < descriptor.deltaHeadersTargetOffset.toNat +
            descriptor.deltaHeadersSourceSize.toNat) := by
      by_cases start : 0 < descriptor.deltaHeadersSourceOffset.toNat ∧
          descriptor.deltaHeadersTargetOffset.toNat ≤ headerSize.toNat
      · exact ⟨(headerTargetSize descriptor).toNat - 1, by omega, by omega, by omega⟩
      · exact ⟨headerSize.toNat, by omega, by omega, by omega⟩
    obtain ⟨other, length, agree, different⟩ := exists_foreign inRange readable behind inside stays
    have result := independent other length agree
    rw [stageHeader_eq inRange, if_pos ⟨length ▸ readable, copyable⟩] at result
    exact different (Except.ok.inj result)
  · intro own other length agree
    rw [stageHeader_eq inRange, if_pos ⟨length ▸ readable, copyable⟩]
    congr 1
    ext1 position
    rw [getElem?_staged inRange, getElem?_staged inRange]
    obtain ⟨source, target⟩ := inRange
    split
    next moved => exact copied_congr readable length agree (.inl (by omega))
    next kept => exact copied_congr readable length agree (by omega)

/-- The buffer is right exactly under the condition. -/
theorem stageHeader_staged (checked : checkHeaderRanges headerSize descriptor = .ok ()) :
    (∃ buffer, stageHeader headerSize descriptor xexBytes = .ok buffer ∧
      HeaderStaged headerSize descriptor xexBytes buffer) ↔
        StagesHeader headerSize descriptor xexBytes := by
  have inRange := inRange_of_check checked
  have stage := @stageHeader_eq headerSize descriptor xexBytes inRange
  constructor
  · rintro ⟨buffer, run, right⟩
    rw [stage] at run
    split at run
    next possible =>
      obtain ⟨readable, copyable⟩ := possible
      obtain rfl := Except.ok.inj run
      have present := (Bytes.read_eq_some.mp right.source.choose_spec.1).1
      have same := (source_iff inRange present).mp right.source
      constructor
      · exact readable
      · exact present
      · exact copyable
      · intro moves k inside cut
        rw [same k inside, getElem?_target inRange readable inside, if_pos moves,
          if_neg (by omega)]
      · intro still k inside
        have here := same k inside
        rw [getElem?_target inRange readable inside, if_neg (by omega), still, Nat.zero_add] at here
        exact here.symm
      · exact (baseOnly_iff inRange readable copyable).mp right.baseOnly
    next => cases run
  · rintro ⟨readable, present, copyable, moved, unmoved, own⟩
    refine ⟨staged headerSize descriptor xexBytes,
      by rw [stage, if_pos ⟨readable, copyable⟩], ?_⟩
    constructor
    · apply (source_iff inRange present).mpr
      intro k inside
      rw [getElem?_target inRange readable inside]
      split
      next moves =>
        split
        next => rfl
        next cut => exact moved moves k inside (by omega)
      next still =>
        have zero : descriptor.deltaHeadersSourceOffset.toNat = 0 := by omega
        rw [unmoved zero k inside, zero, Nat.zero_add]
    · exact (baseOnly_iff inRange readable copyable).mpr own

/-- A file with a header of 24 bytes and 16 bytes of data. -/
def shortHeaderFile : Bytes :=
  [0x58, 0x45, 0x58, 0x32] ++ Bytes.encode 4 0 ++ Bytes.encode 4 24 ++ Bytes.zeros 12 ++
    List.replicate 16 0xAA

/-- A descriptor that keeps a header of 24 bytes in a header of a given size. -/
def keepHeader (sizeOfTargetHeaders : BitVec 32) : Xex2OptDeltaPatchDescriptor where
  size := 0
  imageKeySource := []
  sizeOfTargetHeaders := sizeOfTargetHeaders
  deltaHeadersSourceOffset := 0
  deltaHeadersSourceSize := 24
  deltaHeadersTargetOffset := 0
  deltaImageSourceOffset := 0
  deltaImageSourceSize := 0
  deltaImageTargetOffset := 0

/-- A target header of the same size. -/
theorem stageHeader_staged_sameSize :
    Xex.headerSize shortHeaderFile = some 24 ∧
      ((∃ buffer, stageHeader 24 (keepHeader 24) shortHeaderFile = .ok buffer ∧
        HeaderStaged 24 (keepHeader 24) shortHeaderFile buffer) ↔
          StagesHeader 24 (keepHeader 24) shortHeaderFile) :=
  ⟨by decide, stageHeader_staged rfl⟩

/-- A larger target header takes up data from behind the base header. -/
theorem not_stageHeader_staged :
    Xex.headerSize shortHeaderFile = some 24 ∧
      checkHeaderRanges 24 (keepHeader 32) = .ok () ∧
      ¬ ∃ buffer, stageHeader 24 (keepHeader 32) shortHeaderFile = .ok buffer ∧
        HeaderStaged 24 (keepHeader 32) shortHeaderFile buffer := by
  have inRange : InRange 24 (keepHeader 32) := inRange_of_check rfl
  have readable : (headerTargetSize (keepHeader 32)).toNat ≤ shortHeaderFile.length := by decide
  have copyable : Copyable (keepHeader 32) := by decide
  refine ⟨by decide, rfl, ?_⟩
  rintro ⟨buffer, run, right⟩
  rw [stageHeader_eq inRange, if_pos ⟨readable, copyable⟩] at run
  obtain rfl := Except.ok.inj run
  exact absurd ((baseOnly_iff inRange readable copyable).mp right.baseOnly) (by decide)

end UfcRecomp.Xex
