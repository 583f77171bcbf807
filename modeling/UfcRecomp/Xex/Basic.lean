import UfcRecomp.Xex.Format

/-!
# Basic compression

The image is cut into runs of data, each followed by a run of zeros that is not stored. The
loader writes the runs into a new buffer from the front. The patcher has the stored bytes in
the buffer that the image goes to, and moves the runs from the back.
-/

namespace UfcRecomp.Xex

open UfcRecomp.Lib

/-! ## The loader -/

/-- The buffer and the two cursors of an expansion. -/
structure Expansion where
  bytes : Bytes
  src : Nat
  out : Nat

/-- A pass of the loop of `Xex2LoadImage`. -/
def loadBlock (srcData : Bytes) (state : Expansion) (block : Xex2FileBasicCompressionBlock) :
    Option Expansion := do
  let data ← srcData.read state.src block.dataSize
  let bytes ← state.bytes.write state.out data
  let bytes ← bytes.fill (state.out + block.dataSize) block.zeroSize
  return {
    bytes
    src := state.src + block.dataSize
    out := state.out + block.dataSize + block.zeroSize }

/-- The basic branch of `Xex2LoadImage`; the image is a fresh buffer. -/
def loadBasic (srcData info : Bytes) : Option Bytes := do
  let size ← infoSize info
  let numBlocks := unsigned 64 ((size / basicBlockSize : Nat) - 1)
  let blocks ← basicBlocks info numBlocks
  let imageSize := blocks.foldl
    (fun size block => unsigned 64 (size + unsigned 32 ((block.dataSize + block.zeroSize : Nat)) : Nat)) 0
  let state ← blocks.foldlM (loadBlock srcData) ⟨Bytes.zeros imageSize, 0, 0⟩
  return state.bytes

/-! ## The patcher -/

/-- The sums over the blocks, as the patcher adds them up. -/
def addSizes (sums : Int × Int) (block : Xex2FileBasicCompressionBlock) : Int × Int :=
  (signed 32 (sums.1 + block.dataSize),
    signed 32 (sums.2 + unsigned 32 ((block.dataSize + block.zeroSize : Nat))))

/-- A pass of the reverse loop of `XexPatcher::apply`. -/
def moveBlock (state : Expansion) (block : Xex2FileBasicCompressionBlock) : Option Expansion := do
  let zeroCursor ← back state.out block.zeroSize
  let bytes ← state.bytes.fill zeroCursor block.zeroSize
  let out ← back zeroCursor block.dataSize
  let src ← back state.src block.dataSize
  let bytes ← bytes.move out src block.dataSize
  return { bytes, src, out }

/-- The basic branch of `XexPatcher::apply`, in the buffer with the stored bytes. -/
def expandBasic (outBytes : Bytes) (headerTargetSize : Nat) (info : Bytes) :
    Except (Stop Result) Bytes := do
  let size ← access (infoSize info)
  let numBlocks := signed 32 ((size / basicBlockSize : Nat) - 1)
  let blocks ← access (basicBlocks info numBlocks.toNat)
  let sums := blocks.foldl addSizes (0, 0)
  if outBytes.length < unsigned 32 (headerTargetSize + sums.2) then
    throw (.returned .xexFileInvalid)
  let src ← access (cursorAt (headerTargetSize + sums.1))
  let out ← access (cursorAt (headerTargetSize + sums.2))
  let state ← access (blocks.reverse.foldlM moveBlock ⟨outBytes, src, out⟩)
  return state.bytes

/-! ## The image -/

/-- The bytes that are stored for the blocks. -/
def dataTotal (blocks : List Xex2FileBasicCompressionBlock) : Nat :=
  (blocks.map fun block => block.dataSize).sum

/-- The zeros that are not stored. -/
def zeroTotal (blocks : List Xex2FileBasicCompressionBlock) : Nat :=
  (blocks.map fun block => block.zeroSize).sum

/-- Each block's data followed by its zeros. -/
def basicImage : List Xex2FileBasicCompressionBlock → Bytes → Bytes
  | [], _ => []
  | block :: blocks, data =>
    data.take block.dataSize ++ Bytes.zeros block.zeroSize ++
      basicImage blocks (data.drop block.dataSize)

/-- The blocks that a file format information declares. -/
structure Declares (info : Bytes) (blocks : List Xex2FileBasicCompressionBlock) : Prop where
  infoSize : ∃ size, Xex.infoSize info = some size ∧ size / basicBlockSize = blocks.length + 1
  blocks : basicBlocks info blocks.length = some blocks

@[simp] theorem dataTotal_cons (block : Xex2FileBasicCompressionBlock)
    (blocks : List Xex2FileBasicCompressionBlock) :
    dataTotal (block :: blocks) = block.dataSize + dataTotal blocks := rfl

@[simp] theorem zeroTotal_cons (block : Xex2FileBasicCompressionBlock)
    (blocks : List Xex2FileBasicCompressionBlock) :
    zeroTotal (block :: blocks) = block.zeroSize + zeroTotal blocks := rfl

@[simp] theorem dataTotal_append (blocks more : List Xex2FileBasicCompressionBlock) :
    dataTotal (blocks ++ more) = dataTotal blocks + dataTotal more := by
  simp [dataTotal]

@[simp] theorem zeroTotal_append (blocks more : List Xex2FileBasicCompressionBlock) :
    zeroTotal (blocks ++ more) = zeroTotal blocks + zeroTotal more := by
  simp [zeroTotal]

theorem length_basicImage {blocks : List Xex2FileBasicCompressionBlock} {data : Bytes}
    (enough : dataTotal blocks ≤ data.length) :
    (basicImage blocks data).length = dataTotal blocks + zeroTotal blocks := by
  induction blocks generalizing data with
  | nil => rfl
  | cons block blocks ih =>
      rw [dataTotal_cons] at enough
      have rest := @ih (data.drop block.dataSize) (by simp; omega)
      simp [basicImage, rest]
      omega

/-- The image of one more block at the end. -/
theorem basicImage_append {blocks : List Xex2FileBasicCompressionBlock} {data last : Bytes}
    (block : Xex2FileBasicCompressionBlock) (size : data.length = dataTotal blocks)
    (lastSize : last.length = block.dataSize) :
    basicImage (blocks ++ [block]) (data ++ last) =
      basicImage blocks data ++ last ++ Bytes.zeros block.zeroSize := by
  induction blocks generalizing data with
  | nil =>
      obtain rfl : data = [] := List.eq_nil_of_length_eq_zero size
      simp [basicImage, ← lastSize]
  | cons first blocks ih =>
      rw [dataTotal_cons] at size
      have rest := @ih (data.drop first.dataSize) (by simp; omega)
      have front : first.dataSize - data.length = 0 := by omega
      simp only [List.cons_append, basicImage, List.take_append, List.drop_append, front,
        List.take_zero, List.drop_zero, List.append_nil, rest, List.append_assoc]

/-- Bytes behind the data do not matter. -/
theorem basicImage_take {blocks : List Xex2FileBasicCompressionBlock} {data : Bytes} {count : Nat}
    (enough : dataTotal blocks ≤ count) :
    basicImage blocks (data.take count) = basicImage blocks data := by
  induction blocks generalizing data count with
  | nil => rfl
  | cons block blocks ih =>
      rw [dataTotal_cons] at enough
      have rest := @ih (data.drop block.dataSize) (count - block.dataSize) (by omega)
      simp only [basicImage, List.take_take, List.drop_take, rest]
      rw [Nat.min_eq_left (by omega)]

/-- The patcher's sums do not overflow. -/
theorem addSizes_eq (blocks : List Xex2FileBasicCompressionBlock) {data all : Nat}
    (small : data + dataTotal blocks < 2 ^ 31)
    (smallAll : all + (dataTotal blocks + zeroTotal blocks) < 2 ^ 31) :
    blocks.foldl addSizes (data, all) = (((data + dataTotal blocks : Nat) : Int),
      ((all + (dataTotal blocks + zeroTotal blocks) : Nat) : Int)) := by
  induction blocks generalizing data all with
  | nil => simp [dataTotal, zeroTotal]
  | cons block blocks ih =>
      simp only [dataTotal_cons, zeroTotal_cons] at small smallAll ⊢
      have run : unsigned 32 ((block.dataSize + block.zeroSize : Nat)) =
          block.dataSize + block.zeroSize := unsigned_of_lt (by omega)
      have first : signed 32 ((data : Int) + block.dataSize) = (data + block.dataSize : Nat) := by
        rw [← Nat.cast_add]
        exact signed_of_lt (by omega)
      have second : signed 32 ((all : Int) + (block.dataSize + block.zeroSize : Nat)) =
          (all + (block.dataSize + block.zeroSize) : Nat) := by
        rw [← Nat.cast_add]
        exact signed_of_lt (by omega)
      have dataSum : data + block.dataSize + dataTotal blocks =
          data + (block.dataSize + dataTotal blocks) := by omega
      have allSum : all + (block.dataSize + block.zeroSize) + (dataTotal blocks + zeroTotal blocks) =
          all + (block.dataSize + dataTotal blocks + (block.zeroSize + zeroTotal blocks)) := by omega
      rw [List.foldl_cons, addSizes, run, first, second, ih (by omega) (by omega), dataSum, allSum]

/-- The loader's size of the image. -/
theorem imageSize_eq (blocks : List Xex2FileBasicCompressionBlock) {size : Nat}
    (small : size + (dataTotal blocks + zeroTotal blocks) < 2 ^ 31) :
    blocks.foldl (fun size block =>
      unsigned 64 (size + unsigned 32 ((block.dataSize + block.zeroSize : Nat)) : Nat)) size =
      size + (dataTotal blocks + zeroTotal blocks) := by
  induction blocks generalizing size with
  | nil => simp [dataTotal, zeroTotal]
  | cons block blocks ih =>
      simp only [dataTotal_cons, zeroTotal_cons] at small ⊢
      have run : unsigned 32 ((block.dataSize + block.zeroSize : Nat)) =
          block.dataSize + block.zeroSize := unsigned_of_lt (by omega)
      rw [List.foldl_cons, run, unsigned_of_lt (by omega), ih (by omega)]
      omega

/-! ## The reverse expansion -/

/-- Moving the last run of data to the end of the gap. -/
theorem move_last {front last gap back : Bytes} {target source count : Nat}
    (targetHere : target = front.length + gap.length) (sourceHere : source = front.length)
    (size : last.length = count) :
    (front ++ last ++ gap ++ back).move target source count =
      some (front ++ (last ++ gap).take gap.length ++ last ++ back) := by
  have found : (front ++ last ++ gap ++ back).read source count = some last := by
    have parts : front ++ last ++ gap ++ back = front ++ last ++ (gap ++ back) := by simp
    rw [parts]
    exact Bytes.read_append sourceHere size.symm
  have parts : front ++ last ++ gap ++ back =
      front ++ (last ++ gap).take gap.length ++ (last ++ gap).drop gap.length ++ back := by
    rw [List.append_assoc front (List.take _ _), List.take_append_drop]
    simp
  rw [Bytes.move, found, Option.bind_some, parts]
  apply Bytes.write_append
  · simp
    omega
  · simp

/-- One pass: the run and its zeros leave the gap and join what is done. -/
theorem moveBlock_eq {front data last gap zeroGap done : Bytes}
    {block : Xex2FileBasicCompressionBlock} (size : last.length = block.dataSize)
    (zeroSize : zeroGap.length = block.zeroSize) :
    moveBlock ⟨front ++ (data ++ last) ++ (gap ++ zeroGap) ++ done,
        front.length + (data ++ last).length,
        front.length + (data ++ last).length + (gap ++ zeroGap).length⟩ block =
      some ⟨front ++ data ++ (last ++ gap).take gap.length ++
          (last ++ Bytes.zeros block.zeroSize ++ done),
        front.length + data.length, front.length + data.length + gap.length⟩ := by
  have zeroCursor : back (front.length + (data ++ last).length + (gap ++ zeroGap).length)
      block.zeroSize = some (front.length + (data ++ last).length + gap.length) := by
    rw [← back_add _ block.zeroSize, @List.length_append _ gap, zeroSize, ← Nat.add_assoc]
  have outCursor : back (front.length + (data ++ last).length + gap.length) block.dataSize =
      some (front.length + data.length + gap.length) := by
    rw [← back_add _ block.dataSize, List.length_append, size]
    congr 1
    omega
  have srcCursor : back (front.length + (data ++ last).length) block.dataSize =
      some (front.length + data.length) := by
    rw [← back_add _ block.dataSize, List.length_append, size, Nat.add_assoc]
  have filled : (front ++ (data ++ last) ++ (gap ++ zeroGap) ++ done).fill
      (front.length + (data ++ last).length + gap.length) block.zeroSize =
      some ((front ++ data) ++ last ++ gap ++ (Bytes.zeros block.zeroSize ++ done)) := by
    have parts : front ++ (data ++ last) ++ (gap ++ zeroGap) ++ done =
        (front ++ data ++ last ++ gap) ++ zeroGap ++ done := by simp
    rw [Bytes.fill, parts, Bytes.write_append _ (by simp [zeroSize])]
    · simp
    · simp
      omega
  have moved := @move_last (front ++ data) last gap (Bytes.zeros block.zeroSize ++ done)
    (front.length + data.length + gap.length) (front.length + data.length) block.dataSize
    (by simp) (by simp) size
  simp only [moveBlock, zeroCursor, filled, outCursor, srcCursor, moved, Option.bind_eq_bind,
    Option.bind_some, Option.pure_def]
  simp

/-- The whole loop. What is not yet moved lies in front of a gap that is as long as the zeros
still to be written, so that the cursor of the image never comes below unread data. -/
theorem moveBlocks_eq (blocks : List Xex2FileBasicCompressionBlock) {front data gap done : Bytes}
    (size : data.length = dataTotal blocks) (gapSize : gap.length = zeroTotal blocks) :
    blocks.reverse.foldlM moveBlock ⟨front ++ data ++ gap ++ done, front.length + data.length,
        front.length + data.length + gap.length⟩ =
      some ⟨front ++ basicImage blocks data ++ done, front.length, front.length⟩ := by
  induction blocks using List.reverseRecOn generalizing data gap done with
  | nil =>
      obtain rfl : data = [] := List.eq_nil_of_length_eq_zero size
      obtain rfl : gap = [] := List.eq_nil_of_length_eq_zero gapSize
      simp [basicImage]
  | append_singleton blocks block ih =>
      simp only [dataTotal_append, zeroTotal_append, dataTotal_cons, zeroTotal_cons] at size gapSize
      obtain ⟨data, last, rfl, dataSize, lastSize⟩ :
          ∃ first last, data = first ++ last ∧ first.length = dataTotal blocks ∧
            last.length = block.dataSize :=
        ⟨data.take (dataTotal blocks), data.drop (dataTotal blocks),
          (List.take_append_drop _ _).symm, by simp; omega, by simp [size, dataTotal]⟩
      obtain ⟨gap, zeroGap, rfl, firstGap, zeroSize⟩ :
          ∃ first last, gap = first ++ last ∧ first.length = zeroTotal blocks ∧
            last.length = block.zeroSize :=
        ⟨gap.take (zeroTotal blocks), gap.drop (zeroTotal blocks),
          (List.take_append_drop _ _).symm, by simp; omega, by simp [gapSize, zeroTotal]⟩
      have gapKept : ((last ++ gap).take gap.length).length = gap.length := by simp
      have rest := @ih data ((last ++ gap).take gap.length)
        (last ++ Bytes.zeros block.zeroSize ++ done) dataSize (gapKept.trans firstGap)
      rw [gapKept] at rest
      rw [List.reverse_append, List.reverse_singleton, List.singleton_append, List.foldlM_cons,
        moveBlock_eq lastSize zeroSize, Option.bind_eq_bind, Option.bind_some, rest,
        basicImage_append block dataSize lastSize]
      simp

/-! ## The forward expansion -/

/-- One pass: a run and its zeros go behind what is done. -/
theorem loadBlock_eq {read first data done gap zeroGap rest : Bytes}
    {block : Xex2FileBasicCompressionBlock} (size : first.length = block.dataSize)
    (gapSize : gap.length = block.dataSize) (zeroSize : zeroGap.length = block.zeroSize) :
    loadBlock (read ++ (first ++ data)) ⟨done ++ (gap ++ (zeroGap ++ rest)), read.length,
        done.length⟩ block =
      some ⟨done ++ first ++ Bytes.zeros block.zeroSize ++ rest, (read ++ first).length,
        (done ++ first ++ Bytes.zeros block.zeroSize).length⟩ := by
  have found : (read ++ (first ++ data)).read read.length block.dataSize = some first := by
    rw [← List.append_assoc]
    exact Bytes.read_append rfl size.symm
  have copied : (done ++ (gap ++ (zeroGap ++ rest))).write done.length first =
      some (done ++ first ++ (zeroGap ++ rest)) := by
    rw [← List.append_assoc]
    exact Bytes.write_append rfl (by omega)
  have filled : (done ++ first ++ (zeroGap ++ rest)).fill (done.length + block.dataSize)
      block.zeroSize = some (done ++ first ++ Bytes.zeros block.zeroSize ++ rest) := by
    rw [Bytes.fill, ← List.append_assoc]
    exact Bytes.write_append (by simp [size]) (by simp [zeroSize])
  simp only [loadBlock, found, copied, filled, Option.bind_eq_bind, Option.bind_some,
    Option.pure_def]
  simp [size, Nat.add_assoc]

/-- The whole loop of the loader. -/
theorem loadBlocks_eq (blocks : List Xex2FileBasicCompressionBlock) {read data done : Bytes}
    (enough : dataTotal blocks ≤ data.length) :
    blocks.foldlM (loadBlock (read ++ data)) ⟨done ++
        Bytes.zeros (dataTotal blocks + zeroTotal blocks), read.length, done.length⟩ =
      some ⟨done ++ basicImage blocks data, read.length + dataTotal blocks,
        done.length + (dataTotal blocks + zeroTotal blocks)⟩ := by
  induction blocks generalizing read data done with
  | nil => simp [basicImage, dataTotal, zeroTotal]
  | cons block blocks ih =>
      simp only [dataTotal_cons, zeroTotal_cons] at enough ⊢
      obtain ⟨first, data, rfl, size⟩ :
          ∃ first rest, data = first ++ rest ∧ first.length = block.dataSize :=
        ⟨data.take block.dataSize, data.drop block.dataSize,
          (List.take_append_drop _ _).symm, by simp; omega⟩
      have fresh : Bytes.zeros (block.dataSize + dataTotal blocks +
          (block.zeroSize + zeroTotal blocks)) = Bytes.zeros block.dataSize ++
            (Bytes.zeros block.zeroSize ++ Bytes.zeros (dataTotal blocks + zeroTotal blocks)) := by
        simp only [Bytes.zeros, List.replicate_append_replicate]
        congr 1
        omega
      have rest := @ih (read ++ first) data (done ++ first ++ Bytes.zeros block.zeroSize) (by
        simp only [List.length_append] at enough
        omega)
      rw [List.append_assoc read] at rest
      rw [fresh, List.foldlM_cons, loadBlock_eq size List.length_replicate List.length_replicate,
        Option.bind_eq_bind, Option.bind_some, rest]
      simp [basicImage, size, Nat.add_assoc, Nat.add_left_comm]

/-! ## The two loops agree -/

/-- Both branches count the blocks that are declared. -/
theorem Declares.counts {info : Bytes} {blocks : List Xex2FileBasicCompressionBlock}
    (declared : Declares info blocks) : ∃ size, Xex.infoSize info = some size ∧
      signed 32 ((size / basicBlockSize : Nat) - 1) = blocks.length ∧
      unsigned 64 ((size / basicBlockSize : Nat) - 1) = blocks.length := by
  obtain ⟨size, found, count⟩ := declared.infoSize
  have low := Bytes.lt_of_number found
  have few : blocks.length < 2 ^ 31 := by
    rw [basicBlockSize] at count
    omega
  have entries : ((size / basicBlockSize : Nat) : Int) - 1 = (blocks.length : Nat) := by omega
  exact ⟨size, found, by rw [entries, signed_of_lt few], by
    rw [entries, unsigned_of_lt (by omega)]⟩

/-- The loader builds the image of the blocks. -/
theorem loadBasic_eq {info : Bytes} {blocks : List Xex2FileBasicCompressionBlock}
    (declared : Declares info blocks) {compressed : Bytes}
    (enough : dataTotal blocks ≤ compressed.length)
    (small : dataTotal blocks + zeroTotal blocks < 2 ^ 31) :
    loadBasic compressed info = some (basicImage blocks compressed) := by
  obtain ⟨size, found, count, count'⟩ := declared.counts
  have loop := @loadBlocks_eq blocks [] compressed [] enough
  simp only [List.nil_append, List.length_nil, Nat.zero_add] at loop
  simp only [loadBasic, found, count', declared.blocks, Option.bind_eq_bind, Option.bind_some,
    @imageSize_eq blocks 0 (by omega), Nat.zero_add, loop, Option.pure_def]

/-- The patcher leaves the image in the buffer, in which nothing else changes. -/
theorem expandBasic_eq {info : Bytes} {blocks : List Xex2FileBasicCompressionBlock}
    (declared : Declares info blocks) {header compressed rest : Bytes}
    (enough : dataTotal blocks ≤ compressed.length)
    (small : dataTotal blocks + zeroTotal blocks < 2 ^ 31)
    (room : dataTotal blocks + zeroTotal blocks ≤ compressed.length + rest.length) :
    expandBasic (header ++ compressed ++ rest) header.length info =
      .ok (header ++ basicImage blocks compressed ++
        (compressed ++ rest).drop (dataTotal blocks + zeroTotal blocks)) := by
  obtain ⟨size, found, count, count'⟩ := declared.counts
  have sums := @addSizes_eq blocks 0 0 (by omega) (by omega)
  simp only [Nat.zero_add, Nat.cast_zero] at sums
  have fits : ¬ (header ++ compressed ++ rest).length <
      unsigned 32 ((header.length + (dataTotal blocks + zeroTotal blocks) : Nat)) := by
    have wrapped := Nat.mod_le (header.length + (dataTotal blocks + zeroTotal blocks)) (2 ^ 32)
    rw [unsigned_natCast]
    simp only [List.length_append]
    omega
  obtain ⟨data, behind, split, size⟩ :
      ∃ data behind, compressed ++ rest = data ++ behind ∧ data.length = dataTotal blocks :=
    ⟨_, _, (List.take_append_drop (dataTotal blocks) (compressed ++ rest)).symm, by
      simp
      omega⟩
  have behindSize : zeroTotal blocks ≤ behind.length := by
    have lengths := congrArg List.length split
    simp only [List.length_append] at lengths
    omega
  have image : basicImage blocks data = basicImage blocks compressed := by
    have front : data = compressed.take (dataTotal blocks) := by
      have taken := congrArg (List.take (dataTotal blocks)) split
      rw [List.take_append_of_le_length enough, List.take_left' size] at taken
      exact taken.symm
    rw [front]
    exact basicImage_take (Nat.le_refl _)
  have parts : header ++ compressed ++ rest =
      header ++ data ++ behind.take (zeroTotal blocks) ++ behind.drop (zeroTotal blocks) := by
    rw [List.append_assoc, split, List.append_assoc _ (List.take _ _), List.take_append_drop,
      List.append_assoc]
  have loop := @moveBlocks_eq blocks header data (behind.take (zeroTotal blocks))
    (behind.drop (zeroTotal blocks)) size (by simp; omega)
  have gapSize : (behind.take (zeroTotal blocks)).length = zeroTotal blocks := by simp; omega
  have dropped : (compressed ++ rest).drop (dataTotal blocks + zeroTotal blocks) =
      behind.drop (zeroTotal blocks) := by
    rw [split, ← size, List.drop_append]
    simp
  rw [← parts, image, size, gapSize, Nat.add_assoc] at loop
  simp only [expandBasic, found, count, declared.blocks, access_some, bind, Except.bind,
    Int.toNat_natCast, sums, ← Nat.cast_add, cursorAt_natCast, loop, dropped]
  rw [if_neg fits]
  rfl

/-- The reverse loop keeps the size of the buffer. -/
theorem length_of_moveBlocks {blocks : List Xex2FileBasicCompressionBlock} :
    ∀ {state after : Expansion}, blocks.foldlM moveBlock state = some after →
      after.bytes.length = state.bytes.length := by
  induction blocks with
  | nil =>
      rintro state _ ⟨⟩
      rfl
  | cons block blocks ih =>
      intro state after run
      rw [List.foldlM_cons, Option.bind_eq_bind, Option.bind_eq_some_iff] at run
      obtain ⟨next, step, run⟩ := run
      simp only [moveBlock, Option.bind_eq_bind, Option.bind_eq_some_iff] at step
      obtain ⟨_, _, _, filled, _, _, _, _, _, moved, step⟩ := step
      cases step
      obtain ⟨_, _, written⟩ := Option.bind_eq_some_iff.mp moved
      rw [ih run, Bytes.length_of_write written, Bytes.length_of_write filled]

/-- The patcher's expansion keeps the size of the buffer. -/
theorem length_of_expandBasic {outBytes info after : Bytes} {headerTargetSize : Nat}
    (run : expandBasic outBytes headerTargetSize info = .ok after) :
    after.length = outBytes.length := by
  simp only [expandBasic, bind_eq_ok, throwIf_bind_eq_ok, access_eq_ok] at run
  obtain ⟨_, _, _, _, _, _, _, _, _, state, moved, run⟩ := run
  cases run
  exact length_of_moveBlocks moved

/-- The loader builds the image of the blocks, and the patcher's expansion leaves the same image
in the buffer, in which nothing else changes. -/
theorem expandBasic_eq_loadBasic {info : Bytes} {blocks : List Xex2FileBasicCompressionBlock}
    (declared : Declares info blocks) (header compressed rest : Bytes)
    (enough : dataTotal blocks ≤ compressed.length)
    (small : dataTotal blocks + zeroTotal blocks < 2 ^ 31)
    (room : dataTotal blocks + zeroTotal blocks ≤ compressed.length + rest.length) :
    loadBasic compressed info = some (basicImage blocks compressed) ∧
      expandBasic (header ++ compressed ++ rest) header.length info =
        .ok (header ++ basicImage blocks compressed ++
          (compressed ++ rest).drop (dataTotal blocks + zeroTotal blocks)) :=
  ⟨loadBasic_eq declared enough small, expandBasic_eq declared enough small room⟩

/-- The bytes of a table entry. -/
def encodeBlock (block : Xex2FileBasicCompressionBlock) : Bytes :=
  Bytes.encode 4 block.dataSize ++ Bytes.encode 4 block.zeroSize

/-- A file format information with its table. -/
def encodeBasicInfo (encryptionType compressionType : Nat)
    (blocks : List Xex2FileBasicCompressionBlock) : Bytes :=
  Bytes.encode 4 (basicBlockSize * (blocks.length + 1)) ++ Bytes.encode 2 encryptionType ++
    Bytes.encode 2 compressionType ++ blocks.flatMap encodeBlock

/-- An entry is read back. -/
theorem basicBlock_encode {front rest : Bytes} {block : Xex2FileBasicCompressionBlock} {i : Nat}
    (here : front.length = fileFormatInfoSize + basicBlockSize * i)
    (dataSmall : block.dataSize < 2 ^ 32) (zeroSmall : block.zeroSize < 2 ^ 32) :
    basicBlock (front ++ encodeBlock block ++ rest) i = some block := by
  have dataSize : (front ++ encodeBlock block ++ rest).number
      (fileFormatInfoSize + basicBlockSize * i) 4 = some block.dataSize := by
    have parts : front ++ encodeBlock block ++ rest =
        front ++ Bytes.encode 4 block.dataSize ++ (Bytes.encode 4 block.zeroSize ++ rest) := by
      simp [encodeBlock]
    rw [parts, Bytes.number_append here.symm (by simp), Bytes.value_encode_of_lt dataSmall]
  have zeroSize : (front ++ encodeBlock block ++ rest).number
      (fileFormatInfoSize + basicBlockSize * i + 4) 4 = some block.zeroSize := by
    have parts : front ++ encodeBlock block ++ rest =
        (front ++ Bytes.encode 4 block.dataSize) ++ Bytes.encode 4 block.zeroSize ++ rest := by
      simp [encodeBlock]
    rw [parts, Bytes.number_append (by simp [here]) (by simp), Bytes.value_encode_of_lt zeroSmall]
  rw [basicBlock, dataSize, zeroSize]
  rfl

/-- A table is read back from any place. -/
theorem mapM_basicBlock {front rest : Bytes} (blocks : List Xex2FileBasicCompressionBlock)
    {start : Nat} (here : front.length = fileFormatInfoSize + basicBlockSize * start)
    (small : ∀ block ∈ blocks, block.dataSize < 2 ^ 32 ∧ block.zeroSize < 2 ^ 32) :
    (List.range' start blocks.length).mapM
      (basicBlock (front ++ blocks.flatMap encodeBlock ++ rest)) = some blocks := by
  induction blocks generalizing front start with
  | nil => rfl
  | cons block blocks ih =>
      obtain ⟨dataSmall, zeroSmall⟩ := small block (by simp)
      have first := @basicBlock_encode front (blocks.flatMap encodeBlock ++ rest) block start here
        dataSmall zeroSmall
      have others := @ih (front ++ encodeBlock block) (start + 1) (by
        simp [here, encodeBlock, basicBlockSize]
        omega) (fun other member => small other (by simp [member]))
      simp only [List.append_assoc] at first others
      simp only [List.length_cons, List.range'_succ, List.mapM_cons, List.flatMap_cons,
        List.append_assoc, first, others, Option.bind_eq_bind, Option.bind_some, Option.pure_def]

/-- Every list of blocks that the size field has room for can be declared. -/
theorem declares_encode {blocks : List Xex2FileBasicCompressionBlock}
    (encryptionType compressionType : Nat) (rest : Bytes)
    (fits : basicBlockSize * (blocks.length + 1) < 2 ^ 32)
    (small : ∀ block ∈ blocks, block.dataSize < 2 ^ 32 ∧ block.zeroSize < 2 ^ 32) :
    Declares (encodeBasicInfo encryptionType compressionType blocks ++ rest) blocks where
  infoSize := by
    refine ⟨basicBlockSize * (blocks.length + 1), ?_, by simp [basicBlockSize]⟩
    have parts : encodeBasicInfo encryptionType compressionType blocks ++ rest =
        [] ++ Bytes.encode 4 (basicBlockSize * (blocks.length + 1)) ++
          (Bytes.encode 2 encryptionType ++ Bytes.encode 2 compressionType ++
            blocks.flatMap encodeBlock ++ rest) := by
      simp [encodeBasicInfo]
    rw [Xex.infoSize, parts, Bytes.number_append List.length_nil.symm (by simp),
      Bytes.value_encode_of_lt fits]
  blocks := by
    rw [basicBlocks, List.range_eq_range']
    exact mapM_basicBlock blocks (by simp [fileFormatInfoSize]) small

/-- Two runs, the second of zeros alone, behind a header of one byte. -/
theorem expandBasic_eq_loadBasic_twoBlocks :
    loadBasic [1, 2, 3] (encodeBasicInfo 0 1 [⟨2, 1⟩, ⟨0, 2⟩] ++ []) =
        some (basicImage [⟨2, 1⟩, ⟨0, 2⟩] [1, 2, 3]) ∧
      expandBasic ([9] ++ [1, 2, 3] ++ [7, 7, 7]) 1
          (encodeBasicInfo 0 1 [⟨2, 1⟩, ⟨0, 2⟩] ++ []) =
        .ok ([9] ++ basicImage [⟨2, 1⟩, ⟨0, 2⟩] [1, 2, 3] ++
          ([1, 2, 3] ++ [7, 7, 7] : Bytes).drop 5) :=
  expandBasic_eq_loadBasic (declares_encode 0 1 [] (by decide) (by decide)) [9] [1, 2, 3] [7, 7, 7]
    (by decide) (by decide) (by decide)

end UfcRecomp.Xex
