import UfcRecomp.Xex.Format

/-!
# Normal compression

The compressed stream is cut into chunks, the chunks are grouped into blocks, and the blocks are
chained: the size and the hash of a block stand in front of the data of the block before it.
The loader and the patcher have the same loop to gather the chunks, over different buffers.
-/

namespace UfcRecomp.Xex

open UfcRecomp.Lib

/-! ## The loops -/

/-- The cursors `p` and `d`, and the buffer that `d` points into. -/
structure Gather where
  p : Nat
  d : Nat
  compressBuffer : Bytes

/-- The loop over the chunks of a block. -/
def gatherChunks {ρ : Type} (exe : Bytes) (state : Gather) : Except (Stop ρ) Gather :=
  match exe.number state.p 2 with
  | none => .error .outside
  | some chunkSize =>
    if chunkSize = 0 then .ok { state with p := state.p + 2 }
    else
      match _inside : exe.read (state.p + 2) chunkSize with
      | none => .error .outside
      | some chunk =>
        match state.compressBuffer.write state.d chunk with
        | none => .error .outside
        | some compressBuffer =>
          gatherChunks exe {
            p := state.p + 2 + chunkSize
            d := state.d + chunkSize
            compressBuffer }
termination_by exe.length - state.p
decreasing_by
  have room := (Bytes.read_eq_some.mp _inside).1
  omega

/-- The state of the loop over the blocks; `blocks` are the bytes at the pointer of that name. -/
structure Chain extends Gather where
  blocks : Bytes

/-- The loop over the blocks. `failure` is returned for a block with another hash than the one
that is recorded for it. -/
def gatherBlocks {ρ : Type} (sha1 : Bytes → Bytes) (failure : ρ) (exe : Bytes) (state : Chain) :
    Except (Stop ρ) Chain :=
  match blockSize state.blocks with
  | none => .error .outside
  | some size =>
    if size = 0 then .ok state
    else
      match _inside : exe.read state.p size with
      | none => .error .outside
      | some content =>
        match blockHash state.blocks with
        | none => .error .outside
        | some recorded =>
          if sha1 content ≠ recorded then .error (.returned failure)
          else
            match gatherChunks exe { state with p := state.p + 4 + 20 } with
            | .error stop => .error stop
            | .ok chunks =>
              gatherBlocks sha1 failure exe {
                chunks with p := state.p + size, blocks := exe.drop state.p }
termination_by exe.length - state.p
decreasing_by
  have room := (Bytes.read_eq_some.mp _inside).1
  omega

/-- Gather the chunks of `exe` in a fresh buffer; the result is what is passed on. -/
def deblock {ρ : Type} (sha1 : Bytes → Bytes) (failure : ρ) (exe info : Bytes) (exeLength : Nat) :
    Except (Stop ρ) Bytes := do
  let final ← gatherBlocks sha1 failure exe {
    p := 0, d := 0, compressBuffer := Bytes.zeros exeLength, blocks := firstBlock info }
  return final.compressBuffer.take final.d

/-- The loop in `Xex2LoadImage`; a failure returns an empty image. -/
def loadNormal (sha1 : Bytes → Bytes) (srcData info : Bytes) (dataSize headerSize : Nat) :
    Except (Stop Unit) Bytes :=
  deblock sha1 () srcData info (unsigned 32 ((dataSize : Int) - headerSize))

/-- The loop in `XexPatcher::apply`. -/
def gatherNormal (sha1 : Bytes → Bytes) (outBytes : Bytes) (headerTargetSize : Nat) (info : Bytes)
    (xexBytesSize headerSize : Nat) : Except (Stop Result) Bytes :=
  deblock sha1 .patchFailed (outBytes.drop headerTargetSize) info
    (unsigned 32 ((xexBytesSize : Int) - headerSize))

/-! ## Single passes -/

section Passes

variable {ρ : Type} {exe chunk compressBuffer : Bytes} {state : Gather} {chunkSize : Nat}

theorem gatherChunks_end (found : exe.number state.p 2 = some 0) :
    (gatherChunks exe state : Except (Stop ρ) Gather) = .ok { state with p := state.p + 2 } := by
  rw [gatherChunks]
  simp [found]

theorem gatherChunks_next (found : exe.number state.p 2 = some chunkSize) (more : chunkSize ≠ 0)
    (inside : exe.read (state.p + 2) chunkSize = some chunk)
    (written : state.compressBuffer.write state.d chunk = some compressBuffer) :
    (gatherChunks exe state : Except (Stop ρ) Gather) = gatherChunks exe {
      p := state.p + 2 + chunkSize, d := state.d + chunkSize, compressBuffer } := by
  rw [gatherChunks]
  simp only [found, if_neg more]
  split
  next none => simp [inside] at none
  next taken =>
    obtain rfl : _ = chunk := Option.some.inj (taken.symm.trans inside)
    rw [written]

/-- A chunk for which the buffer has no room. -/
theorem gatherChunks_full (found : exe.number state.p 2 = some chunkSize) (more : chunkSize ≠ 0)
    (inside : exe.read (state.p + 2) chunkSize = some chunk)
    (full : state.compressBuffer.write state.d chunk = none) :
    (gatherChunks exe state : Except (Stop ρ) Gather) = .error .outside := by
  rw [gatherChunks]
  simp only [found, if_neg more]
  split
  next => rfl
  next taken =>
    obtain rfl : _ = chunk := Option.some.inj (taken.symm.trans inside)
    rw [full]

end Passes

section Blocks

variable {ρ : Type} {sha1 : Bytes → Bytes} {failure : ρ} {exe content recorded : Bytes}
  {state : Chain} {size : Nat}

theorem gatherBlocks_end (found : blockSize state.blocks = some 0) :
    gatherBlocks sha1 failure exe state = .ok state := by
  rw [gatherBlocks]
  simp [found]

theorem gatherBlocks_mismatch (found : blockSize state.blocks = some size) (more : size ≠ 0)
    (inside : exe.read state.p size = some content) (hash : blockHash state.blocks = some recorded)
    (other : sha1 content ≠ recorded) :
    gatherBlocks sha1 failure exe state = .error (.returned failure) := by
  rw [gatherBlocks]
  simp only [found, if_neg more, hash]
  split
  next none => simp [inside] at none
  next taken =>
    obtain rfl : _ = content := Option.some.inj (taken.symm.trans inside)
    rw [if_pos other]

theorem gatherBlocks_match (found : blockSize state.blocks = some size) (more : size ≠ 0)
    (inside : exe.read state.p size = some content) (hash : blockHash state.blocks = some recorded)
    (same : sha1 content = recorded) :
    gatherBlocks sha1 failure exe state =
      match gatherChunks exe { state with p := state.p + 4 + 20 } with
      | .error stop => .error stop
      | .ok chunks => gatherBlocks sha1 failure exe {
          chunks with p := state.p + size, blocks := exe.drop state.p } := by
  rw [gatherBlocks]
  simp only [found, if_neg more, hash]
  split
  next none => simp [inside] at none
  next taken =>
    obtain rfl : _ = content := Option.some.inj (taken.symm.trans inside)
    rw [if_neg (fun differs => differs same)]

end Blocks

/-! ## Longer input -/

/-- Bytes behind the input do not change what is gathered from it. -/
theorem gatherChunks_append {ρ ρ' : Type} {exe : Bytes} {state last : Gather} (behind : Bytes)
    (run : (gatherChunks exe state : Except (Stop ρ) Gather) = .ok last) :
    (gatherChunks (exe ++ behind) state : Except (Stop ρ') Gather) = .ok last := by
  fun_induction @gatherChunks ρ exe state with
  | case1 => cases run
  | case2 state found =>
      cases run
      exact gatherChunks_end (Bytes.number_append_of_some found behind)
  | case3 => cases run
  | case4 => cases run
  | case5 state chunkSize found more chunk inside compressBuffer written ih =>
      rw [gatherChunks_next (Bytes.number_append_of_some found behind) more
        (Bytes.read_append_of_some inside behind) written]
      exact ih run

theorem gatherBlocks_append {ρ ρ' : Type} {sha1 : Bytes → Bytes} {failure : ρ} {failure' : ρ'}
    {exe : Bytes} {state last : Chain} (behind more : Bytes)
    (run : gatherBlocks sha1 failure exe state = .ok last) :
    ∃ last', gatherBlocks sha1 failure' (exe ++ behind)
        { state with blocks := state.blocks ++ more } = .ok last' ∧
      last'.toGather = last.toGather := by
  fun_induction @gatherBlocks ρ sha1 failure exe state generalizing more with
  | case2 state found =>
      cases run
      exact ⟨_, gatherBlocks_end (Bytes.number_append_of_some found more), rfl⟩
  | case7 state size found nonzero content inside recorded hash same chunks gathered ih =>
      obtain ⟨last', rest, cursors⟩ := ih behind run
      refine ⟨last', ?_, cursors⟩
      have room := (Bytes.read_eq_some.mp inside).1
      have step := @gatherBlocks_match ρ' sha1 failure' (exe ++ behind) content recorded
        { state with blocks := state.blocks ++ more } size
        (Bytes.number_append_of_some found more) nonzero
        (Bytes.read_append_of_some inside behind) (Bytes.read_append_of_some hash more)
        (not_not.mp same)
      simp only [gatherChunks_append behind gathered] at step
      rw [step, List.drop_append_of_le_length (by omega)]
      exact rest
  | _ => cases run

/-- The stream gathered from a longer input into a buffer of the same length. -/
theorem deblock_append {ρ ρ' : Type} {sha1 : Bytes → Bytes} {failure : ρ} {failure' : ρ'}
    {exe info stream : Bytes} {exeLength : Nat} (behind : Bytes)
    (run : deblock sha1 failure exe info exeLength = .ok stream) :
    deblock sha1 failure' (exe ++ behind) info exeLength = .ok stream := by
  unfold deblock at run
  cases gathered : gatherBlocks sha1 failure exe {
      p := 0, d := 0, compressBuffer := Bytes.zeros exeLength, blocks := firstBlock info } with
  | error stop => simp [gathered, bind, Except.bind] at run
  | ok last =>
      simp only [gathered, bind, Except.bind, pure, Except.pure] at run
      obtain ⟨last', gathered', cursors⟩ := @gatherBlocks_append ρ ρ' sha1 failure failure' exe _ last
        behind [] gathered
      simp only [List.append_nil] at gathered'
      simp only [deblock, gathered', bind, Except.bind, pure, Except.pure, cursors]
      exact congrArg Except.ok (Except.ok.inj run)

/-! ## The encoding -/

/-- A piece of the stream; its length is stored in two bytes and zero is the terminator. -/
structure Chunk where
  payload : Bytes
  nonempty : payload ≠ []
  short : payload.length < 65536

/-- A block to be stored, with the hash that is recorded for it. -/
structure StoredBlock where
  chunks : List Chunk
  padding : Bytes
  recorded : Bytes
  recorded_length : recorded.length = 20

def Chunk.encode (chunk : Chunk) : Bytes := Bytes.encode 2 chunk.payload.length ++ chunk.payload

namespace StoredBlock

variable (block : StoredBlock)

def payload : Bytes := block.chunks.flatMap Chunk.payload

/-- The block without the header of the next one. -/
def body : Bytes := block.chunks.flatMap Chunk.encode ++ Bytes.encode 2 0 ++ block.padding

/-- `blockSize`. -/
def size : Nat := blockInfoSize + block.body.length

end StoredBlock

/-- The block information in front of the blocks that are left; the last one has size 0, and
`final` in place of a hash. -/
def blockHeader (final : Bytes) : List StoredBlock → Bytes
  | [] => Bytes.encode 4 0 ++ final
  | block :: _ => Bytes.encode 4 block.size ++ block.recorded

/-- The bytes of the first block that is left. -/
def StoredBlock.content (final : Bytes) (block : StoredBlock) (rest : List StoredBlock) : Bytes :=
  blockHeader final rest ++ block.body

/-- All blocks. -/
def encodeBlocks (final : Bytes) : List StoredBlock → Bytes
  | [] => []
  | block :: rest => block.content final rest ++ encodeBlocks final rest

/-- Every block has the hash that is recorded for it. -/
def Recorded (sha1 : Bytes → Bytes) (final : Bytes) : List StoredBlock → Prop
  | [] => True
  | block :: rest => sha1 (block.content final rest) = block.recorded ∧ Recorded sha1 final rest

/-- The concatenation of all chunk payloads. -/
def streamOf (blocks : List StoredBlock) : Bytes := blocks.flatMap StoredBlock.payload

variable {final : Bytes}

theorem Chunk.length_pos (chunk : Chunk) : 0 < chunk.payload.length :=
  List.length_pos_iff.mpr chunk.nonempty

@[simp] theorem Chunk.length_encode (chunk : Chunk) :
    chunk.encode.length = 2 + chunk.payload.length := by
  simp [Chunk.encode]

theorem length_blockHeader (finalLength : final.length = 20) (blocks : List StoredBlock) :
    (blockHeader final blocks).length = blockInfoSize := by
  cases blocks with
  | nil => simp [blockHeader, finalLength, blockInfoSize]
  | cons block blocks => simp [blockHeader, block.recorded_length, blockInfoSize]

theorem StoredBlock.length_content (finalLength : final.length = 20) (block : StoredBlock)
    (rest : List StoredBlock) : (block.content final rest).length = block.size := by
  rw [content, List.length_append, length_blockHeader finalLength, size]

theorem StoredBlock.size_pos (block : StoredBlock) : 0 < block.size := by
  rw [size, blockInfoSize]
  omega

/-- The payload of a block is shorter than the block. -/
theorem StoredBlock.length_payload_le (block : StoredBlock) :
    block.payload.length ≤ block.size := by
  have chunks : (block.chunks.flatMap Chunk.payload).length ≤
      (block.chunks.flatMap Chunk.encode).length := by
    induction block.chunks with
    | nil => simp
    | cons chunk chunks ih =>
        simp only [List.flatMap_cons, List.length_append, Chunk.length_encode]
        omega
  simp only [payload, size, body, List.length_append]
  omega

/-- The stream is no longer than its encoding. -/
theorem length_streamOf_le (finalLength : final.length = 20) (blocks : List StoredBlock) :
    (streamOf blocks).length ≤ (encodeBlocks final blocks).length := by
  induction blocks with
  | nil => simp [streamOf]
  | cons block blocks ih =>
      have first := block.length_payload_le
      simp only [streamOf, List.flatMap_cons, encodeBlocks, List.length_append,
        block.length_content finalLength] at ih ⊢
      omega

/-! ## Gathering inverts the encoding -/

/-- A chunk at the cursor. -/
theorem chunk_at (front behind : Bytes) (chunk : Chunk) :
    (front ++ chunk.encode ++ behind).number front.length 2 = some chunk.payload.length ∧
      (front ++ chunk.encode ++ behind).read (front.length + 2) chunk.payload.length =
        some chunk.payload := by
  constructor
  · have parts : front ++ chunk.encode ++ behind =
        front ++ Bytes.encode 2 chunk.payload.length ++ (chunk.payload ++ behind) := by
      simp [Chunk.encode]
    rw [parts, Bytes.number_append rfl (by simp), Bytes.value_encode_of_lt chunk.short]
  · have parts : front ++ chunk.encode ++ behind =
        (front ++ Bytes.encode 2 chunk.payload.length) ++ chunk.payload ++ behind := by
      simp [Chunk.encode]
    rw [parts]
    exact Bytes.read_append (by simp) rfl

/-- The chunks of a block, behind anything and with anything behind the terminator. -/
theorem gatherChunks_run {ρ : Type} (chunks : List Chunk) {front behind done free : Bytes}
    (room : (chunks.flatMap Chunk.payload).length ≤ free.length) :
    ∃ p, (gatherChunks
        (front ++ (chunks.flatMap Chunk.encode ++ Bytes.encode 2 0 ++ behind))
        ⟨front.length, done.length, done ++ free⟩ : Except (Stop ρ) Gather) =
      .ok ⟨p, (done ++ chunks.flatMap Chunk.payload).length,
        done ++ chunks.flatMap Chunk.payload ++
          free.drop (chunks.flatMap Chunk.payload).length⟩ := by
  induction chunks generalizing front done free with
  | nil =>
      refine ⟨front.length + 2, (gatherChunks_end ?_).trans (by simp)⟩
      rw [List.flatMap_nil, List.nil_append, ← List.append_assoc, Bytes.number_append rfl (by simp)]
      rfl
  | cons chunk chunks ih =>
      simp only [List.flatMap_cons, List.length_append] at room
      obtain ⟨size, inside⟩ := chunk_at front
        (chunks.flatMap Chunk.encode ++ Bytes.encode 2 0 ++ behind) chunk
      obtain ⟨slot, free, rfl, slotSize⟩ :
          ∃ slot rest, free = slot ++ rest ∧ slot.length = chunk.payload.length :=
        ⟨_, _, (List.take_append_drop chunk.payload.length free).symm, by simp; omega⟩
      have written : (done ++ (slot ++ free)).write done.length chunk.payload =
          some (done ++ chunk.payload ++ free) := by
        rw [← List.append_assoc]
        exact Bytes.write_append rfl slotSize.symm
      obtain ⟨p, run⟩ := @ih (front ++ chunk.encode) (done ++ chunk.payload) free (by
        simp only [List.length_append] at room
        omega)
      refine ⟨p, ?_⟩
      have parts : front ++ ((chunk :: chunks).flatMap Chunk.encode ++ Bytes.encode 2 0 ++ behind) =
          front ++ chunk.encode ++ (chunks.flatMap Chunk.encode ++ Bytes.encode 2 0 ++ behind) := by
        simp
      rw [parts, gatherChunks_next size chunk.length_pos.ne' inside written]
      simp only [List.length_append, Chunk.length_encode, List.flatMap_cons] at run ⊢
      rw [← Nat.add_assoc] at run
      rw [run]
      simp [← slotSize, List.drop_append, Nat.add_assoc]

/-- The information of the next block, wherever the pointer to it leads. -/
theorem blockHeader_cons (block : StoredBlock) (rest : List StoredBlock) (tail : Bytes)
    (small : block.size < 2 ^ 32) :
    blockSize (blockHeader final (block :: rest) ++ tail) = some block.size ∧
      blockHash (blockHeader final (block :: rest) ++ tail) = some block.recorded := by
  constructor
  · have parts : blockHeader final (block :: rest) ++ tail =
        [] ++ Bytes.encode 4 block.size ++ (block.recorded ++ tail) := by
      simp [blockHeader]
    rw [blockSize, parts, Bytes.number_append List.length_nil.symm (by simp),
      Bytes.value_encode_of_lt small]
  · exact Bytes.read_append (by simp) block.recorded_length.symm

theorem blockHeader_nil (tail : Bytes) : blockSize (blockHeader final [] ++ tail) = some 0 := by
  have parts : blockHeader final [] ++ tail = [] ++ Bytes.encode 4 0 ++ (final ++ tail) := by
    simp [blockHeader]
  rw [blockSize, parts, Bytes.number_append List.length_nil.symm (by simp)]
  rfl

/-- A block at the cursor. -/
theorem content_at (finalLength : final.length = 20) (front behind : Bytes) (block : StoredBlock)
    (rest : List StoredBlock) :
    (front ++ encodeBlocks final (block :: rest) ++ behind).read front.length block.size =
      some (block.content final rest) := by
  have parts : front ++ encodeBlocks final (block :: rest) ++ behind =
      front ++ block.content final rest ++ (encodeBlocks final rest ++ behind) := by
    simp [encodeBlocks]
  rw [parts]
  exact Bytes.read_append rfl (block.length_content finalLength rest).symm

/-- The chunks of a block lie behind the information of the next block. -/
theorem encodeBlocks_parts (front behind : Bytes) (block : StoredBlock) (rest : List StoredBlock) :
    front ++ encodeBlocks final (block :: rest) ++ behind =
      front ++ blockHeader final rest ++ (block.chunks.flatMap Chunk.encode ++ Bytes.encode 2 0 ++
        (block.padding ++ encodeBlocks final rest ++ behind)) := by
  simp [encodeBlocks, StoredBlock.content, StoredBlock.body]

/-- The next block starts with the information that the pointer is set to. -/
theorem drop_encodeBlocks (front behind : Bytes) (block : StoredBlock) (rest : List StoredBlock) :
    (front ++ encodeBlocks final (block :: rest) ++ behind).drop front.length =
      blockHeader final rest ++ (block.body ++ encodeBlocks final rest ++ behind) := by
  rw [List.append_assoc, List.drop_left]
  simp [encodeBlocks, StoredBlock.content]

/-- The whole chain, behind anything and with anything behind it. -/
theorem gatherBlocks_run {ρ : Type} {sha1 : Bytes → Bytes} {failure : ρ}
    (finalLength : final.length = 20) (blocks : List StoredBlock)
    (small : ∀ block ∈ blocks, block.size < 2 ^ 32) {front behind done free tail : Bytes}
    (room : (streamOf blocks).length ≤ free.length) :
    (Recorded sha1 final blocks → ∃ last,
      gatherBlocks sha1 failure (front ++ encodeBlocks final blocks ++ behind)
        ⟨⟨front.length, done.length, done ++ free⟩, blockHeader final blocks ++ tail⟩ = .ok last ∧
      last.d = (done ++ streamOf blocks).length ∧
      last.compressBuffer = done ++ streamOf blocks ++ free.drop (streamOf blocks).length) ∧
    (¬ Recorded sha1 final blocks →
      gatherBlocks sha1 failure (front ++ encodeBlocks final blocks ++ behind)
        ⟨⟨front.length, done.length, done ++ free⟩, blockHeader final blocks ++ tail⟩ =
          .error (.returned failure)) := by
  induction blocks generalizing front done free tail with
  | nil =>
      constructor
      · intro _
        exact ⟨_, gatherBlocks_end (blockHeader_nil tail), by simp [streamOf], by simp [streamOf]⟩
      · exact fun bad => absurd trivial bad
  | cons block rest ih =>
      obtain ⟨size, hash⟩ := @blockHeader_cons final block rest tail (small block (by simp))
      have content := content_at finalLength front behind block rest
      have streamSize : (streamOf (block :: rest)).length =
          block.payload.length + (streamOf rest).length := by
        simp [streamOf]
      by_cases same : sha1 (block.content final rest) = block.recorded
      · obtain ⟨p, chunks⟩ := @gatherChunks_run ρ block.chunks (front ++ blockHeader final rest)
          (block.padding ++ encodeBlocks final rest ++ behind) done free (by
            change block.payload.length ≤ _
            omega)
        rw [← encodeBlocks_parts, List.length_append, length_blockHeader finalLength] at chunks
        have next := @ih (fun other member => small other (by simp [member]))
          (front ++ block.content final rest) (done ++ block.payload)
          (free.drop block.payload.length) (block.body ++ encodeBlocks final rest ++ behind) (by
            rw [List.length_drop]
            omega)
        have step := @gatherBlocks_match ρ sha1 failure _ _ _
          ⟨⟨front.length, done.length, done ++ free⟩, blockHeader final (block :: rest) ++ tail⟩ _
          size block.size_pos.ne' content hash same
        have shifted : front ++ block.content final rest ++ encodeBlocks final rest ++ behind =
            front ++ encodeBlocks final (block :: rest) ++ behind := by
          simp [encodeBlocks]
        have stream : done ++ block.payload ++ streamOf rest = done ++ streamOf (block :: rest) := by
          simp [streamOf]
        have left : (free.drop block.payload.length).drop (streamOf rest).length =
            free.drop (streamOf (block :: rest)).length := by
          rw [List.drop_drop, streamSize]
        simp only [drop_encodeBlocks] at step
        rw [show front.length + 4 + 20 = front.length + blockInfoSize from rfl, chunks] at step
        rw [shifted, @List.length_append _ front, block.length_content finalLength] at next
        rw [stream, left] at next
        constructor
        · rintro ⟨-, recorded⟩
          obtain ⟨last, run, filled⟩ := next.1 recorded
          exact ⟨last, step.trans run, filled⟩
        · intro bad
          exact step.trans (next.2 fun recorded => bad ⟨same, recorded⟩)
      · have step := @gatherBlocks_mismatch ρ sha1 failure _ _ _
          ⟨⟨front.length, done.length, done ++ free⟩, blockHeader final (block :: rest) ++ tail⟩ _
          size block.size_pos.ne' content hash same
        exact ⟨fun recorded => absurd recorded.1 same, fun _ => step⟩

/-! ## The loader and the patcher -/

/-- A file format information with the chain behind it. -/
def encodeNormalInfo (infoSize encryptionType compressionType windowSize : Nat) (final : Bytes)
    (blocks : List StoredBlock) : Bytes :=
  Bytes.encode 4 infoSize ++ Bytes.encode 2 encryptionType ++ Bytes.encode 2 compressionType ++
    Bytes.encode 4 windowSize ++ blockHeader final blocks

theorem firstBlock_encode (infoSize encryptionType compressionType windowSize : Nat)
    (blocks : List StoredBlock) (tail : Bytes) :
    firstBlock (encodeNormalInfo infoSize encryptionType compressionType windowSize final blocks ++
      tail) = blockHeader final blocks ++ tail := by
  rw [encodeNormalInfo, firstBlock, List.append_assoc _ (blockHeader _ _)]
  apply List.drop_left'
  simp [fileFormatInfoSize]

theorem StoredBlock.size_le (finalLength : final.length = 20) {blocks : List StoredBlock}
    {block : StoredBlock} (member : block ∈ blocks) :
    block.size ≤ (encodeBlocks final blocks).length := by
  induction blocks with
  | nil => cases member
  | cons first rest ih =>
      rw [encodeBlocks, List.length_append, first.length_content finalLength]
      rcases List.mem_cons.mp member with rfl | later
      · omega
      · have := ih later
        omega

/-- Both buffers are as long as the encoded input. -/
theorem deblock_run {ρ : Type} {sha1 : Bytes → Bytes} {failure : ρ} {info tail : Bytes}
    {blocks : List StoredBlock} (finalLength : final.length = 20)
    (small : (encodeBlocks final blocks).length < 2 ^ 32)
    (first : firstBlock info = blockHeader final blocks ++ tail) (behind : Bytes) :
    (Recorded sha1 final blocks →
      deblock sha1 failure (encodeBlocks final blocks ++ behind) info
        (encodeBlocks final blocks).length = .ok (streamOf blocks)) ∧
    (¬ Recorded sha1 final blocks →
      deblock sha1 failure (encodeBlocks final blocks ++ behind) info
        (encodeBlocks final blocks).length = .error (.returned failure)) := by
  have run := @gatherBlocks_run final ρ sha1 failure finalLength blocks
    (fun block member => Nat.lt_of_le_of_lt (block.size_le finalLength member) small)
    [] behind [] (Bytes.zeros (encodeBlocks final blocks).length) tail (by
      rw [List.length_replicate]
      exact length_streamOf_le finalLength blocks)
  simp only [List.nil_append, List.length_nil] at run
  constructor
  · intro recorded
    obtain ⟨last, loop, length, filled⟩ := run.1 recorded
    simp only [deblock, first, loop, bind, Except.bind, length, filled, List.take_left]
    rfl
  · intro bad
    simp only [deblock, first, run.2 bad, bind, Except.bind]

/-- Gathering gives back the stream of any list of blocks whose encoding is shorter than 4 GiB
when every block has the hash recorded for it, and fails otherwise. -/
theorem deblock_encoded (sha1 : Bytes → Bytes) (blocks : List StoredBlock)
    (finalLength : final.length = 20) (small : (encodeBlocks final blocks).length < 2 ^ 32)
    (infoSize encryptionType compressionType windowSize headerSize : Nat)
    (tail header behind : Bytes) :
    let info := encodeNormalInfo infoSize encryptionType compressionType windowSize final blocks ++
      tail
    let size := headerSize + (encodeBlocks final blocks).length
    (Recorded sha1 final blocks →
      loadNormal sha1 (encodeBlocks final blocks) info size headerSize = .ok (streamOf blocks) ∧
      gatherNormal sha1 (header ++ encodeBlocks final blocks ++ behind) header.length info size
        headerSize = .ok (streamOf blocks)) ∧
    (¬ Recorded sha1 final blocks →
      loadNormal sha1 (encodeBlocks final blocks) info size headerSize = .error (.returned ()) ∧
      gatherNormal sha1 (header ++ encodeBlocks final blocks ++ behind) header.length info size
        headerSize = .error (.returned .patchFailed)) := by
  intro info size
  have first : firstBlock info = blockHeader final blocks ++ tail := firstBlock_encode ..
  have exeLength : unsigned 32 ((size : Int) - headerSize) = (encodeBlocks final blocks).length := by
    have difference : (size : Int) - headerSize = ((encodeBlocks final blocks).length : Int) := by
      simp [size]
    rw [difference, unsigned_of_lt small]
  have loader := @deblock_run final Unit sha1 () info tail blocks finalLength small first []
  have patcher := @deblock_run final Result sha1 .patchFailed info tail blocks finalLength small
    first behind
  rw [List.append_nil] at loader
  simp only [loadNormal, gatherNormal, exeLength, List.append_assoc header, List.drop_left]
  exact ⟨fun recorded => ⟨loader.1 recorded, patcher.1 recorded⟩,
    fun bad => ⟨loader.2 bad, patcher.2 bad⟩⟩

/-- The sum of the bytes, as long as a hash. -/
def checksum (bytes : Bytes) : Bytes := Bytes.zeros 19 ++ [bytes.foldl (· + ·) 0]

/-- A block with its sum recorded, in front of others. -/
def summedBlock (chunks : List Chunk) (padding : Bytes) (rest : List StoredBlock) : StoredBlock where
  chunks := chunks
  padding := padding
  recorded := checksum (blockHeader (Bytes.zeros 20) rest ++
    (chunks.flatMap Chunk.encode ++ Bytes.encode 2 0 ++ padding))
  recorded_length := by simp [checksum, Bytes.zeros]

/-- A block of two chunks in front of a block of one. -/
def twoBlocks : List StoredBlock :=
  let last := summedBlock [⟨[1, 2, 3], by decide, by decide⟩] [] []
  [summedBlock [⟨[7, 8], by decide, by decide⟩, ⟨[9], by decide, by decide⟩] [0] [last], last]

/-- Both sums are right, and the blocks are gathered from behind a header of one byte. -/
theorem deblock_encoded_twoBlocks :
    loadNormal checksum (encodeBlocks (Bytes.zeros 20) twoBlocks)
        (encodeNormalInfo 36 0 2 0x8000 (Bytes.zeros 20) twoBlocks ++ [])
        (1 + (encodeBlocks (Bytes.zeros 20) twoBlocks).length) 1 = .ok [7, 8, 9, 1, 2, 3] ∧
      gatherNormal checksum ([9] ++ encodeBlocks (Bytes.zeros 20) twoBlocks ++ [0]) [9].length
        (encodeNormalInfo 36 0 2 0x8000 (Bytes.zeros 20) twoBlocks ++ [])
        (1 + (encodeBlocks (Bytes.zeros 20) twoBlocks).length) 1 = .ok [7, 8, 9, 1, 2, 3] :=
  (deblock_encoded checksum twoBlocks (by decide) (by decide) 36 0 2 0x8000 1 [] [9] [0]).1
    ⟨rfl, rfl, trivial⟩

/-- A block of one chunk with a given amount of padding. -/
def paddedBlock (padding : Nat) : StoredBlock where
  chunks := [⟨[7], by decide, by decide⟩]
  padding := Bytes.zeros padding
  recorded := Bytes.zeros 20
  recorded_length := List.length_replicate

theorem paddedBlock_size (padding : Nat) : (paddedBlock padding).size = 29 + padding := by
  simp [StoredBlock.size, StoredBlock.body, paddedBlock, blockInfoSize]
  omega

/-- Without a buffer there is no room for the first chunk. -/
theorem loadNormal_full {padding size headerSize : Nat} (rest : List StoredBlock) (tail : Bytes)
    (small : (paddedBlock padding).size < 2 ^ 32)
    (empty : unsigned 32 ((size : Int) - headerSize) = 0) :
    loadNormal (fun _ => Bytes.zeros 20)
      (encodeBlocks (Bytes.zeros 20) (paddedBlock padding :: rest))
      (encodeNormalInfo 36 0 2 0x8000 (Bytes.zeros 20) (paddedBlock padding :: rest) ++ tail)
      size headerSize = .error .outside := by
  have finalLength : (Bytes.zeros 20).length = 20 := List.length_replicate
  obtain ⟨found, hash⟩ := @blockHeader_cons (Bytes.zeros 20) (paddedBlock padding) rest tail small
  have content := content_at finalLength [] [] (paddedBlock padding) rest
  have parts := @encodeBlocks_parts (Bytes.zeros 20) [] [] (paddedBlock padding) rest
  simp only [List.nil_append, List.append_nil] at content parts
  have first : firstBlock (encodeNormalInfo 36 0 2 0x8000 (Bytes.zeros 20)
      (paddedBlock padding :: rest) ++ tail) = blockHeader (Bytes.zeros 20)
        (paddedBlock padding :: rest) ++ tail := firstBlock_encode ..
  obtain ⟨length, inside⟩ := chunk_at (blockHeader (Bytes.zeros 20) rest)
    (Bytes.encode 2 0 ++ ((paddedBlock padding).padding ++ encodeBlocks (Bytes.zeros 20) rest))
    ⟨[7], by decide, by decide⟩
  have chunks : (gatherChunks (encodeBlocks (Bytes.zeros 20) (paddedBlock padding :: rest))
      ⟨0 + 4 + 20, 0, Bytes.zeros 0⟩ : Except (Stop Unit) Gather) = .error .outside := by
    rw [length_blockHeader finalLength] at length inside
    have place : blockHeader (Bytes.zeros 20) rest ++ Chunk.encode ⟨[7], by decide, by decide⟩ ++
        (Bytes.encode 2 0 ++ ((paddedBlock padding).padding ++ encodeBlocks (Bytes.zeros 20) rest)) =
        encodeBlocks (Bytes.zeros 20) (paddedBlock padding :: rest) := by
      rw [parts]
      simp [paddedBlock]
    rw [place] at length inside
    exact gatherChunks_full length (by decide) inside rfl
  have step := @gatherBlocks_match Unit (fun _ => Bytes.zeros 20) () _ _ _
    ⟨⟨0, 0, Bytes.zeros 0⟩, blockHeader (Bytes.zeros 20) (paddedBlock padding :: rest) ++ tail⟩ _
    found (paddedBlock padding).size_pos.ne' content hash rfl
  simp only [chunks] at step
  simp only [loadNormal, deblock, empty, first, step, bind, Except.bind]

/-- An encoding of 4 GiB: the length of the buffer for the stream wraps around to zero. -/
theorem not_deblock_encoded :
    (encodeBlocks (Bytes.zeros 20) [paddedBlock (2 ^ 31 - 29), paddedBlock (2 ^ 31 - 29)]).length =
        2 ^ 32 ∧
      Recorded (fun _ => Bytes.zeros 20) (Bytes.zeros 20)
        [paddedBlock (2 ^ 31 - 29), paddedBlock (2 ^ 31 - 29)] ∧
      loadNormal (fun _ => Bytes.zeros 20)
        (encodeBlocks (Bytes.zeros 20) [paddedBlock (2 ^ 31 - 29), paddedBlock (2 ^ 31 - 29)])
        (encodeNormalInfo 36 0 2 0x8000 (Bytes.zeros 20)
          [paddedBlock (2 ^ 31 - 29), paddedBlock (2 ^ 31 - 29)] ++ [])
        (2 ^ 32) 0 = .error .outside := by
  have finalLength : (Bytes.zeros 20).length = 20 := List.length_replicate
  constructor
  · rw [encodeBlocks, encodeBlocks, encodeBlocks, List.length_append, List.length_append,
      StoredBlock.length_content finalLength, StoredBlock.length_content finalLength,
      paddedBlock_size, List.length_nil]
    decide
  · constructor
    · exact ⟨rfl, rfl, trivial⟩
    · apply loadNormal_full
      · rw [paddedBlock_size]
        decide
      · decide

end UfcRecomp.Xex
