import UfcRecomp.Xex.Patcher

/-!
# Staging the base image

The blocks of the delta refer to the base image behind the patched header. The patcher makes room
there for the new image, copies the data of the base file into it and decompresses the data in
place. Nothing but the basic branch compares a size with that room, and a stream under normal
compression is decompressed behind the larger of the two headers, which is the patched one only if
the base header is not larger.
-/

namespace UfcRecomp.Xex

open UfcRecomp.Lib

/-! ## What the base file stands for -/

/-- The data behind the header of a file, decrypted. -/
def decryptedData (codec : Codec) (xexBytes : Bytes) (headerSize info : Nat) : Option Bytes := do
  let encryptionType ← xexBytes.number (info + 4) 2
  let key ← securityAesKey xexBytes
  if encryptionType = 1 then
    return codec.aesCbcDecrypt (codec.aesCbcDecrypt xex2RetailKey key) (xexBytes.drop headerSize)
  else return xexBytes.drop headerSize

/-- The image that the loader makes of the data of a file. -/
inductive StoredImage (codec : Codec) (xexBytes data : Bytes) (headerSize info : Nat) :
    Bytes → Prop where
  | none {imageSize image} (type : xexBytes.number (info + 6) 2 = some 0)
      (size : securityImageSize xexBytes = some imageSize)
      (copied : data.read 0 imageSize = some image) :
      StoredImage codec xexBytes data headerSize info image
  | basic {blocks} (type : xexBytes.number (info + 6) 2 = some 1)
      (declared : Declares (xexBytes.drop info) blocks) (enough : dataTotal blocks ≤ data.length)
      (small : dataTotal blocks + zeroTotal blocks < 2 ^ 31) :
      StoredImage codec xexBytes data headerSize info (basicImage blocks data)
  | normal {stream windowSize imageSize image} (type : xexBytes.number (info + 6) 2 = some 2)
      (gathered : loadNormal codec.sha1 data (xexBytes.drop info) xexBytes.length headerSize =
        .ok stream)
      (size : securityImageSize xexBytes = some imageSize)
      (window : Xex.windowSize (xexBytes.drop info) = some windowSize)
      (decompressed : codec.lzxDecompress stream imageSize windowSize none = some image) :
      StoredImage codec xexBytes data headerSize info image

/-- A base file with a header of a given size, its data and its image. -/
structure BaseFile (codec : Codec) (xexBytes : Bytes) (headerSize info : Nat)
    (data image : Bytes) : Prop where
  header_le : headerSize ≤ xexBytes.length
  length_lt : xexBytes.length < 2 ^ 64
  format : getOptHeaderPtr xexBytes xexHeaderFileFormatInfo = some (some info)
  decrypted : decryptedData codec xexBytes headerSize info = some data
  stored : StoredImage codec xexBytes data headerSize info image

theorem BaseFile.length_data {codec : Codec} {xexBytes data image : Bytes} {headerSize info : Nat}
    (base : BaseFile codec xexBytes headerSize info data image) :
    data.length = xexBytes.length - headerSize := by
  have found := base.decrypted
  simp only [decryptedData, Option.bind_eq_bind, Option.bind_eq_some_iff] at found
  obtain ⟨_, _, _, _, plain⟩ := found
  split at plain
  · cases plain
    rw [codec.length_aesCbcDecrypt, List.length_drop]
  · cases plain
    rw [List.length_drop]

/-! ## The steps -/

/-- The buffer behind the copy of the data: the patched header, some bytes, and the rest of the
room for the new image. -/
def Patched.holding (patched : Patched) (newImageSize : Nat) (bytes : Bytes) : Bytes :=
  patched.outBytes ++ (bytes ++ Bytes.zeros (newImageSize - bytes.length))

/-- How far the larger of the two headers is behind the patched one. -/
def Patched.headerExcess (patched : Patched) : Nat :=
  patched.newXexHeaderSize - patched.headerTargetSize

/-- The header in the buffer is the patched one, and the image is behind it. -/
structure Patched.Holds (patched : Patched) (image outBytes : Bytes) : Prop where
  header : outBytes.take patched.headerTargetSize = patched.outBytes
  image : ∀ j < image.length, outBytes[patched.headerTargetSize + j]? = image[j]?

/-- The stream under normal compression is decompressed to where the image belongs: into the room
for the new image, and, where the base header is the larger one, over bytes that agree with it. -/
structure Patched.Lands (patched : Patched) (newImageSize : Nat) (data image : Bytes) : Prop where
  room : patched.headerExcess + image.length ≤ newImageSize
  agrees : ∀ j < image.length, image[j]? =
    if j < patched.headerExcess then (data ++ Bytes.zeros (newImageSize - data.length))[j]?
    else image[j - patched.headerExcess]?

/-- The patched header is the header of a module: it declares the target size, and has a security
information and, behind its own fields, a file format information. -/
structure NewHeader (patched : Patched) (newImageSize newFileFormatInfo : Nat) : Prop where
  declared : headerSize patched.outBytes = some (Xex.headerTargetSize patched.descriptor)
  newSize : securityImageSize patched.outBytes = some newImageSize
  format : getOptHeaderPtr patched.outBytes xexHeaderFileFormatInfo = some (some newFileFormatInfo)
  behind : headerStructSize ≤ newFileFormatInfo
  inside : newFileFormatInfo + fileFormatInfoSize ≤ patched.headerTargetSize

/-- The range of the image that the delta refers to, and its new place, are in the new image, and do
not overlap when the range is moved at all. -/
def Patched.Moves (patched : Patched) (newImageSize : Nat) : Prop :=
  0 < patched.descriptor.deltaImageSourceOffset.toNat →
    Bytes.Apart patched.descriptor.deltaImageTargetOffset.toNat
      patched.descriptor.deltaImageSourceOffset.toNat
      patched.descriptor.deltaImageSourceSize.toNat ∧
    patched.descriptor.deltaImageSourceOffset.toNat +
      patched.descriptor.deltaImageSourceSize.toNat ≤ newImageSize ∧
    patched.descriptor.deltaImageTargetOffset.toNat +
      patched.descriptor.deltaImageSourceSize.toNat ≤ newImageSize

/-- When the image is staged: the data and the image fit into the new image, the security
information of the new header and of the patch are in their files, and a stream under normal
compression lands where the image belongs. -/
structure Patched.StagesImage (patched : Patched) (xexBytes patchBytes data image : Bytes)
    (newImageSize info : Nat) : Prop where
  dataFits : data.length ≤ newImageSize
  imageFits : image.length ≤ newImageSize
  secured : ∀ securityOffset, patched.outBytes.number 16 4 = some securityOffset →
    securityOffset + 352 ≤ patched.headerTargetSize + newImageSize
  patchSecured : (securityAesKey patchBytes).isSome
  lands : xexBytes.number (info + 6) 2 = some 2 → patched.Lands newImageSize data image

/-- When the first block of the delta finds the image: it is staged, the data of the patch is in its
file, and the range that the delta moves is in the new image. -/
structure Patched.ReachesDelta (patched : Patched) (xexBytes patchBytes data image : Bytes)
    (newImageSize info : Nat) : Prop
    extends patched.StagesImage xexBytes patchBytes data image newImageSize info where
  patchInside : ∃ size, headerSize patchBytes = some size ∧ size.toNat ≤ patchBytes.length
  moves : patched.Moves newImageSize

section Steps

variable {codec : Codec} {xexBytes patchBytes data image outBytes : Bytes} {patched : Patched}
  {newImageSize info : Nat}

theorem Patched.length_holding {bytes : Bytes}
    (length : patched.outBytes.length = patched.headerTargetSize)
    (fits : bytes.length ≤ newImageSize) :
    (patched.holding newImageSize bytes).length = patched.headerTargetSize + newImageSize := by
  rw [Patched.holding, List.length_append, List.length_append, List.length_replicate, length]
  omega

theorem Patched.newXexHeaderSize_excess :
    patched.newXexHeaderSize = patched.headerTargetSize + patched.headerExcess := by
  have larger : patched.headerTargetSize ≤ patched.newXexHeaderSize := by
    rw [Patched.newXexHeaderSize, newXexHeaderSize_eq]
    exact Nat.le_max_right ..
  rw [Patched.headerExcess]
  omega

/-- The data goes behind the header when it is not longer than the new image. -/
theorem copyData_eq (length : patched.outBytes.length = patched.headerTargetSize)
    (newSize : securityImageSize patched.outBytes = some newImageSize)
    (header_le : patched.baseHeaderSize.toNat ≤ xexBytes.length)
    (length_lt : xexBytes.length < 2 ^ 64) :
    patched.copyData xexBytes =
      if (xexBytes.drop patched.baseHeaderSize.toNat).length ≤ newImageSize then
        .ok (patched.holding newImageSize (xexBytes.drop patched.baseHeaderSize.toNat))
      else .error .overrun := by
  have dataSize : patched.dataSize xexBytes = xexBytes.length - patched.baseHeaderSize.toNat :=
    unsigned_sub header_le length_lt
  have resized : patched.outBytes.resize (patched.outBytes.length + newImageSize) =
      patched.outBytes ++ Bytes.zeros newImageSize := by
    rw [Bytes.resize, List.take_of_length_le (by omega), Nat.add_sub_cancel_left]
  have filled : (patched.outBytes ++ Bytes.zeros newImageSize).fill patched.headerTargetSize
      ((patched.outBytes ++ Bytes.zeros newImageSize).length - patched.headerTargetSize) =
      some (patched.outBytes ++ Bytes.zeros newImageSize) := by
    have parts := @Bytes.write_append patched.outBytes (Bytes.zeros newImageSize) []
      (Bytes.zeros newImageSize) patched.headerTargetSize length.symm rfl
    rw [List.append_nil] at parts
    rw [Bytes.fill, List.length_append, length, Nat.add_sub_cancel_left, List.length_replicate,
      parts]
  have stored : xexBytes.read patched.baseHeaderSize.toNat (patched.dataSize xexBytes) =
      some (xexBytes.drop patched.baseHeaderSize.toNat) := by
    rw [Bytes.read, dataSize, if_pos (by omega), List.take_of_length_le (by simp)]
  simp only [Patched.copyData, newSize, resized, filled, stored, access_some, overwrite_some, bind,
    Except.bind]
  split
  next fits =>
    have slots : Bytes.zeros newImageSize =
        Bytes.zeros (xexBytes.drop patched.baseHeaderSize.toNat).length ++
          Bytes.zeros (newImageSize - (xexBytes.drop patched.baseHeaderSize.toNat).length) := by
      rw [Bytes.zeros, Bytes.zeros, Bytes.zeros, List.replicate_append_replicate]
      congr 1
      omega
    rw [slots, ← List.append_assoc, Bytes.write_append length.symm (by simp), List.append_assoc]
    rfl
  next large =>
    rw [Bytes.write, if_neg (by rw [List.length_append, List.length_replicate]; omega)]
    rfl

/-- The keys are read in the buffer and in the patch. -/
theorem decryptKeys_cases {key : Bytes} (found : securityAesKey xexBytes = some key) :
    (((securityAesKey outBytes).isSome ∧ (securityAesKey patchBytes).isSome) ∧
      ((∃ patchKey, patched.decryptKeys codec xexBytes patchBytes outBytes =
          .ok (codec.aesCbcDecrypt xex2RetailKey key, patchKey)) ∨
        patched.decryptKeys codec xexBytes patchBytes outBytes =
          .error (.returned .patchIncompatible))) ∨
    ¬((securityAesKey outBytes).isSome ∧ (securityAesKey patchBytes).isSome) ∧
      patched.decryptKeys codec xexBytes patchBytes outBytes = .error .outside := by
  unfold Patched.decryptKeys
  rw [found]
  cases securityAesKey outBytes with
  | none => exact .inr ⟨by simp, rfl⟩
  | some newKey =>
      cases securityAesKey patchBytes with
      | none => exact .inr ⟨by simp, rfl⟩
      | some patchKey =>
          refine .inl ⟨⟨rfl, rfl⟩, ?_⟩
          simp only [access_some, bind, Except.bind]
          split
          next => exact .inr rfl
          next => exact .inl ⟨_, rfl⟩

/-- The data is decrypted in place. -/
theorem decryptBase_cases {key : Bytes}
    (length : patched.outBytes.length = patched.headerTargetSize)
    (header_le : patched.baseHeaderSize.toNat ≤ xexBytes.length)
    (length_lt : xexBytes.length < 2 ^ 64) (keyFound : securityAesKey xexBytes = some key)
    (decrypted : decryptedData codec xexBytes patched.baseHeaderSize.toNat info = some data) :
    patched.decryptBase codec xexBytes
        (patched.holding newImageSize (xexBytes.drop patched.baseHeaderSize.toNat))
        (codec.aesCbcDecrypt xex2RetailKey key) info = .ok (patched.holding newImageSize data) ∨
    patched.decryptBase codec xexBytes
        (patched.holding newImageSize (xexBytes.drop patched.baseHeaderSize.toNat))
        (codec.aesCbcDecrypt xex2RetailKey key) info = .error (.returned .xexFileInvalid) := by
  have dataSize : patched.dataSize xexBytes = xexBytes.length - patched.baseHeaderSize.toNat :=
    unsigned_sub header_le length_lt
  simp only [decryptedData, keyFound, Option.bind_eq_bind, Option.bind_eq_some_iff] at decrypted
  obtain ⟨encryptionType, type, key', same, plain⟩ := decrypted
  obtain rfl : key = key' := Option.some.inj same
  simp only [Patched.decryptBase, type, access_some, bind, Except.bind]
  by_cases normal : encryptionType = 1
  · rw [if_pos normal] at plain ⊢
    cases plain
    have size := codec.length_aesCbcDecrypt (codec.aesCbcDecrypt xex2RetailKey key)
      (xexBytes.drop patched.baseHeaderSize.toNat)
    left
    rw [Patched.holding, ← List.append_assoc,
      Bytes.read_append length.symm (by rw [dataSize, List.length_drop])]
    simp only [access_some]
    rw [Bytes.write_append length.symm size, Patched.holding, size, List.append_assoc]
    rfl
  · rw [if_neg normal] at plain ⊢
    cases plain
    by_cases other : encryptionType ≠ 0
    · exact .inr (by rw [if_pos other]; rfl)
    · exact .inl (by rw [if_neg other]; rfl)

/-- Bytes in front of others stand right behind the header. -/
theorem Patched.Holds.of_append (length : patched.outBytes.length = patched.headerTargetSize)
    (image rest : Bytes) : patched.Holds image (patched.outBytes ++ (image ++ rest)) where
  header := by rw [← length, List.take_left]
  image j inside := by
    rw [← length, List.getElem?_append_right (by omega), Nat.add_sub_cancel_left,
      List.getElem?_append_left inside]

/-- A buffer that holds an image has room for it. -/
theorem Patched.Holds.length_le (holds : patched.Holds image outBytes)
    (size : outBytes.length = patched.headerTargetSize + newImageSize) :
    image.length ≤ newImageSize := by
  by_contra longer
  have last := holds.image newImageSize (by omega)
  rw [List.getElem?_eq_none (by omega), List.getElem?_eq_getElem (by omega)] at last
  cases last

/-- Decryption keeps the size of the buffer. -/
theorem length_of_decryptBase {key after : Bytes} {fileFormatInfo : Nat}
    (run : patched.decryptBase codec xexBytes outBytes key fileFormatInfo = .ok after) :
    after.length = outBytes.length := by
  simp only [Patched.decryptBase, bind_eq_ok] at run
  obtain ⟨_, _, run⟩ := run
  split_ifs at run
  · simp only [bind_eq_ok, overwrite_eq_ok] at run
    obtain ⟨_, _, written⟩ := run
    exact Bytes.length_of_write written
  · cases run
    rfl

/-- So does decompression. -/
theorem length_of_decompressBase {after : Bytes} {fileFormatInfo : Nat}
    (run : patched.decompressBase codec xexBytes outBytes fileFormatInfo = .ok after) :
    after.length = outBytes.length := by
  simp only [Patched.decompressBase, bind_eq_ok] at run
  obtain ⟨_, _, run⟩ := run
  split at run
  next =>
    cases run
    rfl
  next => exact length_of_expandBasic run
  next =>
    simp only [bind_eq_ok] at run
    obtain ⟨_, _, _, _, _, _, run⟩ := run
    split at run
    next => cases run
    next => exact Bytes.length_of_write (overwrite_eq_ok.mp run)
  next => cases run
  next => cases run

/-- A write of the image behind the larger header leaves it where it belongs when it lands there. -/
theorem lands_iff (length : patched.outBytes.length = patched.headerTargetSize)
    (fits : data.length ≤ newImageSize) :
    (∃ after, (patched.holding newImageSize data).write patched.newXexHeaderSize image =
        some after ∧ patched.Holds image after) ↔
      image.length ≤ newImageSize ∧ patched.Lands newImageSize data image := by
  have size := patched.length_holding length fits
  have target := patched.newXexHeaderSize_excess
  rw [Bytes.write]
  by_cases room : patched.headerExcess + image.length ≤ newImageSize
  · have inside : patched.newXexHeaderSize + image.length ≤
        (patched.holding newImageSize data).length := by omega
    have behind : ∀ j < image.length, ((patched.holding newImageSize data).overlay
        patched.newXexHeaderSize image)[patched.headerTargetSize + j]? =
          if j < patched.headerExcess then (data ++ Bytes.zeros (newImageSize - data.length))[j]?
          else image[j - patched.headerExcess]? := by
      intro j within
      rw [Bytes.getElem?_overlay inside]
      split
      next written =>
        rw [if_neg (by omega)]
        congr 1
        omega
      next kept =>
        rw [if_pos (by omega), Patched.holding, ← length, List.getElem?_append_right (by omega),
          Nat.add_sub_cancel_left]
    rw [if_pos inside]
    constructor
    · rintro ⟨_, ⟨⟩, holds⟩
      exact ⟨by omega, room, fun j within => by rw [← behind j within, holds.image j within]⟩
    · rintro ⟨-, lands⟩
      refine ⟨_, rfl, ?_, fun j within => by rw [behind j within, ← lands.agrees j within]⟩
      rw [Bytes.overlay, target, List.append_assoc, List.take_append_of_le_length (by simp; omega),
        List.take_take, Nat.min_eq_left (by omega), Patched.holding, ← length, List.take_left]
  · rw [if_neg (by omega)]
    exact iff_of_false (by simp) fun lands => room lands.2.room

/-- The image is decompressed to its place. -/
theorem decompressBase_iff (length : patched.outBytes.length = patched.headerTargetSize)
    (base : BaseFile codec xexBytes patched.baseHeaderSize.toNat info data image)
    (fits : data.length ≤ newImageSize) :
    (∃ after, patched.decompressBase codec xexBytes (patched.holding newImageSize data) info =
        .ok after ∧ patched.Holds image after) ↔
      image.length ≤ newImageSize ∧
        (xexBytes.number (info + 6) 2 = some 2 → patched.Lands newImageSize data image) := by
  have size := patched.length_holding length fits
  cases base.stored with
  | @none imageSize image type found copied =>
      simp only [Patched.decompressBase, type, access_some, bind, Except.bind]
      obtain ⟨inside, taken, _⟩ := Bytes.read_eq_some.mp copied
      rw [Bytes.read, if_pos inside, List.drop_zero] at copied
      obtain rfl := Option.some.inj copied
      refine iff_of_true ⟨_, rfl, ?_⟩ ⟨by omega, by simp⟩
      rw [Patched.holding]
      conv => rhs; rw [← List.take_append_drop imageSize data]
      rw [List.append_assoc]
      exact .of_append length _ _
  | @basic blocks type declared enough small =>
      have imageSize := length_basicImage enough
      simp only [Patched.decompressBase, type, access_some, bind, Except.bind]
      constructor
      · rintro ⟨after, run, holds⟩
        exact ⟨holds.length_le (by rw [length_of_expandBasic run, size]), by simp⟩
      · rintro ⟨room, -⟩
        have run := @expandBasic_eq (xexBytes.drop info) blocks declared patched.outBytes data
          (Bytes.zeros (newImageSize - data.length)) enough small (by
            rw [List.length_replicate]
            omega)
        refine ⟨_, ?_, .of_append length _ (List.drop (dataTotal blocks + zeroTotal blocks)
          (data ++ Bytes.zeros (newImageSize - data.length)))⟩
        rw [Patched.holding, ← List.append_assoc, ← length, run, List.append_assoc]
  | @normal stream windowSize imageSize image type gathered found window decompressed =>
      have gathered' : gatherNormal codec.sha1 (patched.holding newImageSize data)
          patched.headerTargetSize (xexBytes.drop info) xexBytes.length
          patched.baseHeaderSize.toNat = .ok stream := by
        rw [gatherNormal, Patched.holding, ← length, List.drop_left]
        exact deblock_append _ gathered
      simp only [Patched.decompressBase, type, gathered', found, window, decompressed, access_some,
        bind, Except.bind, overwrite_eq_ok, forall_const]
      exact lands_iff length fits

/-- The patched header has the size of the target header, and the types of the patch are in its
file. -/
theorem patchHeader_spec (header : patchHeader codec xexBytes patchBytes = .ok patched) :
    patched.outBytes.length = patched.headerTargetSize ∧
      (patchBytes.number (patched.patchFileFormatInfo + 4) 2).isSome := by
  simp only [patchHeader, bind_eq_ok, throwIf_bind_eq_ok] at header
  obtain ⟨_, _, _, _, _, _, _, _, _, descriptorPtr, _, header⟩ := header
  split at header
  next descriptorPtr =>
    obtain ⟨patchFileFormatInfo, _, header⟩ := bind_eq_ok.mp header
    split at header
    next patchFileFormatInfo =>
      simp only [bind_eq_ok, throwIf_bind_eq_ok, access_eq_ok] at header
      obtain ⟨_, type, _, _, _, _, _, _, _, _, _, _, _, _, _, final⟩ := header
      cases final
      have inside := Bytes.le_of_number type
      refine ⟨Bytes.length_resize _ _, ?_⟩
      rw [Bytes.number_of_le (by dsimp only; omega)]
      rfl
    next => cases header
  next => cases header

/-- The key of the new header is read where the security information is in the buffer. -/
theorem securityAesKey_holding {bytes : Bytes}
    (length : patched.outBytes.length = patched.headerTargetSize)
    (newSize : securityImageSize patched.outBytes = some newImageSize)
    (fits : bytes.length ≤ newImageSize) :
    (securityAesKey (patched.holding newImageSize bytes)).isSome ↔
      ∀ securityOffset, patched.outBytes.number 16 4 = some securityOffset →
        securityOffset + 352 ≤ patched.headerTargetSize + newImageSize := by
  obtain ⟨securityOffset, found, _⟩ := Option.bind_eq_some_iff.mp newSize
  have kept : (patched.holding newImageSize bytes).number 16 4 = some securityOffset :=
    Bytes.number_append_of_some found _
  simp only [securityAesKey, kept, found, Option.bind_eq_bind, Option.bind_some, Bytes.read,
    patched.length_holding length fits, Option.some.injEq, forall_eq']
  split
  next inside => exact iff_of_true rfl (by omega)
  next outside => exact iff_of_false (by simp) (by omega)

/-- The whole staging, of a base file and a patch that pass the checks. -/
theorem stageImage_iff (length : patched.outBytes.length = patched.headerTargetSize)
    (base : BaseFile codec xexBytes patched.baseHeaderSize.toNat info data image)
    (newSize : securityImageSize patched.outBytes = some newImageSize)
    (accepted : ∀ result,
      patched.stageImage codec xexBytes patchBytes ≠ .error (.returned result)) :
    (∃ staged patchKey, patched.stageImage codec xexBytes patchBytes = .ok (staged, patchKey) ∧
        patched.Holds image staged) ↔
      patched.StagesImage xexBytes patchBytes data image newImageSize info := by
  have copy := @copyData_eq xexBytes patched newImageSize length newSize base.header_le
    base.length_lt
  have sameSize := base.length_data
  obtain ⟨key, keyFound⟩ : ∃ key, securityAesKey xexBytes = some key := by
    obtain ⟨_, _, found⟩ := Option.bind_eq_some_iff.mp base.decrypted
    obtain ⟨key, found, _⟩ := Option.bind_eq_some_iff.mp found
    exact ⟨key, found⟩
  by_cases fits : data.length ≤ newImageSize
  swap
  · have stops : patched.stageImage codec xexBytes patchBytes = .error .overrun := by
      rw [if_neg (by rw [List.length_drop]; omega)] at copy
      simp only [Patched.stageImage, copy, bind, Except.bind]
    exact iff_of_false (by simp [stops]) fun stages => fits stages.dataFits
  have room : (xexBytes.drop patched.baseHeaderSize.toNat).length ≤ newImageSize := by
    rw [List.length_drop]
    omega
  rw [if_pos room] at copy
  have readable := securityAesKey_holding length newSize room
  rcases @decryptKeys_cases codec xexBytes patchBytes
      (patched.holding newImageSize (xexBytes.drop patched.baseHeaderSize.toNat)) patched key
      keyFound with ⟨⟨secured, patchSecured⟩, ⟨patchKey, keys⟩ | refused⟩ | ⟨unreadable, keys⟩
  · rcases @decryptBase_cases codec xexBytes data patched newImageSize info key length
        base.header_le base.length_lt keyFound base.decrypted with decrypt | refused
    · have run : patched.stageImage codec xexBytes patchBytes =
          (patched.decompressBase codec xexBytes (patched.holding newImageSize data) info).bind
            fun after => .ok (after, patchKey) := by
        simp only [Patched.stageImage, copy, keys, base.format, decrypt, access_some, bind,
          Except.bind]
        rfl
      have decompress := @decompressBase_iff codec xexBytes data image patched newImageSize info
        length base fits
      constructor
      · rintro ⟨staged, patchKey, completes, holds⟩
        rw [run] at completes
        obtain ⟨after, decompressed, same⟩ := bind_eq_ok.mp completes
        cases same
        obtain ⟨imageFits, lands⟩ := decompress.mp ⟨staged, decompressed, holds⟩
        exact ⟨fits, imageFits, readable.mp secured, patchSecured, lands⟩
      · intro stages
        obtain ⟨after, decompressed, holds⟩ := decompress.mpr ⟨stages.imageFits, stages.lands⟩
        exact ⟨after, patchKey, by rw [run, decompressed]; rfl, holds⟩
    · refine absurd ?_ (accepted .xexFileInvalid)
      simp only [Patched.stageImage, copy, keys, base.format, refused, access_some, bind,
        Except.bind]
  · refine absurd ?_ (accepted .patchIncompatible)
    simp only [Patched.stageImage, copy, refused, bind, Except.bind]
  · have stops : patched.stageImage codec xexBytes patchBytes = .error .outside := by
      simp only [Patched.stageImage, copy, keys, bind, Except.bind]
    exact iff_of_false (by simp [stops]) fun stages =>
      unreadable ⟨readable.mpr stages.secured, stages.patchSecured⟩

/-! ## Up to the first block of the delta -/

theorem searchOptHeader_append {moduleBytes : Bytes} {headerKey : Nat} {found : Option Nat}
    (behind : Bytes) {entries : List Nat}
    (search : searchOptHeader moduleBytes headerKey entries = some found) :
    searchOptHeader (moduleBytes ++ behind) headerKey entries = some found := by
  induction entries with
  | nil => exact search
  | cons i rest ih =>
      simp only [searchOptHeader, Option.bind_eq_bind, Option.bind_eq_some_iff] at search ⊢
      obtain ⟨key, keyAt, search⟩ := search
      refine ⟨key, Bytes.number_append_of_some keyAt behind, ?_⟩
      split_ifs at search ⊢
      · exact search
      · obtain ⟨offset, offsetAt, search⟩ := Option.bind_eq_some_iff.mp search
        exact Option.bind_eq_some_iff.mpr
          ⟨offset, Bytes.number_append_of_some offsetAt behind, search⟩
      · exact ih search

/-- Bytes behind a header do not change where its optional headers are. -/
theorem getOptHeaderPtr_append {moduleBytes : Bytes} {headerKey : Nat} {found : Option Nat}
    (search : getOptHeaderPtr moduleBytes headerKey = some found) (behind : Bytes) :
    getOptHeaderPtr (moduleBytes ++ behind) headerKey = some found := by
  simp only [getOptHeaderPtr, Option.bind_eq_bind, Option.bind_eq_some_iff] at search ⊢
  obtain ⟨headerCount, countAt, search⟩ := search
  exact ⟨headerCount, Bytes.number_append_of_some countAt behind,
    searchOptHeader_append behind search⟩

/-- The patched header is in front of the buffer. -/
theorem NewHeader.headerSize {newFileFormatInfo : Nat}
    (header : NewHeader patched newImageSize newFileFormatInfo)
    (intact : outBytes.take patched.headerTargetSize = patched.outBytes) :
    Xex.headerSize outBytes = some (Xex.headerTargetSize patched.descriptor) := by
  obtain ⟨number, found, same⟩ := Option.map_eq_some_iff.mp header.declared
  rw [← List.take_append_drop patched.headerTargetSize outBytes, intact, Xex.headerSize, word,
    Bytes.number_append_of_some found, Option.map_some, same]

/-- The types are in the patched header, and the fields in front of them stay. -/
theorem NewHeader.clearTypes {newFileFormatInfo : Nat}
    (header : NewHeader patched newImageSize newFileFormatInfo)
    (intact : outBytes.take patched.headerTargetSize = patched.outBytes)
    (room : patched.headerTargetSize ≤ outBytes.length) :
    ∃ cleared, Patched.clearTypes outBytes = .ok cleared ∧ cleared.length = outBytes.length ∧
      Xex.headerSize cleared = some (Xex.headerTargetSize patched.descriptor) := by
  have found : getOptHeaderPtr outBytes xexHeaderFileFormatInfo =
      some (some newFileFormatInfo) := by
    rw [← List.take_append_drop patched.headerTargetSize outBytes, intact]
    exact getOptHeaderPtr_append header.format _
  have behind := header.behind
  have inside := header.inside
  rw [headerStructSize] at behind
  rw [fileFormatInfoSize] at inside
  have encryption : newFileFormatInfo + 4 + (Bytes.encode 2 0).length ≤ outBytes.length := by
    rw [Bytes.length_encode]
    omega
  have compression : newFileFormatInfo + 6 + (Bytes.encode 2 0).length ≤
      (outBytes.overlay (newFileFormatInfo + 4) (Bytes.encode 2 0)).length := by
    rw [Bytes.length_overlay encryption, Bytes.length_encode]
    omega
  refine ⟨(outBytes.overlay (newFileFormatInfo + 4) (Bytes.encode 2 0)).overlay
    (newFileFormatInfo + 6) (Bytes.encode 2 0), ?_, ?_, ?_⟩
  · simp only [Patched.clearTypes, found, access_some, bind, Except.bind]
    rw [Bytes.write, if_pos encryption]
    simp only [overwrite_some]
    rw [Bytes.write, if_pos compression]
    rfl
  · rw [Bytes.length_overlay compression, Bytes.length_overlay encryption]
  · rw [← header.headerSize intact, Xex.headerSize, Xex.headerSize, word, word, Bytes.number,
      Bytes.number, Bytes.read_overlay_of_apart compression (.inl (by omega)),
      Bytes.read_overlay_of_apart encryption (.inl (by omega))]

/-- The staging keeps the size that the buffer has for the new image. -/
theorem length_of_stageImage {staged patchKey : Bytes}
    (length : patched.outBytes.length = patched.headerTargetSize)
    (newSize : securityImageSize patched.outBytes = some newImageSize)
    (run : patched.stageImage codec xexBytes patchBytes = .ok (staged, patchKey)) :
    staged.length = patched.headerTargetSize + newImageSize := by
  simp only [Patched.stageImage, bind_eq_ok] at run
  obtain ⟨copied, copy, ⟨key, _⟩, _, format, _, run⟩ := run
  have copiedSize : copied.length = patched.headerTargetSize + newImageSize := by
    simp only [Patched.copyData, bind_eq_ok, access_eq_ok, overwrite_eq_ok, newSize] at copy
    obtain ⟨_, ⟨⟩, _, filled, _, _, written⟩ := copy
    rw [Bytes.length_of_write written, Bytes.length_of_write filled, Bytes.length_resize, length]
  split at run
  next info =>
    simp only [bind_eq_ok] at run
    obtain ⟨plain, decrypt, image, decompress, final⟩ := run
    cases final
    rw [length_of_decompressBase decompress, length_of_decryptBase decrypt, copiedSize]
  next => cases run

/-- The data of the patch is read where its header ends in the file. -/
theorem patchData_cases (length_lt : patchBytes.length < 2 ^ 64)
    (typed : (patchBytes.number (patched.patchFileFormatInfo + 4) 2).isSome) {patchKey : Bytes} :
    ((∃ size, headerSize patchBytes = some size ∧ size.toNat ≤ patchBytes.length) ∧
      ((∃ delta, patched.patchData codec patchBytes patchKey = .ok delta) ∨
        patched.patchData codec patchBytes patchKey = .error (.returned .patchFileInvalid))) ∨
    ¬(∃ size, headerSize patchBytes = some size ∧ size.toNat ≤ patchBytes.length) ∧
      patched.patchData codec patchBytes patchKey = .error .outside := by
  obtain ⟨encryptionType, type⟩ := Option.isSome_iff_exists.mp typed
  cases found : headerSize patchBytes with
  | none =>
      refine .inr ⟨by simp, ?_⟩
      simp only [Patched.patchData, found]
      rfl
  | some size =>
      by_cases inside : size.toNat ≤ patchBytes.length
      · refine .inl ⟨⟨size, rfl, inside⟩, ?_⟩
        have read : patchBytes.read size.toNat
            (unsigned 64 ((patchBytes.length : Int) - size.toNat)) =
              some (patchBytes.slice size.toNat (patchBytes.length - size.toNat)) := by
          rw [unsigned_sub inside length_lt]
          exact Bytes.read_of_le (by omega)
        simp only [Patched.patchData, found, read, type, access_some, bind, Except.bind]
        split_ifs
        · exact .inl ⟨_, rfl⟩
        · exact .inr rfl
        · exact .inl ⟨_, rfl⟩
      · refine .inr ⟨by simpa using inside, ?_⟩
        have read : patchBytes.read size.toNat
            (unsigned 64 ((patchBytes.length : Int) - size.toNat)) = none := by
          have small := size.isLt
          rw [Bytes.read, if_neg (by rw [unsigned]; omega)]
        simp only [Patched.patchData, found, bind, Except.bind, read, access]

/-- The range that the delta moves, and the place it is moved to, are in the new image and apart. -/
theorem moveImage_iff (size : outBytes.length = patched.headerTargetSize + newImageSize) :
    (∃ moved, patched.moveImage outBytes patched.headerTargetSize = .ok moved) ↔
      patched.Moves newImageSize := by
  unfold Patched.moveImage Patched.Moves
  split
  next moves =>
    have positive : 0 < patched.descriptor.deltaImageSourceOffset.toNat := moves
    simp only [throwIf_bind_eq_ok, bind_eq_ok, access_eq_ok, overwrite_eq_ok, not_not]
    constructor
    · rintro ⟨_, apart, data, read, write⟩ -
      have inside := Bytes.le_of_read read
      obtain ⟨_, count, _⟩ := Bytes.read_eq_some.mp read
      have target := Bytes.le_of_write write
      exact ⟨apart, by omega, by omega⟩
    · intro holds
      obtain ⟨apart, source, target⟩ := holds positive
      have read := @Bytes.read_of_le outBytes
        (patched.headerTargetSize + patched.descriptor.deltaImageSourceOffset.toNat)
        patched.descriptor.deltaImageSourceSize.toNat (by omega)
      obtain ⟨_, count, _⟩ := Bytes.read_eq_some.mp read
      exact ⟨_, apart, _, read, if_pos (by omega)⟩
  next still =>
    exact iff_of_true ⟨_, rfl⟩ fun positive => absurd positive still

/-- Before its first block is applied, the delta changes only the types in the new header and the
range of the image that it moves. -/
theorem prepareDelta_frame {staged patchKey before delta : Bytes} {outExe : Nat}
    (prepared : patched.prepareDelta codec patchBytes staged patchKey =
      .ok (before, delta, outExe)) :
    ∃ formatInfo, getOptHeaderPtr staged xexHeaderFileFormatInfo = some (some formatInfo) ∧
      ∀ position, ¬ (formatInfo + 4 ≤ position ∧ position < formatInfo + 8) →
        ¬ (0 < patched.descriptor.deltaImageSourceOffset.toNat ∧
          outExe + patched.descriptor.deltaImageTargetOffset.toNat ≤ position ∧
          position < outExe + patched.descriptor.deltaImageTargetOffset.toNat +
            patched.descriptor.deltaImageSourceSize.toNat) →
        before[position]? = staged[position]? := by
  simp only [Patched.prepareDelta, bind_eq_ok] at prepared
  obtain ⟨cleared, clear, _, _, start, _, moved, move, final⟩ := prepared
  cases final
  simp only [Patched.clearTypes, bind_eq_ok, access_eq_ok] at clear
  obtain ⟨pointer, found, clear⟩ := clear
  split at clear
  next formatInfo =>
    simp only [bind_eq_ok, overwrite_eq_ok] at clear
    obtain ⟨first, encryption, compression⟩ := clear
    refine ⟨formatInfo, found, fun position types range => ?_⟩
    have kept : cleared[position]? = staged[position]? := by
      rw [Bytes.getElem?_of_write compression (by simp; omega),
        Bytes.getElem?_of_write encryption (by simp; omega)]
    unfold Patched.moveImage at move
    split at move
    next moves =>
      simp only [throwIf_bind_eq_ok, bind_eq_ok, access_eq_ok, overwrite_eq_ok] at move
      obtain ⟨-, data, read, write⟩ := move
      have size := (Bytes.read_eq_some.mp read).2.1
      rw [Bytes.getElem?_of_write write, kept]
      rw [size]
      bv_omega
    next =>
      cases move
      exact kept
  next => cases clear

/-- The steps from the decompressed image to the first block. -/
theorem prepareDelta_iff {newFileFormatInfo : Nat} {patchKey : Bytes}
    (header : NewHeader patched newImageSize newFileFormatInfo)
    (intact : outBytes.take patched.headerTargetSize = patched.outBytes)
    (size : outBytes.length = patched.headerTargetSize + newImageSize)
    (length_lt : patchBytes.length < 2 ^ 64)
    (typed : (patchBytes.number (patched.patchFileFormatInfo + 4) 2).isSome)
    (accepted : ∀ result,
      patched.prepareDelta codec patchBytes outBytes patchKey ≠ .error (.returned result)) :
    (∃ before delta, patched.prepareDelta codec patchBytes outBytes patchKey =
        .ok (before, delta, patched.headerTargetSize)) ↔
      (∃ size, headerSize patchBytes = some size ∧ size.toNat ≤ patchBytes.length) ∧
        patched.Moves newImageSize := by
  obtain ⟨cleared, clear, clearedSize, start⟩ := header.clearTypes intact (by omega)
  have moves := @moveImage_iff cleared patched newImageSize (clearedSize.trans size)
  rcases @patchData_cases codec patchBytes patched length_lt typed patchKey with
    ⟨inside, ⟨delta, read⟩ | refused⟩ | ⟨outside, read⟩
  · have run : patched.prepareDelta codec patchBytes outBytes patchKey =
        (patched.moveImage cleared patched.headerTargetSize).bind
          fun moved => .ok (moved, delta, patched.headerTargetSize) := by
      simp only [Patched.prepareDelta, clear, read, start, access_some, bind, Except.bind]
      rfl
    rw [run, ← moves]
    constructor
    · rintro ⟨before, _, completes⟩
      obtain ⟨moved, move, _⟩ := bind_eq_ok.mp completes
      exact ⟨inside, moved, move⟩
    · rintro ⟨-, moved, move⟩
      exact ⟨moved, delta, by rw [move]; rfl⟩
  · refine absurd ?_ (accepted .patchFileInvalid)
    simp only [Patched.prepareDelta, clear, refused, bind, Except.bind]
  · have stops : patched.prepareDelta codec patchBytes outBytes patchKey = .error .outside := by
      simp only [Patched.prepareDelta, clear, read, bind, Except.bind]
    exact iff_of_false (by simp [stops]) fun holds => outside holds.1

end Steps

/-- Libraries that leave the data as it is. -/
def plainCodec : Codec where
  sha1 _ := Bytes.zeros 20
  aesCbcDecrypt _ data := data
  lzxDecompress _ length _ _ := some (Bytes.zeros length)
  length_aesCbcDecrypt _ _ := rfl
  length_lzxDecompress found := by cases found; exact List.length_replicate

/-- The fields of an `Xex2Header`. -/
def encodeHeader (moduleFlags headerSize securityOffset headerCount : Nat) : Bytes :=
  xex2Magic ++ Bytes.encode 4 moduleFlags ++ Bytes.encode 4 headerSize ++ Bytes.encode 4 0 ++
    Bytes.encode 4 securityOffset ++ Bytes.encode 4 headerCount

/-- A security information with a blank key. -/
def encodeSecurity (imageSize : Nat) : Bytes :=
  Bytes.encode 4 352 ++ Bytes.encode 4 imageSize ++ Bytes.zeros 344

/-- A file with an image and a type of compression. -/
def smallFile (compressionType : Nat) (image : Bytes) : Bytes :=
  encodeHeader 1 400 48 1 ++ Bytes.encode 4 xexHeaderFileFormatInfo ++ Bytes.encode 4 32 ++
    encodeBasicInfo 0 compressionType [⟨image.length, 0⟩] ++ encodeSecurity image.length ++ image

/-- The fields of a descriptor. -/
def encodeDescriptor (descriptor : Xex2OptDeltaPatchDescriptor) : Bytes :=
  Bytes.encode 4 descriptor.size.toNat ++ Bytes.zeros 28 ++ descriptor.imageKeySource ++
    Bytes.encode 4 descriptor.sizeOfTargetHeaders.toNat ++
    Bytes.encode 4 descriptor.deltaHeadersSourceOffset.toNat ++
    Bytes.encode 4 descriptor.deltaHeadersSourceSize.toNat ++
    Bytes.encode 4 descriptor.deltaHeadersTargetOffset.toNat ++
    Bytes.encode 4 descriptor.deltaImageSourceOffset.toNat ++
    Bytes.encode 4 descriptor.deltaImageSourceSize.toNat ++
    Bytes.encode 4 descriptor.deltaImageTargetOffset.toNat

/-- A patch with a descriptor, the records for the header, and no blocks. -/
def smallPatch (descriptor : Xex2OptDeltaPatchDescriptor) (records : Bytes) : Bytes :=
  encodeHeader 0x10 (504 + records.length) (152 + records.length) 2 ++
    Bytes.encode 4 xexHeaderFileFormatInfo ++ Bytes.encode 4 40 ++
    Bytes.encode 4 xexHeaderDeltaPatchDescriptor ++ Bytes.encode 4 76 ++
    (Bytes.encode 4 36 ++ Bytes.encode 2 0 ++ Bytes.encode 2 3 ++ Bytes.encode 4 0x8000 ++
      Bytes.zeros 24) ++
    encodeDescriptor descriptor ++ records ++ encodeSecurity 4

/-- A patch whose header passes the checks. -/
theorem patchHeader_eq {codec : Codec} {xexBytes patchBytes staged outBytes : Bytes}
    {moduleFlags descriptorPtr formatInfo window : Nat} {baseHeaderSize : BitVec 32}
    {descriptor : Xex2OptDeltaPatchDescriptor}
    (baseMagic : xexBytes.read 0 4 = some xex2Magic)
    (magic : patchBytes.read 0 4 = some xex2Magic)
    (flags : patchBytes.number 4 4 = some moduleFlags)
    (isPatch : BitVec.ofNat 32 moduleFlags &&& 0x70 ≠ 0)
    (descriptorAt : getOptHeaderPtr patchBytes xexHeaderDeltaPatchDescriptor =
      some (some descriptorPtr))
    (formatAt : getOptHeaderPtr patchBytes xexHeaderFileFormatInfo = some (some formatInfo))
    (type : patchBytes.number (formatInfo + 6) 2 = some 3)
    (found : deltaPatchDescriptor patchBytes descriptorPtr = some descriptor)
    (header : headerSize xexBytes = some baseHeaderSize)
    (checked : checkHeaderRanges baseHeaderSize descriptor = .ok ())
    (copied : stageHeader baseHeaderSize descriptor xexBytes = .ok staged)
    (windowed : windowSize (patchBytes.drop formatInfo) = some window)
    (applied : lzxDeltaApplyPatch codec (patchBytes.drop (descriptorPtr + 76))
      descriptor.size.toNat window 0 staged = .ok outBytes)
    (size : outBytes.length = (headerTargetSize descriptor).toNat) :
    patchHeader codec xexBytes patchBytes =
      .ok ⟨outBytes, baseHeaderSize, descriptor, formatInfo⟩ := by
  have resized : outBytes.resize (headerTargetSize descriptor).toNat = outBytes := by
    rw [Bytes.resize, List.take_of_length_le (by omega), size, Nat.sub_self]
    exact List.append_nil _
  have moduleFlag : word patchBytes 4 = some (BitVec.ofNat 32 moduleFlags) := by
    rw [word, flags, Option.map_some]
  simp only [patchHeader, baseMagic, magic, moduleFlag, isPatch, descriptorAt, formatAt, type,
    found, header, checked, copied, windowed, applied, resized, access_some, bind, Except.bind,
    if_false, ne_eq, not_true]
  rfl

/-- A descriptor that keeps the header and moves the second byte of the image to its start. -/
def moveByte : Xex2OptDeltaPatchDescriptor where
  size := 0
  imageKeySource := Bytes.zeros 16
  sizeOfTargetHeaders := 400
  deltaHeadersSourceOffset := 0
  deltaHeadersSourceSize := 400
  deltaHeadersTargetOffset := 0
  deltaImageSourceOffset := 1
  deltaImageSourceSize := 1
  deltaImageTargetOffset := 0

/-- A file under basic compression, and a patch that moves a byte of its image. -/
def smallBase : Bytes := smallFile 1 [1, 2, 3, 4]

def movePatch : Bytes := smallPatch moveByte []

/-- The patched header is the header of the file. -/
def smallPatched : Patched := ⟨smallBase.take 400, 400, moveByte, 40⟩

theorem patchHeader_small : patchHeader plainCodec smallBase movePatch = .ok smallPatched := by
  -- the delta of the header has no entries
  have applied : lzxDeltaApplyPatch plainCodec (movePatch.drop (76 + 76)) moveByte.size.toNat
      0x8000 0 (smallBase.take 400) = .ok (smallBase.take 400) := by
    rw [lzxDeltaApplyPatch]
    exact if_pos (Nat.le_refl 0)
  exact patchHeader_eq (by decide +kernel) (by decide +kernel)
    (by decide +kernel : _ = some 0x10) (by decide) (by decide +kernel) (by decide +kernel)
    (by decide +kernel) (by decide +kernel) (by decide +kernel) (by decide +kernel)
    (by decide +kernel) (by decide +kernel) applied (by decide +kernel)

theorem newHeader_small : NewHeader smallPatched 4 32 where
  declared := by decide +kernel
  newSize := by decide +kernel
  format := by decide +kernel
  behind := by decide
  inside := by decide +kernel

theorem baseFile_small :
    BaseFile plainCodec smallBase 400 32 [1, 2, 3, 4] [1, 2, 3, 4] where
  header_le := by decide +kernel
  length_lt := by decide +kernel
  format := by decide +kernel
  decrypted := by decide +kernel
  stored := by
    have declared : Declares (smallBase.drop 32) [⟨4, 0⟩] :=
      ⟨by decide +kernel, by decide +kernel⟩
    exact .basic (by decide +kernel) declared (by decide) (by decide)

/-- A file without compression whose image is longer than a byte can count. -/
def longBase : Bytes := smallFile 0 (Bytes.zeros 260)

/-- A descriptor with one record for the header. -/
def shrinkImage : Xex2OptDeltaPatchDescriptor where
  size := 12
  imageKeySource := Bytes.zeros 16
  sizeOfTargetHeaders := 400
  deltaHeadersSourceOffset := 0
  deltaHeadersSourceSize := 400
  deltaHeadersTargetOffset := 0
  deltaImageSourceOffset := 0
  deltaImageSourceSize := 0
  deltaImageTargetOffset := 0

/-- A patch that clears a byte of the size of the image, which leaves four bytes of it. -/
def shrinkPatch : Bytes :=
  smallPatch shrinkImage
    (Bytes.encode 4 0 ++ Bytes.encode 4 54 ++ Bytes.encode 2 1 ++ Bytes.encode 2 0)

def shrunkPatched : Patched :=
  ⟨Bytes.overlay (longBase.take 400) 54 [0], 400, shrinkImage, 40⟩

end UfcRecomp.Xex
