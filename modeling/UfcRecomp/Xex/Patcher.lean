import UfcRecomp.Xex.Basic
import UfcRecomp.Xex.Header
import UfcRecomp.Xex.Normal

/-!
# The patcher

`XexPatcher::apply` builds the patched header, puts the data of the base file behind it, decrypts
and decompresses the data in place, and applies the blocks of the delta to the image. Hashing,
decryption and the decompression of a stream are parameters.
-/

namespace UfcRecomp.Xex

open UfcRecomp.Lib

/-- The libraries that the patcher calls. -/
structure Codec where
  sha1 : Bytes → Bytes
  /-- `AES_CBC_decrypt_buffer` from a blank initialization vector. -/
  aesCbcDecrypt : (key data : Bytes) → Bytes
  /-- `lzxDecompress` of the data to a length, with a window size and the data of the window. -/
  lzxDecompress : Bytes → Nat → Nat → Option Bytes → Option Bytes
  length_aesCbcDecrypt : ∀ key data, (aesCbcDecrypt key data).length = data.length
  length_lzxDecompress : ∀ {data length windowSize window result},
    lzxDecompress data length windowSize window = some result → result.length = length

/-- `Xex2RetailKey`. -/
def xex2RetailKey : Bytes :=
  [0x20, 0xB1, 0x85, 0xA5, 0x9D, 0x28, 0xFD, 0xC3, 0x40, 0x58, 0x3F, 0xBB, 0x08, 0x96, 0xBF, 0x91]

/-- The characters `XEX2`. -/
def xex2Magic : Bytes := [0x58, 0x45, 0x58, 0x32]

/-! ## Applying a delta -/

/-- `Xex2DeltaPatch`; `patchData` is behind it. -/
structure Xex2DeltaPatch where
  oldAddress : Nat
  newAddress : Nat
  uncompressedLength : Nat
  compressedLength : Nat
  deriving DecidableEq

def deltaPatchAt (deltaPatch : Bytes) (start : Nat) : Option Xex2DeltaPatch := do
  return {
    oldAddress := ← deltaPatch.number start 4
    newAddress := ← deltaPatch.number (start + 4) 4
    uncompressedLength := ← deltaPatch.number (start + 8) 2
    compressedLength := ← deltaPatch.number (start + 10) 2 }

/-- The effect of one entry on the data. -/
def applyDeltaPatch (codec : Codec) (deltaPatch : Bytes) (windowSize start : Nat)
    (patch : Xex2DeltaPatch) (dstData : Bytes) : Except (Stop Result) Bytes := do
  match patch.compressedLength with
  | 0 => overwrite (dstData.fill patch.newAddress patch.uncompressedLength)
  | 1 =>
    if ¬Bytes.Apart patch.newAddress patch.oldAddress patch.uncompressedLength then
      throw .outside
    let data ← access (dstData.read patch.oldAddress patch.uncompressedLength)
    overwrite (dstData.write patch.newAddress data)
  | compressedLength =>
    let data ← access (deltaPatch.read (start + 12) compressedLength)
    let window ← access (dstData.read patch.oldAddress patch.uncompressedLength)
    match codec.lzxDecompress data patch.uncompressedLength windowSize (some window) with
    | none => throw (.returned .patchFailed)
    | some bytes => overwrite (dstData.write patch.newAddress bytes)

/-- `lzxDeltaApplyPatch`; both callers return `PatchFailed` when it fails. An entry takes the
twelve bytes in front of `patchData`, and its data when there are any. -/
def lzxDeltaApplyPatch (codec : Codec) (deltaPatch : Bytes) (patchLength windowSize curPatch : Nat)
    (dstData : Bytes) : Except (Stop Result) Bytes :=
  if patchLength ≤ curPatch then .ok dstData
  else
    match deltaPatchAt deltaPatch curPatch with
    | none => .error .outside
    | some patch =>
      if patch = ⟨0, 0, 0, 0⟩ then .ok dstData
      else
        match applyDeltaPatch codec deltaPatch windowSize curPatch patch dstData with
        | .error stop => .error stop
        | .ok dstData =>
          lzxDeltaApplyPatch codec deltaPatch patchLength windowSize
            (curPatch + 12 + if patch.compressedLength ≤ 1 then 0 else patch.compressedLength)
            dstData
termination_by patchLength - curPatch

/-! ## The patched header -/

/-- The variables of `apply` once the header is patched. -/
structure Patched where
  outBytes : Bytes
  /-- `headerSize` of the base file. -/
  baseHeaderSize : BitVec 32
  descriptor : Xex2OptDeltaPatchDescriptor
  /-- Where the file format information of the patch is. -/
  patchFileFormatInfo : Nat

/-- `XexPatcher::apply` from its start to where the header has its final size. -/
def patchHeader (codec : Codec) (xexBytes patchBytes : Bytes) :
    Except (Stop Result) Patched := do
  let magic ← access (xexBytes.read 0 4)
  if magic ≠ xex2Magic then throw (.returned .xexFileInvalid)
  let magic ← access (patchBytes.read 0 4)
  if magic ≠ xex2Magic then throw (.returned .patchFileInvalid)
  let moduleFlags ← access (word patchBytes 4)
  if moduleFlags &&& 0x70 = 0 then throw (.returned .patchFileInvalid)
  let descriptorPtr ← access (getOptHeaderPtr patchBytes xexHeaderDeltaPatchDescriptor)
  let some descriptorPtr := descriptorPtr | throw (.returned .patchFileInvalid)
  let patchFileFormatInfo ← access (getOptHeaderPtr patchBytes xexHeaderFileFormatInfo)
  let some patchFileFormatInfo := patchFileFormatInfo | throw (.returned .patchFileInvalid)
  let compressionType ← access (patchBytes.number (patchFileFormatInfo + 6) 2)
  if compressionType ≠ 3 then throw (.returned .patchFileInvalid)
  let descriptor ← access (deltaPatchDescriptor patchBytes descriptorPtr)
  let baseHeaderSize ← access (headerSize xexBytes)
  checkHeaderRanges baseHeaderSize descriptor
  let outBytes ← stageHeader baseHeaderSize descriptor xexBytes
  let windowSize ← access (windowSize (patchBytes.drop patchFileFormatInfo))
  let outBytes ← lzxDeltaApplyPatch codec (patchBytes.drop (descriptorPtr + 76))
    descriptor.size.toNat windowSize 0 outBytes
  let outBytes := outBytes.resize (headerTargetSize descriptor).toNat
  return { outBytes, baseHeaderSize, descriptor, patchFileFormatInfo }

/-! ## The image of the base file -/

/-- `imageSize` of the `Xex2SecurityInfo` of a module. -/
def securityImageSize (moduleBytes : Bytes) : Option Nat := do
  let securityOffset ← moduleBytes.number 16 4
  moduleBytes.number (securityOffset + 4) 4

/-- `aesKey` of the `Xex2SecurityInfo` of a module. -/
def securityAesKey (moduleBytes : Bytes) : Option Bytes := do
  let securityOffset ← moduleBytes.number 16 4
  moduleBytes.read (securityOffset + 336) 16

namespace Patched

variable (patched : Patched)

def headerTargetSize : Nat := (Xex.headerTargetSize patched.descriptor).toNat

def newXexHeaderSize : Nat := (Xex.newXexHeaderSize patched.baseHeaderSize patched.descriptor).toNat

/-- The number of bytes behind the header of the base file. -/
def dataSize (xexBytes : Bytes) : Nat :=
  unsigned 64 ((xexBytes.length : Int) - patched.baseHeaderSize.toNat)

/-- Copy the data of the base file behind the patched header. -/
def copyData (xexBytes : Bytes) : Except (Stop Result) Bytes := do
  let imageSize ← access (securityImageSize patched.outBytes)
  let outBytes := patched.outBytes.resize (patched.outBytes.length + imageSize)
  let outBytes ← overwrite (outBytes.fill patched.headerTargetSize
    (outBytes.length - patched.headerTargetSize))
  let data ← access (xexBytes.read patched.baseHeaderSize.toNat (patched.dataSize xexBytes))
  overwrite (outBytes.write patched.headerTargetSize data)

/-- The keys of the base file and of the patch, when the patch is for the base file. -/
def decryptKeys (codec : Codec) (xexBytes patchBytes outBytes : Bytes) :
    Except (Stop Result) (Bytes × Bytes) := do
  let originalKey := codec.aesCbcDecrypt xex2RetailKey (← access (securityAesKey xexBytes))
  let newKey := codec.aesCbcDecrypt xex2RetailKey (← access (securityAesKey outBytes))
  let patchKey := codec.aesCbcDecrypt newKey (← access (securityAesKey patchBytes))
  let imageKeySource := codec.aesCbcDecrypt newKey patched.descriptor.imageKeySource
  if imageKeySource ≠ originalKey then throw (.returned .patchIncompatible)
  return (originalKey, patchKey)

/-- Decrypt the data of the base file in place. -/
def decryptBase (codec : Codec) (xexBytes outBytes key : Bytes) (fileFormatInfo : Nat) :
    Except (Stop Result) Bytes := do
  let encryptionType ← access (xexBytes.number (fileFormatInfo + 4) 2)
  if encryptionType = 1 then
    let data ← access (outBytes.read patched.headerTargetSize (patched.dataSize xexBytes))
    overwrite (outBytes.write patched.headerTargetSize (codec.aesCbcDecrypt key data))
  else if encryptionType ≠ 0 then throw (.returned .xexFileInvalid)
  else return outBytes

/-- Decompress the data of the base file. -/
def decompressBase (codec : Codec) (xexBytes outBytes : Bytes) (fileFormatInfo : Nat) :
    Except (Stop Result) Bytes := do
  let compressionType ← access (xexBytes.number (fileFormatInfo + 6) 2)
  let info := xexBytes.drop fileFormatInfo
  match compressionType with
  | 0 => return outBytes
  | 1 => expandBasic outBytes patched.headerTargetSize info
  | 2 =>
    let stream ← gatherNormal codec.sha1 outBytes patched.headerTargetSize info xexBytes.length
      patched.baseHeaderSize.toNat
    let uncompressedSize ← access (securityImageSize xexBytes)
    let windowSize ← access (windowSize info)
    match codec.lzxDecompress stream uncompressedSize windowSize none with
    | none => throw (.returned .patchFailed)
    | some image => overwrite (outBytes.write patched.newXexHeaderSize image)
  | 3 => throw (.returned .xexFileUnsupported)
  | _ => throw (.returned .xexFileInvalid)

/-- `XexPatcher::apply` from the patched header to the decompressed image, with the key of the
patch. -/
def stageImage (codec : Codec) (xexBytes patchBytes : Bytes) :
    Except (Stop Result) (Bytes × Bytes) := do
  let outBytes ← patched.copyData xexBytes
  let (originalKey, patchKey) ← patched.decryptKeys codec xexBytes patchBytes outBytes
  let fileFormatInfo ← access (getOptHeaderPtr xexBytes xexHeaderFileFormatInfo)
  let some fileFormatInfo := fileFormatInfo | throw (.returned .xexFileInvalid)
  let outBytes ← patched.decryptBase codec xexBytes outBytes originalKey fileFormatInfo
  let outBytes ← patched.decompressBase codec xexBytes outBytes fileFormatInfo
  return (outBytes, patchKey)

/-! ## Applying the patch -/

/-- Set the types of encryption and compression in the new header to none. -/
def clearTypes (outBytes : Bytes) : Except (Stop Result) Bytes := do
  let newFileFormatInfo ← access (getOptHeaderPtr outBytes xexHeaderFileFormatInfo)
  let some newFileFormatInfo := newFileFormatInfo | throw (.returned .patchFailed)
  let outBytes ← overwrite (outBytes.write (newFileFormatInfo + 4) (Bytes.encode 2 0))
  overwrite (outBytes.write (newFileFormatInfo + 6) (Bytes.encode 2 0))

/-- The decrypted data of the patch. -/
def patchData (codec : Codec) (patchBytes patchKey : Bytes) : Except (Stop Result) Bytes := do
  let headerSize ← access (headerSize patchBytes)
  let data ← access (patchBytes.read headerSize.toNat
    (unsigned 64 ((patchBytes.length : Int) - headerSize.toNat)))
  let encryptionType ← access (patchBytes.number (patched.patchFileFormatInfo + 4) 2)
  if encryptionType = 1 then return codec.aesCbcDecrypt patchKey data
  else if encryptionType ≠ 0 then throw (.returned .patchFileInvalid)
  else return data

/-- Copy the range of the image that the delta refers to; `outExe` is where the image starts. -/
def moveImage (outBytes : Bytes) (outExe : Nat) : Except (Stop Result) Bytes := do
  if patched.descriptor.deltaImageSourceOffset > 0 then
    if ¬Bytes.Apart patched.descriptor.deltaImageTargetOffset.toNat
        patched.descriptor.deltaImageSourceOffset.toNat
        patched.descriptor.deltaImageSourceSize.toNat then
      throw .outside
    let data ← access (outBytes.read (outExe + patched.descriptor.deltaImageSourceOffset.toNat)
      patched.descriptor.deltaImageSourceSize.toNat)
    overwrite (outBytes.write (outExe + patched.descriptor.deltaImageTargetOffset.toNat) data)
  else return outBytes

/-- `XexPatcher::apply` from the decompressed image to the loop over the blocks of the delta, with
the data of the patch and where the image starts. -/
def prepareDelta (codec : Codec) (patchBytes outBytes patchKey : Bytes) :
    Except (Stop Result) (Bytes × Bytes × Nat) := do
  let outBytes ← clearTypes outBytes
  let data ← patched.patchData codec patchBytes patchKey
  let outExe ← access (headerSize outBytes)
  let outBytes ← patched.moveImage outBytes outExe.toNat
  return (outBytes, data, outExe.toNat)

end Patched

/-- The loop over the blocks of the delta. -/
def applyBlocks (codec : Codec) (patchData : Bytes) (windowSize outExe : Nat)
    (currentBlock : Bytes) (cursor : Nat) (outBytes : Bytes) : Except (Stop Result) Bytes :=
  match blockSize currentBlock with
  | none => .error .outside
  | some size =>
    if size = 0 then .ok outBytes
    else
      match _inside : patchData.read cursor size with
      | none => .error .outside
      | some content =>
        match blockHash currentBlock with
        | none => .error .outside
        | some recorded =>
          if codec.sha1 content ≠ recorded then .error (.returned .patchFailed)
          else
            let blockDataSize := unsigned 32 ((size : Int) - 24)
            match lzxDeltaApplyPatch codec (patchData.drop (cursor + 24)) blockDataSize windowSize 0
              (outBytes.drop outExe) with
            | .error stop => .error stop
            | .ok image =>
              applyBlocks codec patchData windowSize outExe (patchData.drop cursor)
                (cursor + 24 + blockDataSize) (outBytes.take outExe ++ image)
termination_by patchData.length - cursor
decreasing_by
  have room := (Bytes.read_eq_some.mp _inside).1
  omega

/-- The state in which `XexPatcher::apply` comes to the loop over the blocks of the delta. -/
def beforeDelta (codec : Codec) (xexBytes patchBytes : Bytes) :
    Except (Stop Result) (Bytes × Bytes × Nat) := do
  let patched ← patchHeader codec xexBytes patchBytes
  let (outBytes, patchKey) ← patched.stageImage codec xexBytes patchBytes
  patched.prepareDelta codec patchBytes outBytes patchKey

/-- `XexPatcher::apply` without `skipData`. -/
def apply (codec : Codec) (xexBytes patchBytes : Bytes) : Except (Stop Result) Bytes := do
  let patched ← patchHeader codec xexBytes patchBytes
  let (outBytes, patchKey) ← patched.stageImage codec xexBytes patchBytes
  let (outBytes, data, outExe) ← patched.prepareDelta codec patchBytes outBytes patchKey
  let info := patchBytes.drop patched.patchFileFormatInfo
  let windowSize ← access (windowSize info)
  applyBlocks codec data windowSize outExe (firstBlock info) 0 outBytes

end UfcRecomp.Xex
