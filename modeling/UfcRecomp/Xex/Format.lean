import UfcRecomp.Lib.Bytes
import UfcRecomp.Lib.Unsigned

/-!
# The container format

The fields of an executable container that the loader and the patcher read, big-endian and at
fixed offsets of their structures.
-/

namespace UfcRecomp.Xex

open UfcRecomp.Lib

/-- `XexPatcher::Result`. -/
inductive Result where
  | success
  | fileOpenFailed
  | fileWriteFailed
  | xexFileUnsupported
  | xexFileInvalid
  | patchFileInvalid
  | patchIncompatible
  | patchFailed
  | patchUnsupported
  deriving DecidableEq, Repr

/-- Why a function does not come to its end: it returns early, or makes an access of which C++
promises nothing, because it leaves a buffer or copies between ranges that overlap. Where it
matters, writes are told apart from other accesses. -/
inductive Stop (ρ : Type) where
  | returned (result : ρ)
  | outside
  | overrun
  deriving DecidableEq, Repr

/-- An access to a buffer. -/
def access {ρ α : Type} : Option α → Except (Stop ρ) α
  | some value => .ok value
  | none => .error .outside

@[simp] theorem access_some {ρ α : Type} (value : α) :
    (access (some value) : Except (Stop ρ) α) = .ok value := rfl

theorem access_eq_ok {ρ α : Type} {found : Option α} {value : α} :
    (access found : Except (Stop ρ) α) = .ok value ↔ found = some value := by
  cases found <;> simp [access]

/-- A write to a buffer. -/
def overwrite {ρ α : Type} : Option α → Except (Stop ρ) α
  | some value => .ok value
  | none => .error .overrun

@[simp] theorem overwrite_some {ρ α : Type} (value : α) :
    (overwrite (some value) : Except (Stop ρ) α) = .ok value := rfl

theorem overwrite_eq_ok {ρ α : Type} {found : Option α} {value : α} :
    (overwrite found : Except (Stop ρ) α) = .ok value ↔ found = some value := by
  cases found <;> simp [overwrite]

/-- A computation that comes to its end came to the end of its first part. -/
theorem bind_eq_ok {ε α β : Type} {first : Except ε α} {next : α → Except ε β} {result : β} :
    (first >>= next) = .ok result ↔ ∃ value, first = .ok value ∧ next value = .ok result := by
  cases first <;> simp [bind, Except.bind]

/-- A check that lets the function go on. -/
theorem throwIf_bind_eq_ok {ε α : Type} {condition : Prop} [Decidable condition] {error : ε}
    {rest : Except ε α} {result : α} :
    (if condition then (throw error >>= fun _ : PUnit => rest) else rest) = .ok result ↔
      ¬ condition ∧ rest = .ok result := by
  by_cases holds : condition <;> simp [holds, throw, throwThe, MonadExceptOf.throw, bind, Except.bind]

theorem throwIf_eq_ok {ε : Type} {condition : Prop} [Decidable condition] {error : ε} :
    (if condition then throw error else pure ()) = (.ok () : Except ε Unit) ↔ ¬ condition := by
  by_cases holds : condition <;>
    simp [holds, throw, throwThe, MonadExceptOf.throw, pure, Except.pure]

/-- A cursor moved back. -/
def back (cursor count : Nat) : Option Nat :=
  if count ≤ cursor then some (cursor - count) else none

theorem back_add (cursor count : Nat) : back (cursor + count) count = some cursor := by
  rw [back, if_pos (by omega), Nat.add_sub_cancel]

/-- The cursor at an offset. -/
def cursorAt (offset : Int) : Option Nat := if 0 ≤ offset then some offset.toNat else none

theorem cursorAt_natCast (offset : Nat) : cursorAt offset = some offset := by
  rw [cursorAt, if_pos (by omega), Int.toNat_natCast]

/-! ## Optional headers -/

/-- `XEX_HEADER_FILE_FORMAT_INFO` and `XEX_HEADER_DELTA_PATCH_DESCRIPTOR`. -/
def xexHeaderFileFormatInfo : Nat := 0x3FF

def xexHeaderDeltaPatchDescriptor : Nat := 0x5FF

/-- `sizeof(Xex2Header)`. -/
def headerStructSize : Nat := 24

/-- The loop of `getOptHeaderPtr` over the entries that are left. -/
def searchOptHeader (moduleBytes : Bytes) (headerKey : Nat) : List Nat → Option (Option Nat)
  | [] => some none
  | i :: rest => do
    let key ← moduleBytes.number (headerStructSize + 8 * i) 4
    if key = headerKey then
      if headerKey % 256 = 0 ∨ headerKey % 256 = 1 then
        return some (headerStructSize + 8 * i + 4)
      else
        let offset ← moduleBytes.number (headerStructSize + 8 * i + 4) 4
        return some offset
    else searchOptHeader moduleBytes headerKey rest

/-- `getOptHeaderPtr`: where the data of an optional header is, if there is one. The outer option
is for reads outside the module. -/
def getOptHeaderPtr (moduleBytes : Bytes) (headerKey : Nat) : Option (Option Nat) := do
  let headerCount ← moduleBytes.number 20 4
  searchOptHeader moduleBytes headerKey (List.range headerCount)

/-! ## File format information -/

/-- `sizeof(Xex2OptFileFormatInfo)`. -/
def fileFormatInfoSize : Nat := 8

/-- `infoSize` of an `Xex2OptFileFormatInfo`. -/
def infoSize (info : Bytes) : Option Nat := info.number 0 4

/-- An entry of the table that follows the information under basic compression. -/
structure Xex2FileBasicCompressionBlock where
  dataSize : Nat
  zeroSize : Nat
  deriving DecidableEq, Repr

/-- `sizeof(Xex2FileBasicCompressionBlock)`, and of `Xex2FileBasicCompressionInfo`. -/
def basicBlockSize : Nat := 8

/-- An entry of the table. -/
def basicBlock (info : Bytes) (i : Nat) : Option Xex2FileBasicCompressionBlock := do
  let dataSize ← info.number (fileFormatInfoSize + basicBlockSize * i) 4
  let zeroSize ← info.number (fileFormatInfoSize + basicBlockSize * i + 4) 4
  return { dataSize, zeroSize }

/-- The first entries of the table. -/
def basicBlocks (info : Bytes) (count : Nat) : Option (List Xex2FileBasicCompressionBlock) :=
  (List.range count).mapM (basicBlock info)

/-- `Xex2CompressedBlockInfo`: `blockSize` and `blockHash`. -/
def blockSize (blocks : Bytes) : Option Nat := blocks.number 0 4

def blockHash (blocks : Bytes) : Option Bytes := blocks.read 4 20

/-- `sizeof(Xex2CompressedBlockInfo)`. -/
def blockInfoSize : Nat := 24

/-- `windowSize` of the `Xex2FileNormalCompressionInfo` behind the information. -/
def windowSize (info : Bytes) : Option Nat := info.number fileFormatInfoSize 4

/-- The bytes from `firstBlock` of the `Xex2FileNormalCompressionInfo` on. -/
def firstBlock (info : Bytes) : Bytes := info.drop (fileFormatInfoSize + 4)

/-! ## The patch descriptor -/

/-- A `be<uint32_t>`. -/
def word (bytes : Bytes) (start : Nat) : Option (BitVec 32) :=
  (bytes.number start 4).map (BitVec.ofNat 32)

/-- `headerSize` of an `Xex2Header`. -/
def headerSize (file : Bytes) : Option (BitVec 32) := word file 8

structure Xex2OptDeltaPatchDescriptor where
  size : BitVec 32
  imageKeySource : Bytes
  sizeOfTargetHeaders : BitVec 32
  deltaHeadersSourceOffset : BitVec 32
  deltaHeadersSourceSize : BitVec 32
  deltaHeadersTargetOffset : BitVec 32
  deltaImageSourceOffset : BitVec 32
  deltaImageSourceSize : BitVec 32
  deltaImageTargetOffset : BitVec 32
  deriving DecidableEq

/-- The descriptor at an offset of the patch. -/
def deltaPatchDescriptor (patchBytes : Bytes) (start : Nat) :
    Option Xex2OptDeltaPatchDescriptor := do
  return {
    size := ← word patchBytes start
    imageKeySource := ← patchBytes.read (start + 32) 16
    sizeOfTargetHeaders := ← word patchBytes (start + 48)
    deltaHeadersSourceOffset := ← word patchBytes (start + 52)
    deltaHeadersSourceSize := ← word patchBytes (start + 56)
    deltaHeadersTargetOffset := ← word patchBytes (start + 60)
    deltaImageSourceOffset := ← word patchBytes (start + 64)
    deltaImageSourceSize := ← word patchBytes (start + 68)
    deltaImageTargetOffset := ← word patchBytes (start + 72) }

end UfcRecomp.Xex
