import UfcRecomp.Lib.StraightLine
import UfcRecomp.Ppc.Vector

/-!
# Vector code

Runs of instructions on vectors, which compute, load and store. Memory has 32-bit addresses, which
wrap around.
-/

namespace UfcRecomp.Ppc

open UfcRecomp.Lib

/-- The instructions that load or store vectors, or that make the controls of their permutations. -/
inductive TransferInst where
  | lvehx | lvewx | lvlx | lvrx | lvsl | lvsr | lvx
  | stvehx | stvewx | stvlx | stvrx | stvx
  deriving DecidableEq

/-- The registers that vector code uses, and memory. -/
structure VectorState where
  r : Nat → BitVec 64
  v : Nat → BigVec
  memory : BitVec 32 → Byte

namespace VectorState

/-- The effective address of an instruction; `r0` stands for zero. -/
def address (state : VectorState) (operand : Nat → Word) : BitVec 32 :=
  (if (operand 1).toNat = 0 then 0 else (state.r (operand 1).toNat).setWidth 32) +
    (state.r (operand 2).toNat).setWidth 32

def setV (state : VectorState) (index : Nat) (vec : BigVec) : VectorState :=
  { state with v := Function.update state.v index vec }

end VectorState

/-- How far an address is from the start of its block of 16 bytes. -/
def blockOffset (address : BitVec 32) : Nat := address.toNat % 16

/-- The start of its block. -/
def block (address : BitVec 32) : BitVec 32 := address - BitVec.ofNat 32 (blockOffset address)

namespace TransferInst

/-- Bytes of the block that an address lies in. -/
def blockByte (memory : BitVec 32 → Byte) (address : BitVec 32) (index : Nat) : Byte :=
  memory (block address + BitVec.ofNat 32 index)

/-- Whether a byte of the block belongs to the same element as an address. -/
def InElement (size : Nat) (address : BitVec 32) (index : Nat) : Prop :=
  index / size = blockOffset address / size

instance (size : Nat) (address : BitVec 32) (index : Nat) :
    Decidable (InElement size address index) :=
  inferInstanceAs (Decidable (_ = _))

/-- The bytes that the destination receives; those of other elements are undefined. -/
def loaded (memory : BitVec 32 → Byte) (address : BitVec 32) :
    TransferInst → Option (Nat → Option Byte)
  | lvehx => some fun index =>
    if InElement 2 address index then some (blockByte memory address index) else none
  | lvewx => some fun index =>
    if InElement 4 address index then some (blockByte memory address index) else none
  | lvlx => some fun index =>
    some (if blockOffset address + index < 16 then memory (address + BitVec.ofNat 32 index) else 0)
  | lvrx => some fun index =>
    some (if blockOffset address + index < 16 then 0
      else memory (address - 16 + BitVec.ofNat 32 index))
  | lvsl => some fun index => some (BitVec.ofNat 8 (blockOffset address + index))
  | lvsr => some fun index => some (BitVec.ofNat 8 (16 - blockOffset address + index))
  | lvx => some fun index => some (blockByte memory address index)
  | _ => none

/-- Memory after the bytes of a vector from one on, up to another one, are stored; the first byte of
the vector would be at `start`. -/
def storeBytes (memory : BitVec 32 → Byte) (start : BitVec 32) (first last : Nat) (vec : BigVec) :
    BitVec 32 → Byte := fun address =>
  let index := (address - start).toNat
  if first ≤ index ∧ index < last then vec index else memory address

/-- Memory after a store. -/
def stored (memory : BitVec 32 → Byte) (address : BitVec 32) (vec : BigVec) :
    TransferInst → Option (BitVec 32 → Byte)
  | stvehx =>
    let first := blockOffset address / 2 * 2
    some (storeBytes memory (block address) first (first + 2) vec)
  | stvewx =>
    let first := blockOffset address / 4 * 4
    some (storeBytes memory (block address) first (first + 4) vec)
  | stvlx => some (storeBytes memory address 0 (16 - blockOffset address) vec)
  | stvrx => some (storeBytes memory (address - 16) (16 - blockOffset address) 16 vec)
  | stvx => some (storeBytes memory (block address) 0 16 vec)
  | _ => none

/-- What an instruction may do. -/
inductive Does (operand : Nat → Word) (before : VectorState) : TransferInst → VectorState → Prop
  | load {inst : TransferInst} {bytes : Nat → Option Byte} {vec : BigVec}
      (loads : inst.loaded before.memory (before.address operand) = some bytes)
      (holds : ∀ index < 16, ∀ byte, bytes index = some byte → vec index = byte) :
      Does operand before inst (before.setV (operand 0).toNat vec)
  | store {inst : TransferInst} {memory : BitVec 32 → Byte}
      (stores : inst.stored before.memory (before.address operand)
        (before.v (operand 0).toNat) = some memory) :
      Does operand before inst { before with memory }

section Does

variable {operand : Nat → Word} {before after : VectorState} {inst : TransferInst}

/-- An instruction that loads does not store. -/
theorem stored_of_loaded {memory : BitVec 32 → Byte} {address : BitVec 32}
    {bytes : Nat → Option Byte} (loads : inst.loaded memory address = some bytes) (vec : BigVec) :
    inst.stored memory address vec = none := by
  cases inst <;> first | rfl | cases loads

theorem Does.of_loaded {bytes : Nat → Option Byte} (does : inst.Does operand before after)
    (loads : inst.loaded before.memory (before.address operand) = some bytes) :
    ∃ vec, after = before.setV (operand 0).toNat vec ∧
      ∀ index < 16, ∀ byte, bytes index = some byte → vec index = byte := by
  cases does with
  | load loaded holds =>
      obtain rfl := Option.some.inj (loads.symm.trans loaded)
      exact ⟨_, rfl, holds⟩
  | store stores =>
      rw [stored_of_loaded loads] at stores
      cases stores

theorem Does.of_stored {memory : BitVec 32 → Byte} (does : inst.Does operand before after)
    (stores : inst.stored before.memory (before.address operand)
      (before.v (operand 0).toNat) = some memory) : after = { before with memory } := by
  cases does with
  | load loaded _ =>
      rw [stored_of_loaded loaded] at stores
      cases stores
  | store stored =>
      obtain rfl := Option.some.inj (stores.symm.trans stored)
      rfl

end Does

end TransferInst

/-! ## Runs -/

/-- An instruction of vector code, with its operands. -/
inductive VectorCode where
  | compute (inst : VmxInst) (operand : Nat → Word)
  | transfer (inst : TransferInst) (operand : Nat → Word)

namespace VectorCode

/-- What an instruction may do. -/
def Does (before after : VectorState) : VectorCode → Prop
  | compute inst operand =>
    after = before.setV (operand 0).toNat
      (inst.result operand fun index => before.v (operand index).toNat)
  | transfer inst operand => inst.Does operand before after

/-- What a sequence of instructions may do. -/
def Runs : List VectorCode → VectorState → VectorState → Prop :=
  MayLead fun code before after => code.Does before after

end VectorCode

/-! ## Vectors at any address -/

/-- A load of what is left of a vector in its block, and of the rest in the next one. -/
def loadPair (left right both : Nat → Word) : List VectorCode :=
  [.transfer .lvlx left, .transfer .lvrx right, .compute .vor both]

/-- The stores of the two parts. -/
def storePair (left right : Nat → Word) : List VectorCode :=
  [.transfer .stvlx left, .transfer .stvrx right]

section Pairs

variable {before after : VectorState} {left right both : Nat → Word}

theorem blockOffset_lt (address : BitVec 32) : blockOffset address < 16 :=
  Nat.mod_lt _ (by decide)

theorem blockOffset_add (address : BitVec 32) :
    blockOffset (address + 16) = blockOffset address := by
  have small := address.isLt
  rw [blockOffset, blockOffset, BitVec.toNat_add]
  change (address.toNat + 16) % 2 ^ 32 % 16 = _
  omega

/-- The two parts of a load make the vector at the address. -/
theorem runs_loadPair (apart : (left 0).toNat ≠ (right 0).toNat)
    (first : both 1 = left 0) (second : both 2 = right 0)
    (next : before.address right = before.address left + 16)
    (runs : VectorCode.Runs (loadPair left right both) before after) :
    after.memory = before.memory ∧ ∀ index < 16, after.v (both 0).toNat index =
      before.memory (before.address left + BitVec.ofNat 32 index) := by
  obtain ⟨_, leftDoes, _, rightDoes, _, rfl, rfl⟩ := runs
  obtain ⟨low, rfl, lowHolds⟩ := leftDoes.of_loaded rfl
  obtain ⟨high, rfl, highHolds⟩ := rightDoes.of_loaded rfl
  refine ⟨rfl, fun index inside => ?_⟩
  have lowByte := lowHolds index inside _ rfl
  have highByte := highHolds index inside _ rfl
  have behind : (before.setV (left 0).toNat low).address right = before.address left + 16 := next
  rw [behind, blockOffset_add, BitVec.add_sub_cancel] at highByte
  simp only [VectorState.setV, Function.update_self, VmxInst.result, VmxInst.bytewise, first,
    second, Function.update_of_ne apart]
  rw [lowByte, highByte]
  split
  · exact BitVec.or_zero
  · exact BitVec.zero_or

/-- The two parts of a store write the bytes at the address, and no other. -/
theorem runs_storePair (same : left 0 = right 0)
    (next : before.address right = before.address left + 16)
    (runs : VectorCode.Runs (storePair left right) before after) :
    after = { before with
      memory := TransferInst.storeBytes before.memory (before.address left) 0 16
        (before.v (left 0).toNat) } := by
  obtain ⟨_, leftDoes, _, rightDoes, rfl⟩ := runs
  obtain rfl := leftDoes.of_stored rfl
  obtain rfl := rightDoes.of_stored rfl
  have short := blockOffset_lt (before.address left)
  have behind : ({ before with
      memory := TransferInst.storeBytes before.memory (before.address left) 0
        (16 - blockOffset (before.address left)) (before.v (left 0).toNat) } :
      VectorState).address right = before.address left + 16 := next
  rw [behind, blockOffset_add, BitVec.add_sub_cancel, ← same]
  congr 1
  funext address
  simp only [TransferInst.storeBytes]
  generalize (address - before.address left).toNat = index
  by_cases low : index < 16 - blockOffset (before.address left)
  · rw [if_neg (by omega), if_pos (by omega), if_pos (by omega)]
  · by_cases inside : index < 16
    · rw [if_pos (by omega), if_pos (by omega)]
    · rw [if_neg (by omega), if_neg (by omega), if_neg (by omega)]

end Pairs

end UfcRecomp.Ppc
