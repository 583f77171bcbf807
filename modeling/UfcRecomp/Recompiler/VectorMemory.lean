import UfcRecomp.Emitted.Address
import UfcRecomp.Emitted.VectorTables
import UfcRecomp.Ppc.VectorMemory
import UfcRecomp.Recompiler.IntegerRuns
import UfcRecomp.Recompiler.VectorCases

/-!
# Vector loads and stores

What the emitted code of a vector load or store does to registers and to memory. It loads an aligned
block and selects bytes of it by a row of a table, and it stores single bytes in a loop.
-/

namespace UfcRecomp.Recompiler

open UfcRecomp.Lib UfcRecomp.Lib.Simd UfcRecomp.Ppc UfcRecomp.Emitted

/-! ## The emitted statements -/

/-- What vector code works on: objects, the variable `ea`, and the bytes from `base` on. -/
structure VectorHost where
  objects : Store Object
  ea : BitVec 32
  memory : Int → Byte

namespace VectorHost

/-- What addresses are computed from. -/
def addressState (host : VectorHost) (counter : Nat) : AddressState where
  registers index := ⟨(view host.objects).r index⟩
  locals
    | .ea => host.ea
    | .temp => BitVec.ofInt 32 (host.objects.read (temp .u32))
  counter := counter

def set (host : VectorHost) : AddressVariable → BitVec 32 → VectorHost
  | .ea, value => { host with ea := value }
  | .temp, value => { host with objects := host.objects.write (temp .u32) value.toNat }

/-- The bytes from an address on. -/
def load (host : VectorHost) (address : Int) : Vec := fun position =>
  host.memory (address + position)

end VectorHost

/-- The statements of a vector load or store. The register that is loaded or stored is the first
operand. -/
inductive TransferStatement where
  | set (name : AddressVariable) (value : AddressExpr)
  /-- Bytes from a place on, selected by a row of a table. -/
  | load (place : Emitted.Place) (table : Bytes) (row : AddressExpr)
  /-- The same, or zero. -/
  | loadIf (condition : AddressExpr) (place : Emitted.Place) (table : Bytes) (row : AddressExpr)
  /-- A row of a table. -/
  | control (table : Bytes) (row : AddressExpr)
  /-- `PPC_LOAD_U16` into the element of the register that `ea` lies in. -/
  | loadElement (place : Emitted.Place) (size : Nat)
  /-- Bytes of the register, selected by a row of a table. -/
  | store (place : Emitted.Place) (table : Bytes) (row : AddressExpr)
  /-- A loop over `PPC_STORE_U8`, with the byte of the register for each index. -/
  | storeBytes (count : AddressExpr) (place : Emitted.Place) (byte : Nat → Nat)
  /-- `PPC_STORE_U16` or `PPC_STORE_U32` of the element of the register that `ea` lies in. -/
  | storeElement (place : Emitted.Place) (size : Nat)

namespace TransferStatement

/-- The vector with the bytes of a row. -/
def tableRow (table : Bytes) (row : CValue) : Vec := tableByte table row.toUint32.toNat

/-- The index of the lane that an address lies in. -/
def element (host : VectorHost) (size : Nat) : Nat := 16 / size - 1 - (host.ea.toNat % 16) / size

def run (macros : MacroSet) (register : Object) (host : VectorHost) :
    TransferStatement → VectorHost
  | set name value => host.set name (value.eval (host.addressState 0)).toUint32
  | load place table row =>
    let state := host.addressState 0
    let block := host.load (place.pointer macros state)
    { host with
      objects := host.objects.storeVec register
        (shuffleEpi8 block (tableRow table (row.eval state))) }
  | loadIf condition place table row =>
    let state := host.addressState 0
    let block := host.load (place.pointer macros state)
    { host with
      objects := host.objects.storeVec register
        (if (condition.eval state).toUint32 = 0 then setzeroSi128
        else shuffleEpi8 block (tableRow table (row.eval state))) }
  | control table row =>
    { host with
      objects := host.objects.storeVec register
        (tableRow table (row.eval (host.addressState 0))) }
  | loadElement place size =>
    { host with
      objects := host.objects.write ⟨register, size * element host size, ⟨size, false⟩⟩
        (bigEndian (host.load (place.pointer macros (host.addressState 0))) 0 size) }
  | store place table row =>
    let state := host.addressState 0
    { host with
      memory := storeEach host.memory (place.pointer macros state + ·)
        (shuffleEpi8 (host.objects register) (tableRow table (row.eval state))) 16 }
  | storeBytes count place byte =>
    { host with
      memory := storeEach host.memory (fun i => place.pointer macros (host.addressState i))
        (fun i => host.objects register (byte i))
        (count.eval (host.addressState 0)).toSize.toNat }
  | storeElement place size =>
    let lane := Vec.lane size (host.objects register) (element host size)
    { host with
      memory := storeEach host.memory (place.pointer macros (host.addressState 0) + ·)
        (fun i => byteOf lane (size - 1 - i)) size }

end TransferStatement

/-- The case of an instruction. -/
def transferStatements (operand : Nat → Word) (inst : TransferInst) : List TransferStatement :=
  let sum := registerSum (operand 1).toNat (operand 2).toNat
  let ea := AddressExpr.variable .ea
  let temp := AddressExpr.variable .temp
  let low (x : AddressExpr) := x.and (.literal 15)
  let blockAt (x : AddressExpr) := Emitted.Place.pointerAt [x.and (.complement 15)]
  match inst with
  | .lvewx | .lvx => [.load (blockAt sum) vectorMaskL (.literal 0)]
  | .lvehx => [.set .ea (sum.and (.complement 1)), .loadElement (.macroAt ea) 2]
  | .lvlx => [.set .temp sum, .load (blockAt temp) vectorMaskL (low temp)]
  | .lvrx => [.set .temp sum, .loadIf (low temp) (blockAt temp) vectorMaskR (low temp)]
  | .lvsl => [.set .temp sum, .control vectorShiftTableL (low temp)]
  | .lvsr => [.set .temp sum, .control vectorShiftTableR (low temp)]
  | .stvehx => [.set .ea (sum.and (.complement 1)), .storeElement (.macroAt ea) 2]
  | .stvewx => [.set .ea (sum.and (.complement 3)), .storeElement (.macroAt ea) 4]
  | .stvlx =>
    [.set .ea sum, .storeBytes (.sub (.literal 16) (low ea)) (.macroAt (ea.add .counter)) (15 - ·)]
  | .stvrx =>
    [.set .ea sum, .storeBytes (low ea) (.macroAt ((ea.sub .counter).sub (.literal 1))) id]
  | .stvx => [.store (blockAt sum) vectorMaskL (.literal 0)]

/-- Run the case of an instruction. -/
def runTransfer (macros : MacroSet) (operand : Nat → Word) (inst : TransferInst)
    (host : VectorHost) : VectorHost :=
  (transferStatements operand inst).foldl
    (fun host statement => statement.run macros (.v (operand 0).toNat) host) host

/-- What a statement accesses. -/
def TransferStatement.access : TransferStatement → Option AccessStatement
  | set name value => some (.set name value)
  | load place _ _ => some (.access place 16)
  | loadIf condition place _ _ => some (.accessIf condition place 16)
  | control _ _ => none
  | loadElement place size => some (.access place size)
  | store place _ _ => some (.access place 16)
  | storeBytes count place _ => some (.loop count place 1)
  | storeElement place size => some (.access place size)

/-- The instructions that access memory. -/
def accessInst : TransferInst → Option AccessInst
  | .lvehx => some .lvehx
  | .lvewx => some .lvewx
  | .lvlx => some .lvlx
  | .lvrx => some .lvrx
  | .lvx => some .lvx
  | .stvehx => some .stvehx
  | .stvewx => some .stvewx
  | .stvlx => some .stvlx
  | .stvrx => some .stvrx
  | .stvx => some .stvx
  | .lvsl | .lvsr => none

/-- The addresses in these statements are those that decide what is accessed. -/
theorem filterMap_access {operand : Nat → Word} {inst : TransferInst} {access : AccessInst}
    (known : accessInst inst = some access) :
    (transferStatements operand inst).filterMap TransferStatement.access =
      access.form.emit operand := by
  cases inst <;> cases known <;> rfl

end UfcRecomp.Recompiler
