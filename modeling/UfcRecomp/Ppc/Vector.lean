import UfcRecomp.Lib.VectorOrder
import UfcRecomp.Ppc.Word

/-!
# Vector instructions

What instructions on integers make of vector registers. Bytes and lanes are counted from the most
significant one.
-/

namespace UfcRecomp.Ppc

open UfcRecomp.Lib UfcRecomp.Lib.Simd

/-- The instructions that compute a vector of integers; those of the other forms, with or without
`128` in their names, are the same. -/
inductive VmxInst where
  | vaddubm | vadduhm | vadduwm
  | vand | vandc128 | vnor | vor | vsel | vxor
  | vmaxsh | vmaxsw | vminsh
  | vmrghb | vmrghh | vmrghw | vmrglb | vmrglh | vmrglw
  | vperm | vpermwi128
  | vpkshss | vpkshus | vpkswss | vpkswus | vpkuhus128 | vpkuwum
  | vrlh | vrlimi128
  | vsl | vslb | vsldoi | vslh | vslw
  | vspltb | vsplth | vspltisb | vspltish | vspltisw | vspltw
  | vsr | vsrab | vsrah | vsraw | vsrh | vsrw
  | vsububm | vsubuhm | vsubuwm
  | vupkhsb | vupkhsh | vupklsb | vupklsh
  deriving DecidableEq

namespace VmxInst

/-- Lanes of two vectors in turn, from one lane on. -/
def merge (size first : Nat) (a b : BigVec) : BigVec := fun position =>
  let source := if position / size % 2 = 0 then a else b
  source (size * (first + position / size / 2) + position % size)

/-- One lane in all places. -/
def splat (size index : Nat) (b : BigVec) : BigVec := fun position =>
  b (size * index + position % size)

/-- A lane of two vectors, one after the other. -/
def lanePair (type : IntType) (a b : BigVec) (index : Nat) : Int :=
  BigVec.typed type (BigVec.append a b) index

/-- Lanes of two vectors, as the nearest numbers of a type that is half as wide. -/
def pack (wide narrow : IntType) (a b : BigVec) : BigVec :=
  BigVec.ofLanes narrow.size fun index =>
    clamp narrow.min narrow.max (lanePair wide a b index)

/-- Lanes from one on, in lanes that are twice as wide. -/
def unpack (narrow : IntType) (first : Nat) (b : BigVec) : BigVec :=
  BigVec.ofLanes (2 * narrow.size) fun index => BigVec.typed narrow b (first + index)

/-- Numbers that lanes of two vectors give. -/
def lanewise (type : IntType) (op : Int → Int → Int) (a b : BigVec) : BigVec :=
  BigVec.ofLanes type.size fun index =>
    op (BigVec.typed type a index) (BigVec.typed type b index)

/-- A shift or rotation of each lane, by its count in the other vector. -/
def shiftEach (type : IntType) (op : Int → Nat → Int) (a b : BigVec) : BigVec :=
  BigVec.ofLanes type.size fun index =>
    op (BigVec.typed type a index) (BigVec.lane type.size b index % type.width)

def bytewise (op : Byte → Byte → Byte) (a b : BigVec) : BigVec :=
  fun position => op (a position) (b position)

/-- A rotation to the left. -/
def rotate (width : Nat) (number : Int) (count : Nat) : Int :=
  ((BitVec.ofInt width number).rotateLeft count).toNat

/-- What becomes of the destination, from the registers that the operands name. -/
def result (operand : Nat → Word) (v : Nat → BigVec) : VmxInst → BigVec
  | vaddubm => bytewise (· + ·) (v 1) (v 2)
  | vadduhm => lanewise .u16 (· + ·) (v 1) (v 2)
  | vadduwm => lanewise .u32 (· + ·) (v 1) (v 2)
  | vand => bytewise (· &&& ·) (v 1) (v 2)
  | vandc128 => bytewise (fun a b => a &&& ~~~b) (v 1) (v 2)
  | vnor => bytewise (fun a b => ~~~(a ||| b)) (v 1) (v 2)
  | vor => bytewise (· ||| ·) (v 1) (v 2)
  | vsel => fun position =>
    (v 1 position &&& ~~~v 3 position) ||| (v 2 position &&& v 3 position)
  | vxor => bytewise (· ^^^ ·) (v 1) (v 2)
  | vmaxsh => lanewise .s16 max (v 1) (v 2)
  | vmaxsw => lanewise .s32 max (v 1) (v 2)
  | vminsh => lanewise .s16 min (v 1) (v 2)
  | vmrghb => merge 1 0 (v 1) (v 2)
  | vmrghh => merge 2 0 (v 1) (v 2)
  | vmrghw => merge 4 0 (v 1) (v 2)
  | vmrglb => merge 1 8 (v 1) (v 2)
  | vmrglh => merge 2 4 (v 1) (v 2)
  | vmrglw => merge 4 2 (v 1) (v 2)
  | vperm => fun position => BigVec.append (v 1) (v 2) ((v 3 position).toNat % 32)
  | vpermwi128 => fun position =>
    -- The selectors of the words are in the immediate, from its top on.
    v 1 (4 * ((operand 2).toNat / 4 ^ (3 - position / 4) % 4) + position % 4)
  | vpkshss => pack .s16 .s8 (v 1) (v 2)
  | vpkshus => pack .s16 .u8 (v 1) (v 2)
  | vpkswss => pack .s32 .s16 (v 1) (v 2)
  | vpkswus => pack .s32 .u16 (v 1) (v 2)
  | vpkuhus128 => pack .u16 .u8 (v 1) (v 2)
  | vpkuwum => BigVec.ofLanes 2 (lanePair .u32 (v 1) (v 2))
  | vrlh => shiftEach .u16 (rotate 16) (v 1) (v 2)
  | vrlimi128 => fun position =>
    if (operand 2).toNat.testBit (3 - position / 4) then
      v 1 (4 * ((position / 4 + (operand 3).toNat) % 4) + position % 4)
    else v 0 position
  | vsl => BigVec.ofLanes 16 fun _ => BigVec.lane 16 (v 1) 0 * 2 ^ ((v 2 15).toNat % 8)
  | vslb => shiftEach .u8 (fun a count => a * 2 ^ count) (v 1) (v 2)
  | vsldoi => fun position => BigVec.append (v 1) (v 2) (position + (operand 3).toNat)
  | vslh => shiftEach .u16 (fun a count => a * 2 ^ count) (v 1) (v 2)
  | vslw => shiftEach .u32 (fun a count => a * 2 ^ count) (v 1) (v 2)
  | vspltb => splat 1 (operand 2).toNat (v 1)
  | vsplth => splat 2 (operand 2).toNat (v 1)
  | vspltisb => BigVec.ofLanes 1 fun _ => (operand 1).toInt
  | vspltish => BigVec.ofLanes 2 fun _ => (operand 1).toInt
  | vspltisw => BigVec.ofLanes 4 fun _ => (operand 1).toInt
  | vspltw => splat 4 (operand 2).toNat (v 1)
  | vsr => BigVec.ofLanes 16 fun _ => (BigVec.lane 16 (v 1) 0 / 2 ^ ((v 2 15).toNat % 8) : Nat)
  | vsrab => shiftEach .s8 (fun a count => a / 2 ^ count) (v 1) (v 2)
  | vsrah => shiftEach .s16 (fun a count => a / 2 ^ count) (v 1) (v 2)
  | vsraw => shiftEach .s32 (fun a count => a / 2 ^ count) (v 1) (v 2)
  | vsrh => shiftEach .u16 (fun a count => a / 2 ^ count) (v 1) (v 2)
  | vsrw => shiftEach .u32 (fun a count => a / 2 ^ count) (v 1) (v 2)
  | vsububm => bytewise (· - ·) (v 1) (v 2)
  | vsubuhm => lanewise .u16 (· - ·) (v 1) (v 2)
  | vsubuwm => lanewise .u32 (· - ·) (v 1) (v 2)
  | vupkhsb => unpack .s8 0 (v 1)
  | vupkhsh => unpack .s16 0 (v 1)
  | vupklsb => unpack .s8 8 (v 1)
  | vupklsh => unpack .s16 4 (v 1)

/-- The immediates that fit into the fields of the instruction. -/
def Encodes (operand : Nat → Word) : VmxInst → Prop
  | vspltb => (operand 2).toNat < 16
  | vsplth => (operand 2).toNat < 8
  | vspltw => (operand 2).toNat < 4
  | vsldoi => (operand 3).toNat < 16
  | vrlimi128 => (operand 3).toNat < 4
  | _ => True

end VmxInst

end UfcRecomp.Ppc
