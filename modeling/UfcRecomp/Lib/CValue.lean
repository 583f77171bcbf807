import Mathlib.Data.Int.Bitwise

/-!
# Integers of C++ expressions

An operand has one of three types: `int`, `uint32_t` or `size_t`, on a host with pointers of 64
bits. Before an operation both operands are converted to the larger type, where an unsigned type
wins over the signed one of its width. Only a sum with a pointer is not reduced to the width of
its operand.
-/

namespace UfcRecomp.Lib

/-- A value with its type. -/
inductive CValue where
  | int (value : Int)
  | uint32 (value : BitVec 32)
  | size (value : BitVec 64)
  deriving DecidableEq

namespace CValue

/-- Conversion to `uint32_t`. -/
def toUint32 : CValue → BitVec 32
  | .int value => BitVec.ofInt 32 value
  | .uint32 value => value
  | .size value => value.setWidth 32

/-- Conversion to `size_t`. -/
def toSize : CValue → BitVec 64
  | .int value => BitVec.ofInt 64 value
  | .uint32 value => value.setWidth 64
  | .size value => value

/-- An operation after the conversions. -/
def arithmetic (onInt : Int → Int → Int) (onBits : ∀ width, BitVec width → BitVec width → BitVec width) :
    CValue → CValue → CValue
  | .int left, .int right => .int (onInt left right)
  | .size left, right => .size (onBits 64 left right.toSize)
  | .uint32 left, .size right => .size (onBits 64 (left.setWidth 64) right)
  | .int left, .size right => .size (onBits 64 (BitVec.ofInt 64 left) right)
  | .uint32 left, .uint32 right => .uint32 (onBits 32 left right)
  | .uint32 left, .int right => .uint32 (onBits 32 left (BitVec.ofInt 32 right))
  | .int left, .uint32 right => .uint32 (onBits 32 (BitVec.ofInt 32 left) right)

def add : CValue → CValue → CValue := arithmetic (· + ·) fun _ => (· + ·)

def sub : CValue → CValue → CValue := arithmetic (· - ·) fun _ => (· - ·)

def and : CValue → CValue → CValue := arithmetic Int.land fun _ => (· &&& ·)

/-- How far a sum with the value moves a pointer. -/
def offset : CValue → Int
  | .int value => value
  | .uint32 value => value.toNat
  | .size value => value.toInt

@[simp] theorem add_uint32 (left right : BitVec 32) :
    (uint32 left).add (uint32 right) = uint32 (left + right) := rfl

@[simp] theorem add_uint32_int (left : BitVec 32) (right : Int) :
    (uint32 left).add (int right) = uint32 (left + BitVec.ofInt 32 right) := rfl

@[simp] theorem add_int_uint32 (left : Int) (right : BitVec 32) :
    (int left).add (uint32 right) = uint32 (BitVec.ofInt 32 left + right) := rfl

@[simp] theorem add_uint32_size (left : BitVec 32) (right : BitVec 64) :
    (uint32 left).add (size right) = size (left.setWidth 64 + right) := rfl

@[simp] theorem sub_uint32_size (left : BitVec 32) (right : BitVec 64) :
    (uint32 left).sub (size right) = size (left.setWidth 64 - right) := rfl

@[simp] theorem sub_size_int (left : BitVec 64) (right : Int) :
    (size left).sub (int right) = size (left - BitVec.ofInt 64 right) := rfl

@[simp] theorem sub_int_uint32 (left : Int) (right : BitVec 32) :
    (int left).sub (uint32 right) = uint32 (BitVec.ofInt 32 left - right) := rfl

@[simp] theorem and_uint32_int (left : BitVec 32) (right : Int) :
    (uint32 left).and (int right) = uint32 (left &&& BitVec.ofInt 32 right) := rfl

end CValue

end UfcRecomp.Lib
