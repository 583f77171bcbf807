import UfcRecomp.Ppc.Integer

/-!
# Arithmetic instructions of the guest

Sums, differences, products and quotients of general-purpose registers. None of them traps. Some
results are left undefined: quotients that do not exist or do not fit, and the upper word of a
result that only has a lower one.
-/

namespace UfcRecomp.Ppc

open UfcRecomp.Lib

inductive ArithmeticInst where
  | divw | divwu | divd | divdu
  | mulli | mulld | mullw | mulhw | mulhd
  | neg | subf | addi | addis
  deriving DecidableEq

namespace ArithmeticInst

variable (operand : Nat → Word) (state : IntegerState)

def a : BitVec 64 := state.r (operand 1).toNat

def b : BitVec 64 := state.r (operand 2).toNat

/-- The register that a sum starts from; the register zero stands for the number. -/
def base : BitVec 64 := if operand 1 = 0 then 0 else a operand state

def immediate : BitVec 64 := (operand 2).signExtend 64

def shifted : BitVec 64 := (operand 2 <<< 16).signExtend 64

/-- A lower word. -/
def low (value : BitVec 64) : BitVec 32 := value.setWidth 32

/-- Whether only the lower word of a result is defined. -/
def word : ArithmeticInst → Bool
  | divw | divwu | mulhw => true
  | _ => false

/-- Whether there is a result. -/
def Defined : ArithmeticInst → Prop
  | divw => low (b operand state) ≠ 0 ∧
    ¬(low (a operand state) = BitVec.intMin 32 ∧ low (b operand state) = -1)
  | divwu => low (b operand state) ≠ 0
  | divd => b operand state ≠ 0 ∧ ¬(a operand state = BitVec.intMin 64 ∧ b operand state = -1)
  | divdu => b operand state ≠ 0
  | _ => True

def result : ArithmeticInst → BitVec 64
  | divw => ((low (a operand state)).sdiv (low (b operand state))).setWidth 64
  | divwu => (low (a operand state) / low (b operand state)).setWidth 64
  | divd => (a operand state).sdiv (b operand state)
  | divdu => a operand state / b operand state
  | mulli => a operand state * immediate operand
  | mulld => a operand state * b operand state
  | mullw => (low (a operand state)).signExtend 64 * (low (b operand state)).signExtend 64
  | mulhw =>
    BitVec.ofInt 64 ((low (a operand state)).toInt * (low (b operand state)).toInt / 2 ^ 32)
  | mulhd => BitVec.ofInt 64 ((a operand state).toInt * (b operand state).toInt / 2 ^ 64)
  | neg => -a operand state
  | subf => b operand state - a operand state
  | addi => base operand state + immediate operand
  | addis => base operand state + shifted operand

/-- What an instruction leaves behind: its result as far as that is defined, and all else as it
was. -/
structure Agrees (inst : ArithmeticInst) (after : IntegerState) : Prop where
  result : inst.Defined operand state →
    if inst.word then low (after.r (operand 0).toNat) = low (inst.result operand state)
    else after.r (operand 0).toNat = inst.result operand state
  registers : ∀ index, index ≠ (operand 0).toNat → after.r index = state.r index
  carry : after.ca = state.ca

end ArithmeticInst

end UfcRecomp.Ppc
