import UfcRecomp.Ppc.Word
import UfcRecomp.Lib.Bytes
import Mathlib.Logic.Function.Basic
import Mathlib.Data.BitVec
import Mathlib.Data.Nat.Digits.Lemmas

/-!
# Integer instructions of the guest

What the carrying additions, the rotations under a mask and the shifts do to the general-purpose
registers and to the carry. Bits are numbered from the most significant one. The carry is that out
of the low word.
-/

namespace UfcRecomp.Ppc

open UfcRecomp.Lib

/-- The general-purpose registers and the carry. -/
@[ext]
structure IntegerState where
  r : Nat → BitVec 64
  ca : Byte

namespace IntegerState

/-- An instruction writes one register. -/
def set (state : IntegerState) (index : Word) (value : BitVec 64) : IntegerState :=
  { state with r := Function.update state.r index.toNat value }

/-- Some instructions write the carry as well. -/
def setCa (state : IntegerState) (ca : Byte) : IntegerState := { state with ca }

def setCarry (state : IntegerState) (carry : Bool) : IntegerState :=
  state.setCa (if carry then 1 else 0)

@[simp] theorem r_setCa (state : IntegerState) (ca : Byte) : (state.setCa ca).r = state.r := rfl

@[simp] theorem ca_setCa (state : IntegerState) (ca : Byte) : (state.setCa ca).ca = ca := rfl

@[simp] theorem ca_set (state : IntegerState) (index : Word) (value : BitVec 64) :
    (state.set index value).ca = state.ca := rfl

@[simp] theorem set_setCa (state : IntegerState) (index : Word) (value : BitVec 64) (ca : Byte) :
    (state.setCa ca).set index value = (state.set index value).setCa ca := rfl

end IntegerState

/-! ## Additions -/

/-- What an instruction adds up. -/
structure Addition where
  left : BitVec 64
  right : BitVec 64
  carry : Nat

namespace Addition

def sum (addition : Addition) : BitVec 64 :=
  addition.left + addition.right + BitVec.ofNat 64 addition.carry

/-- The sum of the low words, with its carry. -/
def low (addition : Addition) : Nat :=
  addition.left.toNat % 2 ^ 32 + addition.right.toNat % 2 ^ 32 + addition.carry

/-- The carry out of bit 31. -/
def carryOut (addition : Addition) : Bool := 2 ^ 32 ≤ addition.low

/-- The sum of the signed numbers. -/
def signedSum (addition : Addition) : Int :=
  addition.left.toInt + addition.right.toInt + addition.carry

/-- A number that agrees with the sum modulo its range. -/
theorem ofInt_eq_sum {addition : Addition} {number : Int}
    (same : number % 2 ^ 64 =
      ((addition.left.toNat + addition.right.toNat + addition.carry : Nat) : Int) % 2 ^ 64) :
    BitVec.ofInt 64 number = addition.sum := by
  apply BitVec.eq_of_toNat_eq
  simp only [sum, BitVec.toNat_ofInt, BitVec.toNat_add, BitVec.toNat_ofNat]
  omega

theorem ofInt_signedSum (addition : Addition) :
    BitVec.ofInt 64 addition.signedSum = addition.sum := by
  apply ofInt_eq_sum
  rw [signedSum, BitVec.toInt_eq_toNat_cond, BitVec.toInt_eq_toNat_cond]
  omega

end Addition

inductive CarryInst where
  | addc | adde | addic | addze | addme
  | subfc | subfe | subfze | subfic
  deriving DecidableEq

namespace CarryInst

/-- The sum that an instruction forms; a difference is a sum with the complement. -/
def addition (operand : Nat → Word) (state : IntegerState) : CarryInst → Addition
  | .addc => ⟨a, b, 0⟩
  | .adde => ⟨a, b, state.ca.toNat⟩
  | .addic => ⟨a, immediate, 0⟩
  | .addze => ⟨a, 0#64, state.ca.toNat⟩
  | .addme => ⟨a, BitVec.allOnes 64, state.ca.toNat⟩
  | .subfc => ⟨~~~a, b, 1⟩
  | .subfe => ⟨~~~a, b, state.ca.toNat⟩
  | .subfze => ⟨~~~a, 0#64, state.ca.toNat⟩
  | .subfic => ⟨~~~a, immediate, 1⟩
where
  a : BitVec 64 := state.r (operand 1).toNat
  b : BitVec 64 := state.r (operand 2).toNat
  immediate : BitVec 64 := (operand 2).signExtend 64

/-- The low word of an immediate operand. -/
theorem low_immediate (operand : Nat → Word) :
    (addition.immediate operand).toNat % 2 ^ 32 = (operand 2).toNat := by
  have bound := (operand 2).isLt
  rw [addition.immediate, BitVec.toNat_signExtend, BitVec.toNat_setWidth]
  split <;> omega

theorem toInt_complement (value : BitVec 64) : (~~~value).toInt = -value.toInt - 1 := by
  have bound := value.isLt
  rw [BitVec.toInt_eq_toNat_cond, BitVec.toInt_eq_toNat_cond, BitVec.toNat_not]
  omega

theorem toInt_immediate (operand : Nat → Word) :
    (addition.immediate operand).toInt = (operand 2).toInt :=
  BitVec.toInt_signExtend_of_le (by decide)

def exec (inst : CarryInst) (operand : Nat → Word) (state : IntegerState) : IntegerState :=
  let addition := inst.addition operand state
  (state.set (operand 0) addition.sum).setCarry addition.carryOut

/-- The carry that an addition takes in. -/
def usesCarry : CarryInst → Bool
  | .adde | .addze | .addme | .subfe | .subfze => true
  | .addc | .addic | .subfc | .subfic => false

/-- Whether an addition is that of a difference of registers. -/
def subtracts : CarryInst → Bool
  | .subfc | .subfe | .subfze => true
  | _ => false

/-- The registers that an addition reads. -/
def sources (operand : Nat → Word) : CarryInst → List Nat
  | .addc | .adde | .subfc | .subfe => [(operand 1).toNat, (operand 2).toNat]
  | .addic | .addze | .addme | .subfze | .subfic => [(operand 1).toNat]

variable {inst : CarryInst} {operand : Nat → Word} {state other : IntegerState}

/-- The summands depend on the registers that are read. -/
theorem addition_congr (same : ∀ index ∈ inst.sources operand, state.r index = other.r index) :
    (inst.addition operand state).left = (inst.addition operand other).left ∧
      (inst.addition operand state).right = (inst.addition operand other).right := by
  cases inst <;> simp_all [sources, addition, addition.a, addition.b]

theorem carry_le_one (bit : state.ca.toNat ≤ 1) : (inst.addition operand state).carry ≤ 1 := by
  cases inst <;> simp [addition, bit]

theorem carry_eq_ca (uses : inst.usesCarry) : (inst.addition operand state).carry =
    state.ca.toNat := by
  cases inst <;> simp_all [usesCarry, addition]

theorem ca_exec_le_one : (inst.exec operand state).ca.toNat ≤ 1 := by
  simp only [exec, IntegerState.setCarry, IntegerState.ca_setCa]
  split <;> decide

theorem r_exec_of_ne {index : Nat} (apart : index ≠ (operand 0).toNat) :
    (inst.exec operand state).r index = state.r index :=
  Function.update_of_ne apart _ _

/-- An addition splits the sum of the low words into a word and a carry. -/
theorem low_exec (bit : (inst.addition operand state).carry ≤ 1) :
    ((inst.exec operand state).r (operand 0).toNat).toNat % 2 ^ 32 +
        2 ^ 32 * (inst.exec operand state).ca.toNat = (inst.addition operand state).low := by
  have word : (inst.exec operand state).r (operand 0).toNat = (inst.addition operand state).sum :=
    Function.update_self _ _ _
  have carry : (inst.exec operand state).ca.toNat =
      if 2 ^ 32 ≤ (inst.addition operand state).low then 1 else 0 := by
    simp only [exec, IntegerState.setCarry, IntegerState.ca_setCa, Addition.carryOut,
      decide_eq_true_eq]
    split <;> rfl
  rw [word, carry, Addition.sum, BitVec.toNat_add, BitVec.toNat_add, BitVec.toNat_ofNat]
  by_cases full : 2 ^ 32 ≤ (inst.addition operand state).low
  · rw [if_pos full]
    simp only [Addition.low] at full ⊢
    omega
  · rw [if_neg full]
    simp only [Addition.low] at full ⊢
    omega

end CarryInst

/-! ## Chains of additions -/

/-- An addition with its operands. -/
structure CarryStep where
  inst : CarryInst
  operand : Nat → Word

namespace CarryStep

def target (step : CarryStep) : Nat := (step.operand 0).toNat

def addition (step : CarryStep) (state : IntegerState) : Addition :=
  step.inst.addition step.operand state

def exec (step : CarryStep) (state : IntegerState) : IntegerState :=
  step.inst.exec step.operand state

/-- Run the additions one after the other. -/
def execAll (steps : List CarryStep) (state : IntegerState) : IntegerState :=
  steps.foldl (fun state step => step.exec state) state

theorem execAll_cons (step : CarryStep) (rest : List CarryStep) (state : IntegerState) :
    execAll (step :: rest) state = execAll rest (step.exec state) := rfl

/-- A later addition of a chain uses the carry, and neither reads nor writes the register that an
earlier one wrote. -/
def Follows (earlier later : CarryStep) : Prop :=
  later.inst.usesCarry ∧ earlier.target ∉ later.inst.sources later.operand ∧
    earlier.target ≠ later.target

/-- The number whose words are those of the first summands. -/
def leftNumber (steps : List CarryStep) (state : IntegerState) : Nat :=
  Nat.ofDigits (2 ^ 32) (steps.map fun step => (step.addition state).left.toNat % 2 ^ 32)

def rightNumber (steps : List CarryStep) (state : IntegerState) : Nat :=
  Nat.ofDigits (2 ^ 32) (steps.map fun step => (step.addition state).right.toNat % 2 ^ 32)

/-- The number whose words are those of the registers that are written. -/
def targetNumber (steps : List CarryStep) (state : IntegerState) : Nat :=
  Nat.ofDigits (2 ^ 32) (steps.map fun step => (state.r step.target).toNat % 2 ^ 32)

/-- The number whose words are those of the registers that are subtracted. -/
def subtrahend (steps : List CarryStep) (state : IntegerState) : Nat :=
  Nat.ofDigits (2 ^ 32)
    (steps.map fun step => (state.r (step.operand 1).toNat).toNat % 2 ^ 32)

theorem leftNumber_cons (first : CarryStep) (rest : List CarryStep) (state : IntegerState) :
    leftNumber (first :: rest) state =
      (first.addition state).left.toNat % 2 ^ 32 + 2 ^ 32 * leftNumber rest state := by
  rw [leftNumber, List.map_cons, Nat.ofDigits_cons, leftNumber]

theorem rightNumber_cons (first : CarryStep) (rest : List CarryStep) (state : IntegerState) :
    rightNumber (first :: rest) state =
      (first.addition state).right.toNat % 2 ^ 32 + 2 ^ 32 * rightNumber rest state := by
  rw [rightNumber, List.map_cons, Nat.ofDigits_cons, rightNumber]

theorem targetNumber_cons (first : CarryStep) (rest : List CarryStep) (state : IntegerState) :
    targetNumber (first :: rest) state =
      (state.r first.target).toNat % 2 ^ 32 + 2 ^ 32 * targetNumber rest state := by
  rw [targetNumber, List.map_cons, Nat.ofDigits_cons, targetNumber]

theorem pow_length_cons (first : CarryStep) (rest : List CarryStep) :
    2 ^ (32 * (first :: rest).length) = 2 ^ 32 * 2 ^ (32 * rest.length) := by
  rw [← Nat.pow_add, List.length_cons, Nat.mul_succ, Nat.add_comm]

/-- A register that no step writes. -/
theorem r_execAll_of_ne {steps : List CarryStep} {state : IntegerState} {index : Nat}
    (apart : ∀ step ∈ steps, index ≠ step.target) :
    (execAll steps state).r index = state.r index := by
  induction steps generalizing state with
  | nil => rfl
  | cons step rest ih =>
      have later := @ih (step.exec state) fun other member => apart other (List.mem_cons_of_mem _ member)
      exact later.trans (CarryInst.r_exec_of_ne (apart step List.mem_cons_self))

/-- A step changes no summand of the additions that follow it. -/
theorem numbers_exec {step : CarryStep} {rest : List CarryStep}
    (follows : ∀ later ∈ rest, step.Follows later) (state : IntegerState) :
    leftNumber rest (step.exec state) = leftNumber rest state ∧
      rightNumber rest (step.exec state) = rightNumber rest state := by
  have same : ∀ later ∈ rest,
      (later.addition (step.exec state)).left = (later.addition state).left ∧
        (later.addition (step.exec state)).right = (later.addition state).right := by
    intro later member
    apply CarryInst.addition_congr
    intro index reads
    apply CarryInst.r_exec_of_ne
    rintro rfl
    exact (follows later member).2.1 reads
  constructor
  · rw [leftNumber, leftNumber, List.map_congr_left]
    intro later member
    rw [(same later member).1]
  · rw [rightNumber, rightNumber, List.map_congr_left]
    intro later member
    rw [(same later member).2]

/-- A chain adds up numbers of any length: the words that it writes and the last carry are the sum
of the numbers and of the first carry. -/
theorem execAll_sum {first : CarryStep} {rest : List CarryStep}
    (chain : (first :: rest).Pairwise Follows) {state : IntegerState}
    (bit : (first.addition state).carry ≤ 1) :
    targetNumber (first :: rest) (execAll (first :: rest) state) +
        2 ^ (32 * (first :: rest).length) * (execAll (first :: rest) state).ca.toNat =
      leftNumber (first :: rest) state + rightNumber (first :: rest) state +
        (first.addition state).carry := by
  induction rest generalizing first state with
  | nil =>
      have step := CarryInst.low_exec bit
      simp only [targetNumber, leftNumber, rightNumber, List.map_cons, List.map_nil,
        Nat.ofDigits_singleton, List.length_singleton, Nat.mul_one]
      exact step
  | cons second rest ih =>
      obtain ⟨follows, later⟩ := List.pairwise_cons.mp chain
      have step := CarryInst.low_exec bit
      have carry : (second.addition (first.exec state)).carry = (first.exec state).ca.toNat :=
        CarryInst.carry_eq_ca (follows second List.mem_cons_self).1
      have tail := @ih second later (first.exec state) (carry ▸ CarryInst.ca_exec_le_one)
      have kept : (execAll (first :: second :: rest) state).r first.target =
          (first.exec state).r first.target :=
        r_execAll_of_ne fun other member => (follows other member).2.2
      obtain ⟨left, right⟩ := numbers_exec follows state
      rw [left, right, carry] at tail
      rw [targetNumber_cons first, leftNumber_cons first, rightNumber_cons first, kept,
        pow_length_cons first, Nat.mul_assoc]
      change ((first.exec state).r first.target).toNat % 2 ^ 32 +
        2 ^ 32 * targetNumber (second :: rest) (execAll (second :: rest) (first.exec state)) +
        2 ^ 32 * (2 ^ (32 * (second :: rest).length) *
          (execAll (second :: rest) (first.exec state)).ca.toNat) = _
      change ((first.exec state).r first.target).toNat % 2 ^ 32 +
        2 ^ 32 * (first.exec state).ca.toNat = (first.addition state).left.toNat % 2 ^ 32 +
          (first.addition state).right.toNat % 2 ^ 32 + (first.addition state).carry at step
      omega

/-- The words of a complement. -/
theorem leftNumber_subtracts {steps : List CarryStep}
    (subtracts : ∀ step ∈ steps, step.inst.subtracts) (state : IntegerState) :
    leftNumber steps state + subtrahend steps state + 1 = 2 ^ (32 * steps.length) := by
  induction steps with
  | nil => simp [leftNumber, subtrahend]
  | cons first rest ih =>
      have tail := ih fun step member => subtracts step (List.mem_cons_of_mem _ member)
      have complement : (first.addition state).left = ~~~state.r (first.operand 1).toNat := by
        have this := subtracts first List.mem_cons_self
        rw [addition]
        cases shape : first.inst <;> simp_all [CarryInst.subtracts, CarryInst.addition,
          CarryInst.addition.a]
      have word := (state.r (first.operand 1).toNat).isLt
      rw [leftNumber_cons, complement, BitVec.toNat_not, pow_length_cons, ← tail, subtrahend, List.map_cons,
        Nat.ofDigits_cons, ← subtrahend]
      omega

end CarryStep

/-! ## Rotations -/

/-- The bits of a word from one to another. -/
def bits (insn : Word) (first last : Nat) : Nat :=
  insn.toNat / 2 ^ (31 - last) % 2 ^ (last + 1 - first)

/-- The word whose bits a function gives. -/
def ofBits (bit : Nat → Bool) : (width : Nat) → BitVec width
  | 0 => 0#0
  | width + 1 => (ofBits bit width).concat (bit width)

theorem getMsbD_ofBits (bit : Nat → Bool) (width index : Nat) :
    (ofBits bit width).getMsbD index = (decide (index < width) && bit index) := by
  induction width with
  | zero => simp [ofBits]
  | succ width ih =>
      rw [ofBits, BitVec.getMsbD_concat, ih]
      by_cases last : index = width
      · subst last
        simp
      · by_cases below : index < width
        · simp [below, Nat.lt_succ_of_lt below]
        · simp [below, last, show ¬index < width + 1 by omega]

/-- Ones from a bit to another one, around the end if the latter is in front of the former. -/
def maskBits (first last : Nat) : BitVec 64 :=
  ofBits (fun bit =>
    if first ≤ last then decide (first ≤ bit) && decide (bit ≤ last)
    else decide (first ≤ bit) || decide (bit ≤ last)) 64

/-- The low word twice, which the rotations of words rotate. -/
def doubled (value : BitVec 64) : BitVec 64 := value.setWidth 32 ++ value.setWidth 32

theorem getMsbD_maskBits (first last index : Nat) :
    (maskBits first last).getMsbD index =
      (decide (index < 64) && if first ≤ last then decide (first ≤ index) && decide (index ≤ last)
        else decide (first ≤ index) || decide (index ≤ last)) :=
  getMsbD_ofBits _ _ _

/-- The whole mask of a doubleword. -/
theorem maskBits_full : maskBits 0 63 = BitVec.allOnes 64 := by decide +kernel

/-- The number of a mask up to the last bit. -/
theorem toNat_ones {count : Nat} (most : count ≤ 64) :
    ((1#64 <<< count) - 1#64).toNat = 2 ^ count - 1 := by
  rcases Nat.lt_or_eq_of_le most with below | rfl
  · have bound := Nat.pow_lt_pow_right (show 1 < 2 by decide) below
    have pos := Nat.two_pow_pos count
    rw [BitVec.toNat_sub, BitVec.toNat_shiftLeft, Nat.shiftLeft_eq]
    simp only [BitVec.toNat_ofNat, Nat.one_mod, Nat.reducePow, Nat.one_mul]
    omega
  · decide

/-- A mask up to the last bit. -/
theorem maskBits_tail {count : Nat} (least : 1 ≤ count) (most : count ≤ 64) :
    maskBits (64 - count) 63 = (1#64 <<< count) - 1#64 := by
  apply BitVec.eq_of_getMsbD_eq
  intro index below
  rw [getMsbD_maskBits, if_pos (by omega), BitVec.getMsbD_eq_getLsbD, BitVec.getLsbD,
    toNat_ones most, Nat.testBit_two_pow_sub_one]
  simp only [below, decide_true, Bool.true_and, ← Bool.decide_and, decide_eq_decide]
  omega

/-- The bits of a word that is there twice. -/
theorem getMsbD_append_self (word : BitVec 32) {index : Nat} (below : index < 64) :
    (word ++ word).getMsbD index = word.getMsbD (index % 32) := by
  rw [BitVec.getMsbD_append]
  split
  next upper => rw [show index - 32 = index % 32 by omega]
  next lower => rw [Nat.mod_eq_of_lt (by omega)]

/-- Both words of a doubled word rotate in the same way. -/
theorem rotateLeft_doubled (value : BitVec 64) {count : Nat} (short : count < 32) :
    (doubled value).rotateLeft count =
      (value.setWidth 32).rotateLeft count ++ (value.setWidth 32).rotateLeft count := by
  apply BitVec.eq_of_getMsbD_eq
  intro index below
  rw [BitVec.getMsbD_rotateLeft_of_lt (by omega), doubled, getMsbD_append_self _ (by omega),
    getMsbD_append_self _ below, BitVec.getMsbD_rotateLeft_of_lt short]
  simp only [below, Nat.mod_lt index (show 0 < 32 by decide), decide_true, Bool.true_and]
  congr 1
  omega

/-- A mask of a word that does not wrap leaves out the upper word. -/
theorem append_and_maskBits (high low : BitVec 32) {first last : Nat} (order : first ≤ last) :
    (high ++ low) &&& maskBits (first + 32) (last + 32) =
      (0#32 ++ low) &&& maskBits (first + 32) (last + 32) := by
  apply BitVec.eq_of_getMsbD_eq
  intro index below
  rw [BitVec.getMsbD_and, BitVec.getMsbD_and, BitVec.getMsbD_append, BitVec.getMsbD_append,
    getMsbD_maskBits, if_pos (Nat.add_le_add_right order 32)]
  by_cases lower : 32 ≤ index
  · rw [if_pos lower, if_pos lower]
  · simp [show ¬first + 32 ≤ index by omega]

/-- The whole mask of a word keeps the lower word. -/
theorem append_and_maskBits_full (high low : BitVec 32) :
    (high ++ low) &&& maskBits (0 + 32) (31 + 32) = 0#32 ++ low := by
  rw [append_and_maskBits high low (by decide)]
  apply BitVec.eq_of_getMsbD_eq
  intro index below
  rw [BitVec.getMsbD_and, BitVec.getMsbD_append, getMsbD_maskBits,
    if_pos (show 0 + 32 ≤ 31 + 32 by decide)]
  by_cases lower : 32 ≤ index
  · simp [lower, show index < 64 by omega, show index ≤ 63 by omega]
  · simp [lower]

/-- A mask of a word that wraps covers the upper word. -/
theorem append_and_maskBits_inj {high low : BitVec 32} {first last : Nat} (wraps : last < first)
    (same : (high ++ low) &&& maskBits (first + 32) (last + 32) =
      (0#32 ++ low) &&& maskBits (first + 32) (last + 32)) : high = 0#32 := by
  apply BitVec.eq_of_getMsbD_eq
  intro index below
  have bit := congrArg (fun value => value.getMsbD index) same
  simp only [BitVec.getMsbD_and, BitVec.getMsbD_append, getMsbD_maskBits] at bit
  rw [if_neg (by omega), if_neg (by omega), if_neg (by omega)] at bit
  simpa [show index < 64 by omega, show index ≤ last + 32 by omega] using bit

/-- The register that a rotation or a shift reads. -/
def source (insn : Word) (state : IntegerState) : BitVec 64 := state.r (bits insn 6 10)

/-- The register that it writes. -/
def target (insn : Word) : Nat := bits insn 11 15

/-- The register that it may read a count from. -/
def countRegister (insn : Word) (state : IntegerState) : Nat :=
  (state.r (bits insn 16 20)).toNat

/-- A rotated register, the mask over it, and whether the target keeps its bits outside the
mask. -/
structure Rotation where
  value : BitVec 64
  mask : BitVec 64
  inserts : Bool

namespace Rotation

/-- The fields of the forms that rotate a word. -/
def sh (insn : Word) : Nat := bits insn 16 20
def mb (insn : Word) : Nat := bits insn 21 25
def me (insn : Word) : Nat := bits insn 26 30

/-- The split fields of the forms that rotate a doubleword. -/
def sh6 (insn : Word) : Nat := 32 * bits insn 30 30 + bits insn 16 20
def mb6 (insn : Word) : Nat := 32 * bits insn 26 26 + bits insn 21 25

/-- The rotation of a word with an immediate count. -/
def word (insn : Word) (state : IntegerState) (inserts : Bool) : Rotation where
  value := (doubled (source insn state)).rotateLeft (sh insn)
  mask := maskBits (mb insn + 32) (me insn + 32)
  inserts

/-- The rotation of a doubleword with an immediate count. -/
def doubleword (insn : Word) (state : IntegerState) (first last : Nat) (inserts : Bool) :
    Rotation where
  value := (source insn state).rotateLeft (sh6 insn)
  mask := maskBits first last
  inserts

/-- What the instruction words with an immediate count, and `rlwnm`, rotate. -/
def decode (insn : Word) (state : IntegerState) : Option Rotation :=
  match bits insn 0 5, bits insn 27 29 with
  | 20, _ => some (word insn state true)
  | 21, _ => some (word insn state false)
  | 23, _ =>
    some
      { value := (doubled (source insn state)).rotateLeft (countRegister insn state % 32)
        mask := maskBits (mb insn + 32) (me insn + 32)
        inserts := false }
  | 30, 0 => some (doubleword insn state (mb6 insn) 63 false)
  | 30, 1 => some (doubleword insn state 0 (mb6 insn) false)
  | 30, 2 => some (doubleword insn state (mb6 insn) (63 - sh6 insn) false)
  | 30, 3 => some (doubleword insn state (mb6 insn) (63 - sh6 insn) true)
  | _, _ => none

section

variable {insn : Word} {state : IntegerState}

theorem decode_rlwimi (op : bits insn 0 5 = 20) :
    decode insn state = some (word insn state true) := by
  simp [decode, op]

theorem decode_rlwinm (op : bits insn 0 5 = 21) :
    decode insn state = some (word insn state false) := by
  simp [decode, op]

theorem decode_rlwnm (op : bits insn 0 5 = 23) :
    decode insn state =
      some
        { value := (doubled (source insn state)).rotateLeft (countRegister insn state % 32)
          mask := maskBits (mb insn + 32) (me insn + 32)
          inserts := false } := by
  simp [decode, op]

theorem decode_rldicl (op : bits insn 0 5 = 30) (form : bits insn 27 29 = 0) :
    decode insn state = some (doubleword insn state (mb6 insn) 63 false) := by
  simp [decode, op, form]

theorem decode_rldicr (op : bits insn 0 5 = 30) (form : bits insn 27 29 = 1) :
    decode insn state = some (doubleword insn state 0 (mb6 insn) false) := by
  simp [decode, op, form]

theorem decode_isSome (op : bits insn 0 5 = 20 ∨ bits insn 0 5 = 21 ∨ bits insn 0 5 = 23 ∨
    bits insn 0 5 = 30 ∧ (bits insn 27 29 = 0 ∨ bits insn 27 29 = 1 ∨ bits insn 27 29 = 3)) :
    (decode insn state).isSome := by
  rcases op with op | op | op | ⟨op, form | form | form⟩
  · simp [decode, op]
  · simp [decode, op]
  · simp [decode, op]
  · simp [decode, op, form]
  · simp [decode, op, form]
  · simp [decode, op, form]

theorem decode_rldimi (op : bits insn 0 5 = 30) (form : bits insn 27 29 = 3) :
    decode insn state = some (doubleword insn state (mb6 insn) (63 - sh6 insn) true) := by
  simp [decode, op, form]

end

def result (rotation : Rotation) (target : BitVec 64) : BitVec 64 :=
  (rotation.value &&& rotation.mask) |||
    (if rotation.inserts then target &&& ~~~rotation.mask else 0#64)

/-- Run the rotation of an instruction word. -/
def exec (insn : Word) (state : IntegerState) : Option IntegerState :=
  (decode insn state).map fun rotation =>
    { state with
      r := Function.update state.r (target insn) (rotation.result (state.r (target insn))) }

end Rotation

/-! ## Shifts -/

/-- A shifted register; an algebraic shift writes the carry. -/
structure Shift where
  value : BitVec 64
  carry : Option Bool

namespace Shift

/-- A shift that fills with the sign. It carries if a negative number loses ones. -/
def algebraic {width : Nat} (value : BitVec width) (count : Nat) : Shift where
  value := (value.sshiftRight count).signExtend 64
  carry := some (value.msb && decide (value.toNat % 2 ^ count ≠ 0))

section

variable {width : Nat} (value : BitVec width)

theorem value_algebraic (count : Nat) :
    (algebraic value count).value = BitVec.ofInt 64 (value.toInt / 2 ^ count) := by
  rw [algebraic, BitVec.signExtend, BitVec.toInt_sshiftRight, Int.shiftRight_eq_div_pow]
  norm_cast

/-- A shift by more bits than there are leaves the sign, as the longest shift does. -/
theorem ediv_clamp (count : Nat) :
    value.toInt / 2 ^ min count (width - 1) = value.toInt / 2 ^ count := by
  rcases Nat.le_total count (width - 1) with short | long
  · rw [Nat.min_eq_left short]
  · have least : -(2 : Int) ^ (width - 1) ≤ value.toInt := BitVec.le_toInt value
    have most : value.toInt < 2 ^ (width - 1) := BitVec.toInt_lt
    have sign : ∀ count : Nat, width - 1 ≤ count →
        value.toInt / 2 ^ count = if value.toInt < 0 then -1 else 0 := by
      intro count long
      have larger : (2 : Int) ^ (width - 1) ≤ 2 ^ count := pow_le_pow_right₀ (by decide) long
      split
      next negative =>
        rw [Int.ediv_eq_iff_of_pos (pow_pos (by decide) _)]
        omega
      next positive => exact Int.ediv_eq_zero_of_lt (by omega) (by omega)
    rw [Nat.min_eq_right long, sign _ (Nat.le_refl _), sign _ long]

/-- The bits that a shift loses. -/
theorem emod_toInt {count : Nat} (short : count ≤ width) :
    value.toInt % 2 ^ count = (value.toNat % 2 ^ count : Nat) := by
  have divides : (2 : Int) ^ count ∣ 2 ^ width := pow_dvd_pow 2 short
  have whole : ((2 ^ width : Nat) : Int) = 2 ^ width := by norm_cast
  rw [BitVec.toInt_eq_toNat_bmod, ← Int.emod_emod_of_dvd _ divides, ← whole, Int.bmod_emod, whole,
    Int.emod_emod_of_dvd _ divides]
  norm_cast

/-- The carry of a shift by at most the width. -/
theorem carry_algebraic {count : Nat} (short : count ≤ width) :
    (algebraic value count).carry =
      some (decide (value.toInt < 0) && decide (value.toInt % 2 ^ count ≠ 0)) := by
  rw [algebraic, emod_toInt value short, BitVec.msb_eq_toInt]
  norm_cast

/-- Clamping the count changes the carry only of the least number. -/
theorem carry_clamp_iff (pos : 0 < width) (count : Nat) :
    some (decide (value.toInt < 0) && decide (value.toInt % 2 ^ min count (width - 1) ≠ 0)) =
        (algebraic value count).carry ↔ ¬(width ≤ count ∧ value = BitVec.intMin width) := by
  by_cases long : width ≤ count
  · have least : -(2 : Int) ^ (width - 1) ≤ value.toInt := BitVec.le_toInt value
    have modulus : (0 : Int) < 2 ^ (width - 1) := pow_pos (by decide) _
    have carried : (algebraic value count).carry = some (decide (value.toInt < 0)) := by
      have fits : value.toNat % 2 ^ count = value.toNat :=
        Nat.mod_eq_of_lt (Nat.lt_of_lt_of_le value.isLt (Nat.pow_le_pow_right (by decide) long))
      rw [algebraic, fits, BitVec.msb_eq_toInt]
      by_cases negative : value.toInt < 0
      · have nonzero : value.toNat ≠ 0 := by
          intro zero
          have none : value = 0 := BitVec.eq_of_toNat_eq (by simpa using zero)
          rw [none] at negative
          simp at negative
        simp [negative, nonzero]
      · simp [negative]
    have minimum : value = BitVec.intMin width ↔ value.toInt = -2 ^ (width - 1) := by
      rw [← BitVec.toInt_inj, BitVec.toInt_intMin_of_pos pos]
    have divisible : value.toInt < 0 → (value.toInt % 2 ^ (width - 1) = 0 ↔
        value.toInt = -2 ^ (width - 1)) := by
      intro negative
      constructor
      · intro zero
        have shifted : (value.toInt + 2 ^ (width - 1)) % 2 ^ (width - 1) = 0 := by
          rw [Int.add_emod_right, zero]
        rw [Int.emod_eq_of_lt (by omega) (by omega)] at shifted
        omega
      · intro same
        rw [same, Int.neg_emod_self]
    rw [carried, Nat.min_eq_right (by omega), and_iff_right long, minimum, Option.some_inj]
    by_cases negative : value.toInt < 0
    · simp only [negative, decide_true, Bool.true_and, decide_eq_true_eq, ne_eq, divisible negative]
    · have apart : value.toInt ≠ -2 ^ (width - 1) := by omega
      simp only [negative, decide_false, Bool.false_and, apart, not_false_eq_true]
  · rw [carry_algebraic value (by omega), Nat.min_eq_left (by omega)]
    simp [long]

end

/-- What the instruction words shift. A count register has one bit more than is needed. -/
def decode (insn : Word) (state : IntegerState) : Option Shift :=
  let source := source insn state
  let low := source.setWidth 32
  let count := countRegister insn state
  match bits insn 0 5, bits insn 21 30 with
  | 31, 24 => some ⟨(low <<< (count % 64)).setWidth 64, none⟩
  | 31, 536 => some ⟨(low >>> (count % 64)).setWidth 64, none⟩
  | 31, 27 => some ⟨source <<< (count % 128), none⟩
  | 31, 539 => some ⟨source >>> (count % 128), none⟩
  | 31, 792 => some (algebraic low (count % 64))
  | 31, 794 => some (algebraic source (count % 128))
  | 31, 824 => some (algebraic low (Rotation.sh insn))
  | 31, 826 | 31, 827 => some (algebraic source (Rotation.sh6 insn))
  | _, _ => none

section

variable {insn : Word} {state : IntegerState}

theorem decode_slw (op : bits insn 0 5 = 31) (form : bits insn 21 30 = 24) :
    decode insn state = some
      ⟨((source insn state).setWidth 32 <<< (countRegister insn state % 64)).setWidth 64, none⟩ := by
  simp [decode, op, form]

theorem decode_srw (op : bits insn 0 5 = 31) (form : bits insn 21 30 = 536) :
    decode insn state = some
      ⟨((source insn state).setWidth 32 >>> (countRegister insn state % 64)).setWidth 64, none⟩ := by
  simp [decode, op, form]

theorem decode_sld (op : bits insn 0 5 = 31) (form : bits insn 21 30 = 27) :
    decode insn state = some
      ⟨source insn state <<< (countRegister insn state % 128), none⟩ := by
  simp [decode, op, form]

theorem decode_srd (op : bits insn 0 5 = 31) (form : bits insn 21 30 = 539) :
    decode insn state = some
      ⟨source insn state >>> (countRegister insn state % 128), none⟩ := by
  simp [decode, op, form]

theorem decode_sraw (op : bits insn 0 5 = 31) (form : bits insn 21 30 = 792) :
    decode insn state = some
      (algebraic ((source insn state).setWidth 32) (countRegister insn state % 64)) := by
  simp [decode, op, form]

theorem decode_srad (op : bits insn 0 5 = 31) (form : bits insn 21 30 = 794) :
    decode insn state = some
      (algebraic (source insn state) (countRegister insn state % 128)) := by
  simp [decode, op, form]

theorem decode_srawi (op : bits insn 0 5 = 31) (form : bits insn 21 30 = 824) :
    decode insn state = some
      (algebraic ((source insn state).setWidth 32) (Rotation.sh insn)) := by
  simp [decode, op, form]

theorem decode_sradi (op : bits insn 0 5 = 31) (form : bits insn 21 29 = 413) :
    decode insn state = some (algebraic (source insn state) (Rotation.sh6 insn)) := by
  have forms : bits insn 21 30 = 826 ∨ bits insn 21 30 = 827 := by
    rw [bits] at form ⊢
    omega
  rcases forms with form | form
  · simp [decode, op, form]
  · simp [decode, op, form]

end

/-- Run the shift of an instruction word. -/
def exec (insn : Word) (state : IntegerState) : Option IntegerState :=
  (decode insn state).map fun shift =>
    let shifted := { state with r := Function.update state.r (target insn) shift.value }
    match shift.carry with
    | some carry => shifted.setCarry carry
    | none => shifted

end Shift

end UfcRecomp.Ppc
