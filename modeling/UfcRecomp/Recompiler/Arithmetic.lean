import Mathlib.Algebra.Order.Ring.Abs
import UfcRecomp.Lib.CEval
import UfcRecomp.Ppc.Arithmetic
import UfcRecomp.Recompiler.IntegerRuns

/-!
# Arithmetic instructions

The statements of sums, differences, products and quotients use the operators of C++ on numbers
with a sign, which have no meaning where their result does not fit, and no meaning for a divisor of
zero.
-/

namespace UfcRecomp.Recompiler

open UfcRecomp.Lib UfcRecomp.Ppc

namespace ArithmeticInst

open UfcRecomp.Ppc.ArithmeticInst

variable (operand : Nat → Word) (state : IntegerState)

/-- The case of an instruction; those of `mulli`, `addi` and `addis` have no record form. -/
def statements (record : Bool) : ArithmeticInst → List (CStatement Object)
  | .divw => IntegerInst.divw.statements record operand
  | .divwu => IntegerInst.divwu.statements record operand
  | .divd => IntegerInst.divd.statements record operand
  | .divdu => IntegerInst.divdu.statements record operand
  | .mulli =>
    [IntegerInst.setReg operand .s64
      (IntegerInst.reg operand .s64 1 * IntegerInst.simm operand 2)]
  | .mulld => IntegerInst.mulld.statements record operand
  | .mullw => IntegerInst.mullw.statements record operand
  | .mulhw => IntegerInst.mulhw.statements record operand
  | .mulhd => IntegerInst.mulhd.statements record operand
  | .neg => IntegerInst.neg.statements record operand
  | .subf => IntegerInst.subf.statements record operand
  | .addi =>
    [IntegerInst.setReg operand .s64
      (if operand 1 ≠ 0 then IntegerInst.reg operand .s64 1 + IntegerInst.simm operand 2
      else IntegerInst.simm operand 2)]
  | .addis =>
    let simm : Expr Object := .signedDecimal (operand 2 <<< 16).toInt
    [IntegerInst.setReg operand .s64
      (if operand 1 ≠ 0 then IntegerInst.reg operand .s64 1 + simm else simm)]

/-- The statements have a meaning: the quotient exists, and a result with a sign fits. -/
def Fits : ArithmeticInst → Prop
  | .mulli => IntType.s64.Holds ((a operand state).toInt * (operand 2).toInt)
  | .mulld => IntType.s64.Holds ((a operand state).toInt * (b operand state).toInt)
  | .neg => a operand state ≠ BitVec.intMin 64
  | .subf => IntType.s64.Holds ((b operand state).toInt - (a operand state).toInt)
  | .addi => operand 1 = 0 ∨ IntType.s64.Holds ((a operand state).toInt + (operand 2).toInt)
  | .addis =>
    operand 1 = 0 ∨ IntType.s64.Holds ((a operand state).toInt + (operand 2 <<< 16).toInt)
  | inst => inst.Defined operand state

/-! ## A statement -/

/-- What is assigned, and the member of the register. -/
def type : ArithmeticInst → IntType
  | .divw => .s32
  | .divwu => .u32
  | .divdu => .u64
  | _ => .s64

def value : ArithmeticInst → Expr Object
  | .divw => IntegerInst.reg operand .s32 1 / IntegerInst.reg operand .s32 2
  | .divwu => IntegerInst.reg operand .u32 1 / IntegerInst.reg operand .u32 2
  | .divd => IntegerInst.reg operand .s64 1 / IntegerInst.reg operand .s64 2
  | .divdu => IntegerInst.reg operand .u64 1 / IntegerInst.reg operand .u64 2
  | .mulli => IntegerInst.reg operand .s64 1 * IntegerInst.simm operand 2
  | .mulld => IntegerInst.reg operand .s64 1 * IntegerInst.reg operand .s64 2
  | .mullw =>
    .convert .s64 (IntegerInst.reg operand .s32 1) * .convert .s64 (IntegerInst.reg operand .s32 2)
  | .mulhw =>
    (.convert .s64 (IntegerInst.reg operand .s32 1) *
      .convert .s64 (IntegerInst.reg operand .s32 2)) >>> .decimal 32
  | .mulhd =>
    .convert .s64 ((.convert .s128 (IntegerInst.reg operand .s64 1) *
      .convert .s128 (IntegerInst.reg operand .s64 2)) >>> .decimal 64)
  | .neg => -IntegerInst.reg operand .s64 1
  | .subf => IntegerInst.reg operand .s64 2 - IntegerInst.reg operand .s64 1
  | .addi =>
    if operand 1 ≠ 0 then IntegerInst.reg operand .s64 1 + IntegerInst.simm operand 2
    else IntegerInst.simm operand 2
  | .addis =>
    if operand 1 ≠ 0 then
      IntegerInst.reg operand .s64 1 + .signedDecimal (operand 2 <<< 16).toInt
    else .signedDecimal (operand 2 <<< 16).toInt

variable (store : Store Object)

/-- Behind the assignment there is at most a comparison. -/
theorem outcome_statements (record : Bool) (inst : ArithmeticInst) :
    outcome store (statements operand record inst) =
      ((value operand inst).eval store).map fun number =>
        view (store.write (r (type inst) (operand 0)) number) := by
  have assigned : ∀ (type : IntType) (value : Expr Object),
      outcome store [IntegerInst.setReg operand type value] =
        (value.eval store).map fun number => view (store.write (r type (operand 0)) number) := by
    intro type value
    rw [outcome, CStatement.run_cons, IntegerInst.setReg, CStatement.step]
    cases value.eval store <;> rfl
  cases inst with
  | divw | divwu | divdu | mullw | neg | subf =>
      exact (outcome_recordForm store record operand _).trans (assigned _ _)
  | divd | mulli | mulld | mulhw | mulhd | addi | addis => exact assigned _ _

/-- A number that is assigned to a lower word. -/
theorem low_write {type : IntType} (size : type.size = 4) (index : Word) (number : Int) :
    low ((view (store.write (r type index) number)).r index.toNat) = BitVec.ofInt 32 number := by
  have written : (store.write (r type index) number).read (r .u32 index) = number % 2 ^ 32 :=
    (Store.read_write_of_le (Nat.le_of_eq size.symm)).trans (IntType.wrap_unsigned 4 number)
  rw [read_u32] at written
  apply BitVec.eq_of_toNat_eq
  rw [low, BitVec.toNat_setWidth, BitVec.toNat_ofInt]
  omega

/-- An assignment to a register leaves the other ones and the carry. -/
theorem view_write_other (type : IntType) (index : Word) (number : Int) :
    (∀ other, other ≠ index.toNat →
      (view (store.write (r type index) number)).r other = (view store).r other) ∧
      (view (store.write (r type index) number)).ca = (view store).ca := by
  constructor
  · intro other apart
    simp only [view]
    rw [Store.read_write_of_ne (by simpa [r] using apart)]
  · simp only [view]
    rw [Store.write_of_ne (by simp [r])]

/-- The place of a result is a whole register, or a lower word where no more is defined. -/
theorem size_type (inst : ArithmeticInst) :
    (type inst).size = 8 ∨ (type inst).size = 4 ∧ inst.word = true := by
  cases inst <;> decide

/-- An assignment of the result. -/
theorem agrees_write {inst : ArithmeticInst} {number : Int}
    (same : inst.Defined operand (view store) →
      if inst.word then low (BitVec.ofInt 64 number) = low (inst.result operand (view store))
      else BitVec.ofInt 64 number = inst.result operand (view store)) :
    inst.Agrees operand (view store)
      (view (store.write (r (type inst) (operand 0)) number)) := by
  obtain ⟨registers, carry⟩ := view_write_other store (type inst) (operand 0) number
  refine ⟨fun defined => ?_, registers, carry⟩
  have result := same defined
  obtain whole | ⟨half, word⟩ := size_type inst
  · have written : (view (store.write (r (type inst) (operand 0)) number)).r (operand 0).toNat =
        BitVec.ofInt 64 number := by
      rw [view_write_r store whole]
      exact Function.update_self ..
    rw [written]
    exact result
  · rw [if_pos word] at result ⊢
    rw [low_write store half, ← result, low]
    apply BitVec.eq_of_toNat_eq
    rw [BitVec.toNat_setWidth, BitVec.toNat_ofInt, BitVec.toNat_ofInt]
    omega

/-! ## Values -/

/-- Registers are read as numbers with and without a sign. -/
theorem eval_s64 (index : Nat) :
    (IntegerInst.reg operand .s64 index).eval store =
      some (source store operand index).toInt := congrArg some (read_s64 store _)

theorem eval_s32 (index : Nat) :
    (IntegerInst.reg operand .s32 index).eval store =
      some (low (source store operand index)).toInt := congrArg some (read_s32 store _)

theorem wrap_toInt (value : BitVec 32) : IntType.s32.wrap value.toInt = value.toInt := by
  have bound := value.isLt
  rw [IntType.wrap_signed, BitVec.toInt_eq_toNat_cond]
  omega

/-- A quotient of numbers with a sign, of 32 bits. -/
theorem result_div_s32 (x y : BitVec 32) :
    (if y.toInt = 0 then none else IntType.s32.result (x.toInt.tdiv y.toInt)) =
      if y ≠ 0 ∧ ¬(x = BitVec.intMin 32 ∧ y = -1) then some (x.sdiv y).toInt else none := by
  have zero : y.toInt = 0 ↔ y = 0 := by
    rw [← BitVec.toInt_inj]
    rfl
  by_cases none : y = 0
  · rw [if_pos (zero.mpr none), if_neg fun both => both.1 none]
  rw [if_neg (mt zero.mp none)]
  by_cases least : x = BitVec.intMin 32 ∧ y = -1
  · rw [if_neg fun both => both.2 least, least.1, least.2]
    rfl
  · have quotient := BitVec.toInt_sdiv_of_ne_or_ne x y (not_and_or.mp least)
    rw [if_pos ⟨none, least⟩, ← quotient]
    exact IntType.result_of_holds (wrap_toInt _)

/-- The same of 64 bits. -/
theorem result_div_s64 (x y : BitVec 64) :
    (if y.toInt = 0 then none else IntType.s64.result (x.toInt.tdiv y.toInt)) =
      if y ≠ 0 ∧ ¬(x = BitVec.intMin 64 ∧ y = -1) then some (x.sdiv y).toInt else none := by
  have zero : y.toInt = 0 ↔ y = 0 := by
    rw [← BitVec.toInt_inj]
    rfl
  by_cases none : y = 0
  · rw [if_pos (zero.mpr none), if_neg fun both => both.1 none]
  rw [if_neg (mt zero.mp none)]
  by_cases least : x = BitVec.intMin 64 ∧ y = -1
  · rw [if_neg fun both => both.2 least, least.1, least.2]
    rfl
  · have quotient := BitVec.toInt_sdiv_of_ne_or_ne x y (not_and_or.mp least)
    rw [if_pos ⟨none, least⟩, ← quotient]
    exact IntType.result_of_holds (wrap_s64_toInt _)

/-- An operation on numbers that its common type has. -/
theorem eval_common {op : Binary} {left right : Expr Object} {type : IntType} {x y : Int}
    (common : left.type.common right.type = type)
    (plain : op.apply left.type right.type x y = op.applyCommon (left.type.common right.type)
      ((left.type.common right.type).wrap x) ((left.type.common right.type).wrap y))
    (leftIs : left.eval store = some x) (rightIs : right.eval store = some y)
    (leftFits : type.wrap x = x) (rightFits : type.wrap y = y) :
    (Expr.binary op left right).eval store = op.applyCommon type x y := by
  rw [Expr.eval, leftIs, rightIs, Option.bind_some, Option.bind_some, plain, common, leftFits,
    rightFits]

section Computes

variable {operand store} {inst : ArithmeticInst}

/-- What an instruction computes, if its statements have a meaning: a number with the bits of the
result. -/
structure Computes (operand : Nat → Word) (store : Store Object) (inst : ArithmeticInst) : Prop where
  some_of_fits : Fits operand (view store) inst → ∃ number,
    (value operand inst).eval store = some number ∧ (inst.Defined operand (view store) →
      if inst.word then low (BitVec.ofInt 64 number) = low (inst.result operand (view store))
      else BitVec.ofInt 64 number = inst.result operand (view store))
  none_of_not_fits : ¬Fits operand (view store) inst → (value operand inst).eval store = none

/-- An instruction whose number depends on a condition. -/
theorem Computes.of_ite {meaning : Prop} [Decidable meaning] {number : Int}
    (evaluated : (value operand inst).eval store = if meaning then some number else none)
    (fits : meaning ↔ Fits operand (view store) inst)
    (right : if inst.word then low (BitVec.ofInt 64 number) = low (inst.result operand (view store))
      else BitVec.ofInt 64 number = inst.result operand (view store)) :
    Computes operand store inst where
  some_of_fits holds := ⟨number, by rw [evaluated, if_pos (fits.mpr holds)], fun _ => right⟩
  none_of_not_fits lost := by rw [evaluated, if_neg (mt fits.mp lost)]

/-- A word is the lower one of the number that it stands for. -/
theorem low_ofInt_toInt (word : BitVec 32) : low (BitVec.ofInt 64 word.toInt) = word := by
  have bound := word.isLt
  apply BitVec.eq_of_toNat_eq
  rw [low, BitVec.toNat_setWidth, BitVec.toNat_ofInt, BitVec.toInt_eq_toNat_cond]
  omega

theorem low_ofInt_toNat (word : BitVec 32) : low (BitVec.ofInt 64 word.toNat) = word := by
  have bound := word.isLt
  apply BitVec.eq_of_toNat_eq
  rw [low, BitVec.toNat_setWidth, BitVec.toNat_ofInt]
  omega

theorem ofInt_toNat (value : BitVec 64) : BitVec.ofInt 64 value.toNat = value := by
  have bound := value.isLt
  apply BitVec.eq_of_toNat_eq
  rw [BitVec.toNat_ofInt]
  omega

theorem low_setWidth (word : BitVec 32) : low (word.setWidth 64) = word := by
  have bound := word.isLt
  apply BitVec.eq_of_toNat_eq
  rw [low, BitVec.toNat_setWidth, BitVec.toNat_setWidth]
  omega

/-! ### Quotients -/

theorem computes_divw : Computes operand store .divw := by
  have evaluated : (value operand .divw).eval store = _ :=
    (eval_common store rfl rfl (eval_s32 operand store 1) (eval_s32 operand store 2)
      (wrap_toInt _) (wrap_toInt _)).trans (result_div_s32 _ _)
  apply Computes.of_ite evaluated Iff.rfl
  exact (low_ofInt_toInt _).trans (low_setWidth _).symm

theorem computes_divd : Computes operand store .divd := by
  have evaluated : (value operand .divd).eval store = _ :=
    (eval_common store rfl rfl (eval_s64 operand store 1) (eval_s64 operand store 2)
      (wrap_s64_toInt _) (wrap_s64_toInt _)).trans (result_div_s64 _ _)
  apply Computes.of_ite evaluated Iff.rfl
  exact BitVec.ofInt_toInt

/-- A quotient of numbers without a sign. -/
theorem result_div_unsigned {size : Nat} (x y : BitVec (8 * size)) :
    (if (y.toNat : Int) = 0 then none
      else IntType.result ⟨size, false⟩ ((x.toNat : Int).tdiv y.toNat)) =
      if y ≠ 0 then some ((x / y).toNat : Int) else none := by
  have zero : (y.toNat : Int) = 0 ↔ y = 0 := by
    rw [Int.natCast_eq_zero, ← BitVec.toNat_inj]
    rfl
  by_cases none : y = 0
  · rw [if_pos (zero.mpr none), if_neg fun nonzero => nonzero none]
  · have quotient : (x.toNat : Int).tdiv y.toNat = (x / y).toNat := by
      rw [BitVec.toNat_udiv]
      rfl
    have below : ((x / y).toNat : Int) < 2 ^ (8 * size) := by exact_mod_cast (x / y).isLt
    rw [if_neg (mt zero.mp none), if_pos none, quotient, IntType.result_unsigned,
      Int.emod_eq_of_lt (Int.natCast_nonneg _) below]

/-- A number of a vector of bits is one of the type without a sign. -/
theorem wrap_toNat {size : Nat} (value : BitVec (8 * size)) :
    IntType.wrap ⟨size, false⟩ value.toNat = value.toNat := by
  have below : (value.toNat : Int) < 2 ^ (8 * size) := by exact_mod_cast value.isLt
  rw [IntType.wrap_unsigned, Int.emod_eq_of_lt (Int.natCast_nonneg _) below]

theorem computes_divwu : Computes operand store .divwu := by
  have evaluated : (value operand .divwu).eval store = _ :=
    (eval_common store rfl rfl (eval_u32 store operand 1) (eval_u32 store operand 2)
      (@wrap_toNat 4 _) (@wrap_toNat 4 _)).trans (@result_div_unsigned 4 _ _)
  apply Computes.of_ite evaluated Iff.rfl
  exact (low_ofInt_toNat _).trans (low_setWidth _).symm

theorem computes_divdu : Computes operand store .divdu := by
  have evaluated : (value operand .divdu).eval store = _ :=
    (eval_common store rfl rfl (eval_u64 store operand 1) (eval_u64 store operand 2)
      (@wrap_toNat 8 _) (@wrap_toNat 8 _)).trans (@result_div_unsigned 8 _ _)
  apply Computes.of_ite evaluated Iff.rfl
  exact ofInt_toNat _

/-! ### Sums, differences and products -/

/-- A result with a sign, which is there if it fits. -/
theorem Computes.of_result {number : Int}
    (evaluated : (value operand inst).eval store = IntType.s64.result number)
    (fits : IntType.s64.Holds number ↔ Fits operand (view store) inst)
    (right : BitVec.ofInt 64 number = inst.result operand (view store))
    (whole : inst.word = false) : Computes operand store inst := by
  apply Computes.of_ite (evaluated.trans (IntType.result_signed 8 number)) fits
  rw [if_neg (by rw [whole]; decide)]
  exact right

theorem computes_mulli : Computes operand store .mulli := by
  have evaluated : (value operand .mulli).eval store = _ :=
    eval_common store (common_s64_simm operand 2) rfl (eval_s64 operand store 1)
      (eval_simm store operand 2) (wrap_s64_toInt _) (wrap_s64_word _)
  apply Computes.of_result evaluated Iff.rfl _ rfl
  rw [BitVec.ofInt_mul, BitVec.ofInt_toInt]
  rfl

theorem computes_mulld : Computes operand store .mulld := by
  have evaluated : (value operand .mulld).eval store = _ :=
    eval_common store rfl rfl (eval_s64 operand store 1) (eval_s64 operand store 2)
      (wrap_s64_toInt _) (wrap_s64_toInt _)
  apply Computes.of_result evaluated Iff.rfl _ rfl
  rw [BitVec.ofInt_mul, BitVec.ofInt_toInt, BitVec.ofInt_toInt]
  rfl

theorem computes_subf : Computes operand store .subf := by
  have evaluated : (value operand .subf).eval store = _ :=
    eval_common store rfl rfl (eval_s64 operand store 2) (eval_s64 operand store 1)
      (wrap_s64_toInt _) (wrap_s64_toInt _)
  apply Computes.of_result evaluated Iff.rfl _ rfl
  rw [Int.sub_eq_add_neg, BitVec.ofInt_add, BitVec.ofInt_neg, BitVec.ofInt_toInt,
    BitVec.ofInt_toInt, ← BitVec.sub_eq_add_neg]
  rfl

theorem computes_neg : Computes operand store .neg := by
  have evaluated : (value operand .neg).eval store =
      IntType.s64.result (-(a operand (view store)).toInt) := by
    rw [value, Expr.neg_eq, Expr.eval, eval_s64, Option.bind_some]
    rfl
  apply Computes.of_result evaluated _ _ rfl
  · have least : a operand (view store) = BitVec.intMin 64 ↔
        (a operand (view store)).toInt = -2 ^ 63 := by
      rw [← BitVec.toInt_inj]
      rfl
    have low := BitVec.le_toInt (a operand (view store))
    have high := BitVec.toInt_lt (x := a operand (view store))
    rw [IntType.holds_s64_iff, Fits, Ne, least]
    omega
  · rw [BitVec.ofInt_neg, BitVec.ofInt_toInt]
    rfl

/-- A product of numbers with a sign, by their bounds. -/
theorem product_bounds {x y bound : Int} (left : -bound ≤ x ∧ x < bound)
    (right : -bound ≤ y ∧ y < bound) : -(bound * bound) ≤ x * y ∧ x * y ≤ bound * bound := by
  have leftBound : |x| ≤ bound := abs_le.mpr ⟨left.1, left.2.le⟩
  have rightBound : |y| ≤ bound := abs_le.mpr ⟨right.1, right.2.le⟩
  have product : |x * y| ≤ bound * bound := by
    rw [abs_mul]
    exact mul_le_mul leftBound rightBound (abs_nonneg y) (le_trans (abs_nonneg x) leftBound)
  exact abs_le.mp product

/-- A product of words fits into twice their width. -/
theorem holds_product (x y : BitVec 32) : IntType.s64.Holds (x.toInt * y.toInt) := by
  have bounds := product_bounds ⟨BitVec.le_toInt x, BitVec.toInt_lt⟩
    ⟨BitVec.le_toInt y, BitVec.toInt_lt⟩
  rw [IntType.holds_s64_iff]
  omega

theorem is_word (index : Nat) :
    Expr.Is store (.convert .s64 (IntegerInst.reg operand .s32 index)) .s64
      (low (source store operand index)).toInt :=
  ⟨rfl, by rw [Expr.eval, eval_s32, Option.map_some, wrap_s64_word]⟩

/-- A product of words. -/
theorem is_product :
    Expr.Is store (value operand .mullw) .s64
      ((low (a operand (view store))).toInt * (low (b operand (view store))).toInt) := by
  apply (is_word 1).mul (is_word 2) rfl
  · exact wrap_s64_word _
  · exact wrap_s64_word _
  · exact holds_product _ _

theorem computes_mullw : Computes operand store .mullw := by
  have evaluated : (value operand .mullw).eval store = if True then some _ else none :=
    is_product.eval_eq.trans (if_pos trivial).symm
  apply Computes.of_ite evaluated Iff.rfl
  rw [if_neg (by decide), BitVec.ofInt_mul]
  rfl

theorem computes_mulhw : Computes operand store .mulhw := by
  have shifted : Expr.Is store (value operand .mulhw) .s64 _ :=
    is_product.shiftRight (Expr.Is.decimal (show 32 < 2 ^ 31 by decide)) rfl
      (show 32 < IntType.s64.width by decide)
  have evaluated : (value operand .mulhw).eval store = if True then some _ else none :=
    shifted.eval_eq.trans (if_pos trivial).symm
  exact Computes.of_ite evaluated Iff.rfl rfl

theorem holds_s128 {number : Int} (bounds : -2 ^ 127 ≤ number ∧ number < 2 ^ 127) :
    IntType.s128.Holds number := by
  rw [IntType.Holds, IntType.wrap_signed]
  omega

theorem holds_toInt (value : BitVec 64) : IntType.s128.Holds value.toInt := by
  have low := BitVec.le_toInt value
  have high := BitVec.toInt_lt (x := value)
  apply holds_s128
  omega

theorem is_long (index : Nat) :
    Expr.Is store (.convert .s128 (IntegerInst.reg operand .s64 index)) .s128
      (source store operand index).toInt := by
  constructor
  · rfl
  · rw [Expr.eval, eval_s64, Option.map_some, show IntType.s128.wrap _ = _ from holds_toInt _]

/-- A product of registers, in twice their width. -/
theorem is_long_product :
    Expr.Is store (.convert .s128 (IntegerInst.reg operand .s64 1) *
      .convert .s128 (IntegerInst.reg operand .s64 2)) .s128
      ((a operand (view store)).toInt * (b operand (view store)).toInt) := by
  have bounds := product_bounds
    ⟨BitVec.le_toInt (a operand (view store)), BitVec.toInt_lt⟩
    ⟨BitVec.le_toInt (b operand (view store)), BitVec.toInt_lt⟩
  have product : IntType.s128.Holds
      ((a operand (view store)).toInt * (b operand (view store)).toInt) := holds_s128 (by omega)
  exact (is_long 1).mul (is_long 2) rfl (holds_toInt _) (holds_toInt _) product

/-- A conversion to a number with a sign keeps the bits. -/
theorem ofInt_wrap_s64 (number : Int) :
    BitVec.ofInt 64 (IntType.s64.wrap number) = BitVec.ofInt 64 number := by
  apply BitVec.eq_of_toNat_eq
  rw [BitVec.toNat_ofInt, BitVec.toNat_ofInt]
  exact congrArg Int.toNat (IntType.wrap_emod .s64 number)

theorem computes_mulhd : Computes operand store .mulhd := by
  have shifted : Expr.Is store (value operand .mulhd) .s64 _ :=
    (is_long_product.shiftRight (Expr.Is.decimal (show 64 < 2 ^ 31 by decide)) rfl
      (show 64 < IntType.s128.width by decide)).convert .s64
  have evaluated : (value operand .mulhd).eval store = if True then some _ else none :=
    shifted.eval_eq.trans (if_pos trivial).symm
  apply Computes.of_ite evaluated Iff.rfl
  exact ofInt_wrap_s64 _

theorem computes_addi : Computes operand store .addi := by
  by_cases zero : operand 1 = 0
  · have evaluated : (value operand .addi).eval store =
        if True then some (operand 2).toInt else none := by
      rw [value, if_neg (not_not.mpr zero), if_pos trivial]
      exact eval_simm store operand 2
    apply Computes.of_ite evaluated (iff_of_true trivial (.inl zero))
    rw [if_neg (by decide), ArithmeticInst.result, base, if_pos zero]
    exact (BitVec.zero_add _).symm
  · have evaluated : (value operand .addi).eval store =
        IntType.s64.result ((a operand (view store)).toInt + (operand 2).toInt) := by
      rw [value, if_pos zero]
      exact eval_common store (common_s64_simm operand 2) rfl (eval_s64 operand store 1)
        (eval_simm store operand 2) (wrap_s64_toInt _) (wrap_s64_word _)
    apply Computes.of_result evaluated (or_iff_right zero).symm _ rfl
    rw [BitVec.ofInt_add, BitVec.ofInt_toInt, ArithmeticInst.result, base, if_neg zero]
    rfl

theorem computes_addis : Computes operand store .addis := by
  have written : (Expr.signedDecimal (operand 2 <<< 16).toInt).eval store =
      some (operand 2 <<< 16).toInt :=
    Expr.eval_signedDecimal store (BitVec.le_toInt (operand 2 <<< 16))
  by_cases zero : operand 1 = 0
  · have evaluated : (value operand .addis).eval store =
        if True then some (operand 2 <<< 16).toInt else none := by
      rw [value, if_neg (not_not.mpr zero), if_pos trivial]
      exact written
    apply Computes.of_ite evaluated (iff_of_true trivial (.inl zero))
    rw [if_neg (by decide), ArithmeticInst.result, base, if_pos zero]
    exact (BitVec.zero_add _).symm
  · have evaluated : (value operand .addis).eval store =
        IntType.s64.result ((a operand (view store)).toInt + (operand 2 <<< 16).toInt) := by
      rw [value, if_pos zero]
      exact eval_common store (Expr.common_s64_signedDecimal _) rfl
        (eval_s64 operand store 1) written (wrap_s64_toInt _) (wrap_s64_word _)
    apply Computes.of_result evaluated (or_iff_right zero).symm _ rfl
    rw [BitVec.ofInt_add, BitVec.ofInt_toInt, ArithmeticInst.result, base, if_neg zero]
    rfl

theorem computes (inst : ArithmeticInst) : Computes operand store inst := by
  cases inst with
  | divw => exact computes_divw
  | divwu => exact computes_divwu
  | divd => exact computes_divd
  | divdu => exact computes_divdu
  | mulli => exact computes_mulli
  | mulld => exact computes_mulld
  | mullw => exact computes_mullw
  | mulhw => exact computes_mulhw
  | mulhd => exact computes_mulhd
  | neg => exact computes_neg
  | subf => exact computes_subf
  | addi => exact computes_addi
  | addis => exact computes_addis

end Computes

/-- The statements of an instruction have a meaning, and leave behind what it should, if and only if
its quotient exists and its result with a sign fits. -/
theorem agrees_iff (record : Bool) (inst : ArithmeticInst) :
    (∃ after, outcome store (statements operand record inst) = some after ∧
      inst.Agrees operand (view store) after) ↔ Fits operand (view store) inst := by
  have computes := @computes operand store inst
  rw [outcome_statements]
  constructor
  · rintro ⟨after, ran, -⟩
    by_contra lost
    rw [computes.none_of_not_fits lost] at ran
    cases ran
  · intro fits
    obtain ⟨number, evaluated, right⟩ := computes.some_of_fits fits
    exact ⟨_, by rw [evaluated]; rfl, agrees_write operand store right⟩

/-- A division by zero, which the guest goes on from. -/
theorem not_agrees : ¬∀ (operand : Nat → Word) (store : Store Object) (record : Bool)
    (inst : ArithmeticInst), ∃ after,
      outcome store (statements operand record inst) = some after ∧
        inst.Agrees operand (view store) after := by
  intro every
  obtain ⟨after, ran, -⟩ := every (fun _ => 0) (fun _ _ => 0) false .divw
  rw [outcome_statements, computes_divw.none_of_not_fits] at ran
  · cases ran
  · rintro ⟨nonzero, -⟩
    apply nonzero
    simp only [b, view]
    decide +kernel

end ArithmeticInst

end UfcRecomp.Recompiler
