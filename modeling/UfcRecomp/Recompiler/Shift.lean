import UfcRecomp.Recompiler.Rotate

/-!
# Shifts

The emitted code tests whether a count is too large before it shifts. The algebraic shifts take
the largest count instead, which leaves the value as it is, but not the carry of the least number.
-/

namespace UfcRecomp.Recompiler

open UfcRecomp.Lib UfcRecomp.Ppc IntegerInst

section

variable (store : Store Object) (record : Bool) (operand : Nat → Word)

/-! ## Logical shifts -/

/-- The count of a shift, of which the code reads the lowest byte. -/
theorem eval_count {power : Nat} (few : power ≤ 7) (index : Nat) :
    (reg operand .u8 index &&& .hex (2 ^ power - 1)).eval store =
      some (((source store operand index).toNat % 2 ^ power : Nat) : Int) := by
  have byte : store.read (r .u8 (operand index)) =
      ((source store operand index).toNat % 2 ^ 8 : Nat) := by
    rw [read_u8, source]
    norm_cast
  have small : 2 ^ power - 1 < 2 ^ 31 := by
    have bound := Nat.pow_le_pow_right (show 0 < 2 by decide) few
    omega
  have masked := eval_byte_and store rfl byte (Nat.mod_lt _ (by decide)) small
  rw [Nat.and_two_pow_sub_one_eq_mod, Nat.mod_mod_of_dvd _ (pow_dvd_pow 2 (by omega))] at masked
  exact masked

/-- The bit of a count that is set if the count is too large. -/
theorem eval_large {power : Nat} (few : power ≤ 7) (index : Nat) :
    (reg operand .u8 index &&& .hex (2 ^ power)).eval store =
      some ((2 ^ power * ((source store operand index).toNat / 2 ^ power % 2) : Nat) : Int) := by
  have byte : store.read (r .u8 (operand index)) =
      ((source store operand index).toNat % 2 ^ 8 : Nat) := by
    rw [read_u8, source]
    norm_cast
  have small : 2 ^ power < 2 ^ 31 := by
    have bound := Nat.pow_le_pow_right (show 0 < 2 by decide) few
    omega
  have masked := eval_byte_and store rfl byte (Nat.mod_lt _ (by decide)) small
  have bit : (source store operand index).toNat % 2 ^ 8 &&& 2 ^ power =
      2 ^ power * ((source store operand index).toNat / 2 ^ power % 2) := by
    rw [Nat.and_two_pow, Nat.testBit_mod_two_pow, Nat.testBit_eq_decide_div_mod_eq, Nat.mul_comm]
    rcases Nat.mod_two_eq_zero_or_one ((source store operand index).toNat / 2 ^ power) with
      even | odd
    · simp [even]
    · simp [odd, show power < 8 by omega]
  rw [bit] at masked
  exact masked

/-- A choice between zero and a shifted word, by the bit of the count that makes it too large. -/
theorem eval_choose {size power index shifted : Nat} {value : Expr Object}
    (word : size = 4 ∨ size = 8) (few : power ≤ 6) (type : value.type = ⟨size, false⟩)
    (valued : (source store operand index).toNat % 2 ^ (power + 1) < 2 ^ power →
      value.eval store = some (shifted : Int))
    (large : 2 ^ power ≤ (source store operand index).toNat % 2 ^ (power + 1) → shifted = 0)
    (fits : shifted < 2 ^ (8 * size)) :
    (.choose (reg operand .u8 index &&& .hex (2 ^ power)) (.decimal 0) value : Expr Object).eval
      store = some (shifted : Int) := by
  have bit := eval_large store operand (show power ≤ 7 by omega) index
  have split := @Nat.mod_pow_succ (source store operand index).toNat 2 power
  have below := Nat.mod_lt (source store operand index).toNat (Nat.two_pow_pos power)
  have common : IntType.common (Expr.decimal 0 : Expr Object).type value.type = ⟨size, false⟩ := by
    rw [type]
    rcases word with rfl | rfl <;> rfl
  have kept : IntType.wrap ⟨size, false⟩ (shifted : Int) = shifted := by
    rw [IntType.wrap_unsigned]
    exact_mod_cast Nat.mod_eq_of_lt fits
  rw [Expr.eval, bit, Option.bind_some, common]
  rcases Nat.mod_two_eq_zero_or_one ((source store operand index).toNat / 2 ^ power) with
    even | odd
  · rw [even, Nat.mul_zero] at split ⊢
    rw [if_pos (show ((0 : Nat) : Int) = 0 from rfl), valued (by omega), Option.map_some, kept]
  · rw [odd, Nat.mul_one] at split ⊢
    have zero := large (by omega)
    rw [if_neg (by exact_mod_cast (Nat.two_pow_pos power).ne'), zero]
    exact congrArg some (by simp)

/-- A shift by a count in the range of the type. -/
theorem eval_shiftLeft {size shift : Nat} {value count : Expr Object} {number : BitVec (8 * size)}
    (word : size = 4 ∨ size = 8) (type : value.type = ⟨size, false⟩)
    (valued : value.eval store = some (number.toNat : Int))
    (counted : count.eval store = some (shift : Int)) (short : shift < 8 * size) :
    (value <<< count).eval store = some ((number <<< shift).toNat : Int) := by
  have promoted : IntType.promote ⟨size, false⟩ = ⟨size, false⟩ := by
    rcases word with rfl | rfl <;> rfl
  simp only [Expr.shiftLeft_eq, Expr.eval, valued, counted, Option.bind_some, Binary.apply,
    Binary.shift, type, promoted, IntType.width]
  rw [if_pos ⟨by omega, by omega⟩, Int.toNat_natCast, IntType.wrap_unsigned,
    BitVec.toNat_shiftLeft, Nat.shiftLeft_eq]
  norm_cast

theorem eval_shiftRight {size shift : Nat} {value count : Expr Object} {number : BitVec (8 * size)}
    (word : size = 4 ∨ size = 8) (type : value.type = ⟨size, false⟩)
    (valued : value.eval store = some (number.toNat : Int))
    (counted : count.eval store = some (shift : Int)) (short : shift < 8 * size) :
    (value >>> count).eval store = some ((number >>> shift).toNat : Int) := by
  have promoted : IntType.promote ⟨size, false⟩ = ⟨size, false⟩ := by
    rcases word with rfl | rfl <;> rfl
  simp only [Expr.shiftRight_eq, Expr.eval, valued, counted, Option.bind_some, Binary.apply,
    Binary.shift, type, promoted, IntType.width]
  rw [if_pos ⟨by omega, by omega⟩, Int.toNat_natCast, BitVec.toNat_ushiftRight,
    Nat.shiftRight_eq_div_pow]
  norm_cast

theorem outcome_sld :
    outcome store (IntegerInst.sld.statements record operand) =
      some ((view store).set (operand 0)
        (source store operand 1 <<< ((source store operand 2).toNat % 128))) := by
  have shifted := @eval_shiftLeft store 8 _ _ _ _ (.inr rfl) rfl (eval_u64 store operand 1)
    (eval_count store operand (show 7 ≤ 7 by decide) 2)
  have chosen := @eval_choose store operand 8 6 2 _ _ (.inr rfl) (by decide) rfl shifted
    (fun large => by rw [BitVec.shiftLeft_eq_zero large]; rfl) (BitVec.isLt _)
  rw [IntegerInst.statements]
  refine (outcome_setReg store operand rfl chosen).trans ?_
  simp only [BitVec.ofInt_natCast, BitVec.ofNat_toNat, BitVec.setWidth_eq, Nat.reducePow]

theorem outcome_srd :
    outcome store (IntegerInst.srd.statements record operand) =
      some ((view store).set (operand 0)
        (source store operand 1 >>> ((source store operand 2).toNat % 128))) := by
  have shifted := @eval_shiftRight store 8 _ _ _ _ (.inr rfl) rfl (eval_u64 store operand 1)
    (eval_count store operand (show 7 ≤ 7 by decide) 2)
  have chosen := @eval_choose store operand 8 6 2 _ _ (.inr rfl) (by decide) rfl shifted
    (fun large => by rw [BitVec.ushiftRight_eq_zero large]; rfl) (BitVec.isLt _)
  rw [IntegerInst.statements]
  refine (outcome_setReg store operand rfl chosen).trans ?_
  simp only [BitVec.ofInt_natCast, BitVec.ofNat_toNat, BitVec.setWidth_eq, Nat.reducePow]

theorem outcome_slw :
    outcome store (IntegerInst.slw.statements record operand) =
      some ((view store).set (operand 0)
        (((source store operand 1).setWidth 32 <<<
          ((source store operand 2).toNat % 64)).setWidth 64)) := by
  have shifted := @eval_shiftLeft store 4 _ _ _ _ (.inl rfl) rfl (eval_u32 store operand 1)
    (eval_count store operand (show 6 ≤ 7 by decide) 2)
  have chosen := @eval_choose store operand 4 5 2 _ _ (.inl rfl) (by decide) rfl shifted
    (fun large => by rw [BitVec.shiftLeft_eq_zero large]; rfl) (BitVec.isLt _)
  rw [IntegerInst.statements, outcome_recordForm]
  refine (outcome_setReg store operand rfl chosen).trans ?_
  simp only [BitVec.ofInt_natCast, BitVec.ofNat_toNat, Nat.reducePow]

theorem outcome_srw :
    outcome store (IntegerInst.srw.statements record operand) =
      some ((view store).set (operand 0)
        (((source store operand 1).setWidth 32 >>>
          ((source store operand 2).toNat % 64)).setWidth 64)) := by
  have shifted := @eval_shiftRight store 4 _ _ _ _ (.inl rfl) rfl (eval_u32 store operand 1)
    (eval_count store operand (show 6 ≤ 7 by decide) 2)
  have chosen := @eval_choose store operand 4 5 2 _ _ (.inl rfl) (by decide) rfl shifted
    (fun large => by rw [BitVec.ushiftRight_eq_zero large]; rfl) (BitVec.isLt _)
  rw [IntegerInst.statements, outcome_recordForm]
  refine (outcome_setReg store operand rfl chosen).trans ?_
  simp only [BitVec.ofInt_natCast, BitVec.ofNat_toNat, Nat.reducePow]

/-! ## Algebraic shifts -/

/-- The part of a register that a member has. -/
theorem eval_signed {size : Nat} (word : size = 4 ∨ size = 8) (index : Nat) :
    (reg operand ⟨size, true⟩ index).eval store =
      some ((source store operand index).setWidth (8 * size)).toInt := by
  rcases word with rfl | rfl
  · exact congrArg some (read_s32 store _)
  · refine (congrArg some (read_s64 store _)).trans ?_
    rw [BitVec.setWidth_eq]
    rfl

theorem eval_unsigned {size : Nat} (word : size = 4 ∨ size = 8) (index : Nat) :
    (reg operand ⟨size, false⟩ index).eval store =
      some (((source store operand index).setWidth (8 * size)).toNat : Int) := by
  rcases word with rfl | rfl
  · exact eval_u32 store operand index
  · rw [BitVec.setWidth_eq]
    exact eval_u64 store operand index

section

variable {size shift : Nat} {value count : Expr Object} {number : BitVec (8 * size)}

theorem eval_sshiftRight (word : size = 4 ∨ size = 8) (type : value.type = ⟨size, true⟩)
    (valued : value.eval store = some number.toInt)
    (counted : count.eval store = some (shift : Int)) (short : shift < 8 * size) :
    (value >>> count).eval store = some (number.toInt / 2 ^ shift) := by
  have promoted : IntType.promote ⟨size, true⟩ = ⟨size, true⟩ := by
    rcases word with rfl | rfl <;> rfl
  simp only [Expr.shiftRight_eq, Expr.eval, valued, counted, Option.bind_some, Binary.apply,
    Binary.shift, type, promoted, IntType.width]
  rw [if_pos ⟨by omega, by omega⟩, Int.toNat_natCast]

/-- A signed number keeps its value. -/
theorem wrap_toInt (word : size = 4 ∨ size = 8) :
    IntType.wrap ⟨size, true⟩ number.toInt = number.toInt := by
  have least := BitVec.le_toInt number
  have most := @BitVec.toInt_lt _ number
  rcases word with rfl | rfl
  · exact (IntType.holds_s32_iff _).mpr ⟨least, most⟩
  · exact (IntType.holds_s64_iff _).mpr ⟨least, most⟩

theorem eval_negative (word : size = 4 ∨ size = 8) (type : value.type = ⟨size, true⟩)
    (valued : value.eval store = some number.toInt) :
    (.binary .lt value (.decimal 0) : Expr Object).eval store =
      some (truth (decide (number.toInt < 0))) := by
  have literal : IntType.common ⟨size, true⟩ (Expr.decimal 0 : Expr Object).type = ⟨size, true⟩ := by
    rcases word with rfl | rfl <;> rfl
  have zero : IntType.wrap ⟨size, true⟩ 0 = 0 := by
    rcases word with rfl | rfl <;> rfl
  simp only [Expr.eval, Expr.eval_decimal, valued, Option.bind_some, Binary.apply,
    Binary.applyCommon, type, literal, wrap_toInt word, Nat.cast_zero, zero]

/-- The test of a shift that is undone for a negative number that lost ones. -/
theorem eval_lost (word : size = 4 ∨ size = 8) (type : value.type = ⟨size, true⟩)
    (valued : value.eval store = some number.toInt)
    (counted : count.eval store = some (shift : Int)) (short : shift < 8 * size) :
    (.binary .lt value (.decimal 0) &&& .binary .ne ((value >>> count) <<< count) value :
        Expr Object).eval store =
      some (truth (decide (number.toInt < 0) && decide (number.toInt % 2 ^ shift ≠ 0))) := by
  have promoted : IntType.promote ⟨size, true⟩ = ⟨size, true⟩ := by
    rcases word with rfl | rfl <;> rfl
  have common : IntType.common ⟨size, true⟩ ⟨size, true⟩ = ⟨size, true⟩ := by
    rcases word with rfl | rfl <;> rfl
  have fits : ∀ x : Int, -2 ^ (8 * size - 1) ≤ x → x < 2 ^ (8 * size - 1) →
      IntType.wrap ⟨size, true⟩ x = x := by
    intro x least most
    rcases word with rfl | rfl
    · exact (IntType.holds_s32_iff x).mpr ⟨least, most⟩
    · exact (IntType.holds_s64_iff x).mpr ⟨least, most⟩
  have least := BitVec.le_toInt number
  have most := @BitVec.toInt_lt _ number
  have whole := @wrap_toInt _ number word
  have undone : IntType.wrap ⟨size, true⟩ (number.toInt / 2 ^ shift * 2 ^ shift) =
      number.toInt - number.toInt % 2 ^ shift := by
    have pos : (0 : Int) < 2 ^ shift := pow_pos (by decide) _
    have remainder := Int.emod_nonneg number.toInt pos.ne'
    have division := Int.mul_ediv_add_emod number.toInt (2 ^ shift)
    have split : (2 : Int) ^ (8 * size - 1) = 2 ^ (8 * size - 1 - shift) * 2 ^ shift := by
      rw [← pow_add, Nat.sub_add_cancel (by omega)]
    have quotient : -2 ^ (8 * size - 1 - shift) ≤ number.toInt / 2 ^ shift := by
      rw [Int.le_ediv_iff_mul_le pos, Int.neg_mul, ← split]
      exact least
    have lower := Int.mul_le_mul_of_nonneg_right quotient pos.le
    rw [Int.neg_mul, ← split] at lower
    rw [Int.mul_comm] at division
    rw [fits _ lower (by omega)]
    omega
  have differs : decide (number.toInt - number.toInt % 2 ^ shift ≠ number.toInt) =
      decide (number.toInt % 2 ^ shift ≠ 0) := by
    rw [decide_eq_decide]
    omega
  have shifted := eval_sshiftRight store word type valued counted short
  have shiftedType : (value >>> count).type = ⟨size, true⟩ := by
    rw [Expr.shiftRight_eq, Expr.type, type]
    exact promoted
  have restored : ((value >>> count) <<< count).eval store =
      some (number.toInt - number.toInt % 2 ^ shift) := by
    rw [Expr.shiftLeft_eq, Expr.eval, shifted, counted, Option.bind_some, Option.bind_some,
      shiftedType]
    simp only [Binary.apply, Binary.shift, promoted, IntType.width]
    rw [if_pos ⟨by omega, by omega⟩, Int.toNat_natCast, undone]
  have restoredType : ((value >>> count) <<< count).type = ⟨size, true⟩ := by
    rw [Expr.shiftLeft_eq, Expr.type, shiftedType]
    exact promoted
  have wrapped : IntType.wrap ⟨size, true⟩ (number.toInt - number.toInt % 2 ^ shift) =
      number.toInt - number.toInt % 2 ^ shift := by
    rw [← undone, IntType.wrap_wrap]
  have lost : (.binary .ne ((value >>> count) <<< count) value : Expr Object).eval store =
      some (truth (decide (number.toInt % 2 ^ shift ≠ 0))) := by
    simp only [Expr.eval, valued, restored, Option.bind_some, Binary.apply, Binary.applyCommon,
      type, restoredType, common, whole, wrapped, differs]
  exact Expr.eval_and_truth rfl rfl (eval_negative store word type valued) lost

end

/-- The carry and then the register. -/
theorem outcome_setCarry {lost value : Expr Object} {carry : Bool} {number : Int}
    (first : lost.eval store = some (truth carry))
    (second : value.eval (store.write PpcXerRegister.ca (truth carry)) = some number) :
    outcome store [setCarry lost, setReg operand .s64 value] =
      some (((view store).set (operand 0) (BitVec.ofInt 64 number)).setCarry carry) := by
  have written := outcome_setReg (store.write PpcXerRegister.ca (truth carry)) operand
    (show IntType.s64.size = 8 from rfl) second
  rw [outcome, CStatement.run_cons, setCarry, CStatement.step, first, Option.map_some,
    Option.bind_some]
  refine written.trans ?_
  rw [view_write_ca, IntegerState.set_setCa, ofInt_truth]
  rfl

/-- The statements of an algebraic shift by a register, for a type and a bound of its count. -/
def algebraicStatements (size power : Nat) : List (CStatement Object) :=
  [ .assign (temp ⟨size, false⟩) (reg operand ⟨size, false⟩ 2 &&& .hex (2 ^ (power + 1) - 1)),
    .assignIf (.binary .gt (.read (temp ⟨size, false⟩)) (.hex (2 ^ power - 1))) (temp ⟨size, false⟩)
      (.hex (2 ^ power - 1)),
    setCarry (.binary .lt (reg operand ⟨size, true⟩ 1) (.decimal 0) &&&
      .binary .ne ((reg operand ⟨size, true⟩ 1 >>> .read (temp ⟨size, false⟩)) <<<
        .read (temp ⟨size, false⟩)) (reg operand ⟨size, true⟩ 1)),
    setReg operand .s64 (reg operand ⟨size, true⟩ 1 >>> .read (temp ⟨size, false⟩)) ]

/-- The first two statements clamp the count. -/
theorem run_clamp {size power : Nat} (word : size = 4 ∨ size = 8) (few : power ≤ 6) :
    ∃ clamped, CStatement.run store ((algebraicStatements operand size power).take 2) =
        some clamped ∧ view clamped = view store ∧
      clamped.read (temp ⟨size, false⟩) =
        (min ((source store operand 2).toNat % 2 ^ (power + 1)) (2 ^ power - 1) : Nat) := by
  have pos := Nat.two_pow_pos power
  have bound := Nat.pow_le_pow_right (show 0 < 2 by decide) few
  have least := Nat.pow_le_pow_right (show 0 < 2 by decide) (show 32 ≤ 8 * size by omega)
  have below := Nat.mod_lt (source store operand 2).toNat (Nat.two_pow_pos (power + 1))
  rw [Nat.pow_succ] at below
  have masked : (reg operand ⟨size, false⟩ 2 &&& .hex (2 ^ (power + 1) - 1)).eval store =
      some (((source store operand 2).toNat % 2 ^ (power + 1) : Nat) : Int) := by
    have value := Expr.eval_and_hex rfl word (eval_unsigned store operand word 2) (BitVec.isLt _)
      (show 2 ^ (power + 1) - 1 < 2 ^ 64 by rw [Nat.pow_succ]; omega)
    rw [Nat.and_two_pow_sub_one_eq_mod, BitVec.toNat_setWidth,
      Nat.mod_mod_of_dvd _ (pow_dvd_pow 2 (by omega))] at value
    exact value
  have kept : ∀ number : Nat, number < 2 ^ 32 → ∀ store : Store Object,
      (store.write (temp ⟨size, false⟩) number).read (temp ⟨size, false⟩) = (number : Int) := by
    intro number small store
    rw [read_temp_write_temp store (Nat.le_refl _), IntType.wrap_unsigned]
    exact_mod_cast Nat.mod_eq_of_lt (Nat.lt_of_lt_of_le small least)
  have tested : ∀ (number : Nat) (store : Store Object),
      store.read (temp ⟨size, false⟩) = (number : Int) → number < 2 ^ 32 →
      (.binary .gt (.read (temp ⟨size, false⟩)) (.hex (2 ^ power - 1)) : Expr Object).eval store =
        some (truth (decide (2 ^ power - 1 < number))) := by
    intro number store read small
    have literal : (Expr.hex (2 ^ power - 1) : Expr Object).type = .s32 := by
      rw [Expr.hex, if_pos (by omega)]
      rfl
    have common : IntType.common ⟨size, false⟩ .s32 = ⟨size, false⟩ := by
      rcases word with rfl | rfl <;> rfl
    have fits : ∀ x : Nat, x < 2 ^ 32 → IntType.wrap ⟨size, false⟩ (x : Int) = x := by
      intro x small
      rw [IntType.wrap_unsigned]
      exact_mod_cast Nat.mod_eq_of_lt (Nat.lt_of_lt_of_le small least)
    have value : (Expr.hex (2 ^ power - 1) : Expr Object).eval store =
        some ((2 ^ power - 1 : Nat) : Int) := rfl
    have order : decide (((2 ^ power - 1 : Nat) : Int) < (number : Int)) =
        decide (2 ^ power - 1 < number) := by
      rw [decide_eq_decide]
      exact Int.ofNat_lt
    simp only [Expr.eval, read, value, Option.bind_some, Binary.apply, Binary.applyCommon,
      Expr.type, type_temp, literal, common, fits number small, fits (2 ^ power - 1) (by omega),
      order]
  have first := kept _ (show (source store operand 2).toNat % 2 ^ (power + 1) < 2 ^ 32 by omega) store
  have second := tested _ _ first (by omega)
  simp only [algebraicStatements, List.take_succ_cons, List.take_zero, CStatement.run_cons,
    CStatement.run_nil, CStatement.step, masked, second, Option.map_some, Option.bind_some]
  generalize (source store operand 2).toNat % 2 ^ (power + 1) = number at *
  by_cases large : 2 ^ power - 1 < number
  · rw [Nat.min_eq_right large.le]
    refine ⟨(store.write (temp ⟨size, false⟩) number).write (temp ⟨size, false⟩)
      ((2 ^ power - 1 : Nat) : Int), ?_, ?_, kept (2 ^ power - 1) (by omega) _⟩
    · simp [truth, large, Expr.hex]
    · rw [view_write_temp, view_write_temp]
  · rw [Nat.min_eq_left (Nat.le_of_not_lt large)]
    refine ⟨store.write (temp ⟨size, false⟩) number, ?_, ?_, first⟩
    · simp [truth, large]
    · rw [view_write_temp]

/-- Statements that shift by a clamped count. -/
theorem outcome_algebraic {size power : Nat} (word : size = 4 ∨ size = 8)
    (width : 8 * size = 2 ^ power) :
    outcome store (algebraicStatements operand size power) =
      some (((view store).set (operand 0)
          (BitVec.ofInt 64 (((source store operand 1).setWidth (8 * size)).toInt /
            2 ^ min ((source store operand 2).toNat % 2 ^ (power + 1)) (8 * size - 1)))).setCarry
        (decide (((source store operand 1).setWidth (8 * size)).toInt < 0) &&
          decide (((source store operand 1).setWidth (8 * size)).toInt %
            2 ^ min ((source store operand 2).toNat % 2 ^ (power + 1)) (8 * size - 1) ≠ 0))) := by
  have few : power ≤ 6 := by
    by_contra many
    have larger := Nat.pow_le_pow_right (show 0 < 2 by decide) (show 7 ≤ power by omega)
    omega
  obtain ⟨clamped, ran, same, count⟩ := run_clamp store operand word few
  rw [← width] at count
  have short : min ((source store operand 2).toNat % 2 ^ (power + 1)) (8 * size - 1) < 8 * size := by
    omega
  generalize min ((source store operand 2).toNat % 2 ^ (power + 1)) (8 * size - 1) = shift at *
  have sources : ∀ after : Store Object, (view after).r = (view store).r →
      (reg operand ⟨size, true⟩ 1).eval after =
        some ((source store operand 1).setWidth (8 * size)).toInt := by
    intro after registers
    rw [eval_signed after operand word, source, registers, source]
  have lost := eval_lost clamped word rfl (sources clamped (by rw [same]))
    (show (Expr.read (temp ⟨size, false⟩)).eval clamped = _ from congrArg some count) short
  have statements : algebraicStatements operand size power =
      (algebraicStatements operand size power).take 2 ++
        (algebraicStatements operand size power).drop 2 := (List.take_append_drop 2 _).symm
  have shifted : ∀ carry : Bool, (reg operand ⟨size, true⟩ 1 >>>
      Expr.read (temp ⟨size, false⟩)).eval (clamped.write PpcXerRegister.ca (truth carry)) =
        some (((source store operand 1).setWidth (8 * size)).toInt / 2 ^ shift) := by
    intro carry
    refine eval_sshiftRight _ word rfl (sources _ ?_) ?_ short
    · rw [view_write_ca, IntegerState.r_setCa, same]
    · rw [Expr.eval, read_temp_write_ca, count]
  rw [statements, outcome, CStatement.run_append, ran, Option.bind_some, ← same]
  exact outcome_setCarry clamped operand lost (shifted _)

/-- The statements of an algebraic shift by an immediate. -/
def immediateStatements (size : Nat) : List (CStatement Object) :=
  if operand 2 ≠ 0 then
    [ setCarry (.binary .lt (reg operand ⟨size, true⟩ 1) (.decimal 0) &&&
        .binary .ne (reg operand ⟨size, false⟩ 1 &&& mask (computeMask (64 - operand 2) 63))
          (.decimal 0)),
      setReg operand .s64 (reg operand ⟨size, true⟩ 1 >>> imm operand 2) ]
  else
    [ setCarry (.decimal 0),
      setReg operand .s64 (reg operand ⟨size, true⟩ 1) ]

/-- The ones that a shift by an immediate loses are those under a mask. -/
theorem eval_masked {size : Nat} (word : size = 4 ∨ size = 8) (least : 1 ≤ (operand 2).toNat)
    (most : (operand 2).toNat < 8 * size) :
    (.binary .ne (reg operand ⟨size, false⟩ 1 &&& mask (computeMask (64 - operand 2) 63))
        (.decimal 0) : Expr Object).eval store =
      some (truth (decide (((source store operand 1).setWidth (8 * size)).toInt %
        2 ^ (operand 2).toNat ≠ 0))) := by
  have start : (64 - operand 2).toNat % 64 = 64 - (operand 2).toNat := by
    rw [BitVec.toNat_sub, show (64 : Word).toNat = 64 from rfl]
    omega
  have ones : (computeMask (64 - operand 2) 63).toNat = 2 ^ (operand 2).toNat - 1 := by
    rw [computeMask_eq, start, show (63 : Word).toNat % 64 = 63 from rfl,
      maskBits_tail least (by omega), toNat_ones (by omega)]
  have value := Expr.eval_and_hex_ne rfl word (eval_unsigned store operand word 1) (BitVec.isLt _)
    (computeMask (64 - operand 2) 63).isLt
  rw [ones, Nat.and_two_pow_sub_one_eq_mod] at value
  rw [mask, ones, value, Shift.emod_toInt _ (by omega)]
  congr 2
  rw [decide_eq_decide]
  exact Int.natCast_ne_zero.symm

theorem outcome_immediate {size : Nat} (word : size = 4 ∨ size = 8)
    (most : (operand 2).toNat < 8 * size) :
    outcome store (immediateStatements operand size) =
      some (((view store).set (operand 0)
          (BitVec.ofInt 64 (((source store operand 1).setWidth (8 * size)).toInt /
            2 ^ (operand 2).toNat))).setCarry
        (decide (((source store operand 1).setWidth (8 * size)).toInt < 0) &&
          decide (((source store operand 1).setWidth (8 * size)).toInt %
            2 ^ (operand 2).toNat ≠ 0))) := by
  have after : ∀ carry : Bool, (reg operand ⟨size, true⟩ 1).eval
      (store.write PpcXerRegister.ca (truth carry)) =
        some ((source store operand 1).setWidth (8 * size)).toInt := by
    intro carry
    rw [eval_signed _ operand word, source, view_write_ca, IntegerState.r_setCa, source]
  rw [immediateStatements]
  split
  next nonzero =>
    have least : 1 ≤ (operand 2).toNat := by
      have apart := BitVec.toNat_ne.mp nonzero
      rw [show (0 : Word).toNat = 0 from rfl] at apart
      omega
    have lost := Expr.eval_and_truth (by rfl) (by rfl)
      (eval_negative store word rfl (eval_signed store operand word 1))
      (eval_masked store operand word least most)
    exact outcome_setCarry store operand lost
      (eval_sshiftRight _ word rfl (after _) (eval_imm _ operand 2) most)
  next zero =>
    have count : (operand 2).toNat = 0 := by
      rw [Classical.not_not.mp zero]
      rfl
    have written := @outcome_setCarry store operand (.decimal 0) _ false _ rfl (after false)
    simpa [count] using written

end

/-! ## Words -/

section

variable {store : Store Object} {insn : Word} {row : IntegerOpcode}

/-- The register that the first operand of a row names. -/
theorem set_row (written : row.operands[0]? = some (field .ra)) (state : IntegerState)
    (value : BitVec 64) :
    state.set (row.operand insn 0) value =
      { state with r := Function.update state.r (target insn) value } := by
  have index : (row.operand insn 0).toNat = target insn := by
    rw [IntegerOpcode.operand, written]
    exact toNat_ra insn
  rw [IntegerState.set, index]

/-- The count in the register that the last operand of a row names. -/
theorem count_row (fields : row.operands = [field .ra, field .rt, field .rb]) :
    (source store (row.operand insn) 2).toNat = countRegister insn (view store) := by
  have index : (row.operand insn 2).toNat = bits insn 16 20 := by
    rw [operand_row fields]
    exact toNat_rb insn
  rw [source, index, countRegister]

/-- The statements of a row leave the guest's registers behind, and its carry under a condition. -/
def Agrees (store : Store Object) (insn : Word) (row : IntegerOpcode) (condition : Prop) : Prop :=
  ∃ after result, Shift.exec insn (view store) = some after ∧
    outcome store (row.statements insn) = some result ∧ result.r = after.r ∧
    (result = after ↔ condition)

theorem Agrees.congr {condition other : Prop} (agrees : Agrees store insn row condition)
    (same : condition ↔ other) : Agrees store insn row other := by
  rwa [← propext same]

/-- A row of a logical shift. -/
theorem logical_row {shift : Shift} (fields : row.operands = [field .ra, field .rt, field .rb])
    (decoded : Shift.decode insn (view store) = some shift) (plain : shift.carry = none)
    (ran : outcome store (row.statements insn) =
      some ((view store).set (row.operand insn 0) shift.value)) :
    Agrees store insn row True := by
  rw [set_row (by rw [fields]; rfl)] at ran
  refine ⟨_, _, ?_, ran, rfl, by simp only⟩
  rw [Shift.exec, decoded, Option.map_some, plain]

/-- A row of an algebraic shift. -/
theorem algebraic_row {width count clamped : Nat} {value : BitVec width} {carry : Bool}
    {last : List (Word → Word)} (fields : row.operands = field .ra :: last)
    (decoded : Shift.decode insn (view store) = some (.algebraic value count))
    (ran : outcome store (row.statements insn) =
      some (((view store).set (row.operand insn 0)
        (BitVec.ofInt 64 (value.toInt / 2 ^ clamped))).setCarry carry))
    (same : value.toInt / 2 ^ clamped = value.toInt / 2 ^ count) :
    Agrees store insn row (some carry = (Shift.algebraic value count).carry) := by
  rw [set_row (by rw [fields]; rfl), same, ← Shift.value_algebraic] at ran
  obtain ⟨out, carried⟩ : ∃ out, (Shift.algebraic value count).carry = some out := ⟨_, rfl⟩
  have stepped : Shift.exec insn (view store) = some (IntegerState.setCarry
      { view store with
        r := Function.update (view store).r (target insn) (Shift.algebraic value count).value }
      out) := by
    rw [Shift.exec, decoded, Option.map_some, carried]
  refine ⟨_, _, stepped, ran, rfl, ?_⟩
  rw [carried, Option.some_inj]
  constructor
  · intro equal
    have ca := congrArg IntegerState.ca equal
    simp only [IntegerState.setCarry, IntegerState.ca_setCa] at ca
    cases carry <;> cases out <;> simp_all
  · rintro rfl
    rfl

theorem slw_right (case : row.inst = .slw) (fields : row.operands = [field .ra, field .rt, field .rb])
    (op : bits insn 0 5 = 31) (form : bits insn 21 30 = 24) :
    Agrees store insn row True := by
  have ran := outcome_slw store row.record (row.operand insn)
  rw [source_row fields, count_row fields, ← case] at ran
  exact logical_row fields (Shift.decode_slw op form) rfl ran

theorem srw_right (case : row.inst = .srw) (fields : row.operands = [field .ra, field .rt, field .rb])
    (op : bits insn 0 5 = 31) (form : bits insn 21 30 = 536) :
    Agrees store insn row True := by
  have ran := outcome_srw store row.record (row.operand insn)
  rw [source_row fields, count_row fields, ← case] at ran
  exact logical_row fields (Shift.decode_srw op form) rfl ran

theorem sld_right (case : row.inst = .sld) (fields : row.operands = [field .ra, field .rt, field .rb])
    (op : bits insn 0 5 = 31) (form : bits insn 21 30 = 27) :
    Agrees store insn row True := by
  have ran := outcome_sld store row.record (row.operand insn)
  rw [source_row fields, count_row fields, ← case] at ran
  exact logical_row fields (Shift.decode_sld op form) rfl ran

theorem srd_right (case : row.inst = .srd) (fields : row.operands = [field .ra, field .rt, field .rb])
    (op : bits insn 0 5 = 31) (form : bits insn 21 30 = 539) :
    Agrees store insn row True := by
  have ran := outcome_srd store row.record (row.operand insn)
  rw [source_row fields, count_row fields, ← case] at ran
  exact logical_row fields (Shift.decode_srd op form) rfl ran

theorem sraw_right (case : row.inst = .sraw)
    (fields : row.operands = [field .ra, field .rt, field .rb])
    (op : bits insn 0 5 = 31) (form : bits insn 21 30 = 792) :
    Agrees store insn row <|
      ¬(32 ≤ countRegister insn (view store) % 64 ∧
        (Ppc.source insn (view store)).setWidth 32 = BitVec.intMin 32) := by
  have ran : outcome store (row.statements insn) = _ :=
    (by rw [IntegerOpcode.statements, case]; exact outcome_recordForm store _ _ _ :
      outcome store (row.statements insn) =
        outcome store (algebraicStatements (row.operand insn) 4 5)).trans
      (outcome_algebraic store (row.operand insn) (.inl rfl) rfl)
  rw [source_row fields, count_row fields] at ran
  exact (algebraic_row fields (Shift.decode_sraw op form) ran (Shift.ediv_clamp _ _)).congr
    (Shift.carry_clamp_iff _ (by decide) _)

theorem srad_right (case : row.inst = .srad)
    (fields : row.operands = [field .ra, field .rt, field .rb])
    (op : bits insn 0 5 = 31) (form : bits insn 21 30 = 794) :
    Agrees store insn row <|
      ¬(64 ≤ countRegister insn (view store) % 128 ∧
        Ppc.source insn (view store) = BitVec.intMin 64) := by
  have ran : outcome store (row.statements insn) = _ :=
    (by rw [IntegerOpcode.statements, case]; rfl :
      outcome store (row.statements insn) =
        outcome store (algebraicStatements (row.operand insn) 8 6)).trans
      (outcome_algebraic store (row.operand insn) (.inr rfl) rfl)
  rw [source_row fields, count_row fields, BitVec.setWidth_eq] at ran
  exact (algebraic_row fields (Shift.decode_srad op form) ran (Shift.ediv_clamp _ _)).congr
    (Shift.carry_clamp_iff _ (by decide) _)

theorem srawi_right (case : row.inst = .srawi)
    (fields : row.operands = [field .ra, field .rt, field .sh])
    (op : bits insn 0 5 = 31) (form : bits insn 21 30 = 824) :
    Agrees store insn row True := by
  have count : (row.operand insn 2).toNat = Rotation.sh insn := by
    rw [operand_row fields]
    exact toNat_sh insn
  have short : Rotation.sh insn < 32 := bits_five insn 16
  have ran : outcome store (row.statements insn) = _ :=
    (by rw [IntegerOpcode.statements, case]; exact outcome_recordForm store _ _ _ :
      outcome store (row.statements insn) =
        outcome store (immediateStatements (row.operand insn) 4)).trans
      (outcome_immediate store (row.operand insn) (.inl rfl) (by rw [count]; exact short))
  rw [source_row fields, count] at ran
  exact (algebraic_row fields (Shift.decode_srawi op form) ran rfl).congr
    (iff_true_intro (Shift.carry_algebraic _ short.le).symm)

theorem sradi_right (case : row.inst = .sradi)
    (fields : row.operands = [field .ra, field .rt, sh6])
    (op : bits insn 0 5 = 31) (form : bits insn 21 29 = 413) :
    Agrees store insn row True := by
  have count : (row.operand insn 2).toNat = Rotation.sh6 insn := by
    rw [operand_row fields]
    exact toNat_sh6 insn
  have short := sh6_lt insn
  have ran : outcome store (row.statements insn) = _ :=
    (by rw [IntegerOpcode.statements, case]; rfl :
      outcome store (row.statements insn) =
        outcome store (immediateStatements (row.operand insn) 8)).trans
      (outcome_immediate store (row.operand insn) (.inr rfl) (by rw [count]; exact short))
  rw [source_row fields, count, BitVec.setWidth_eq] at ran
  exact (algebraic_row fields (Shift.decode_sradi op form) ran rfl).congr
    (iff_true_intro (Shift.carry_algebraic _ short.le).symm)

end

/-- When the carry is that of the guest: the longest shift of the least number, which takes the
place of those by more bits, loses only zeros. -/
def CarryKept (inst : IntegerInst) (insn : Word) (state : IntegerState) : Prop :=
  ¬(inst = .sraw ∧ 32 ≤ countRegister insn state % 64 ∧
      (Ppc.source insn state).setWidth 32 = BitVec.intMin 32) ∧
    ¬(inst = .srad ∧ 64 ≤ countRegister insn state % 128 ∧
      Ppc.source insn state = BitVec.intMin 64)

/-- For every word that the disassembler takes for a shift the emitted code is well defined and
gives the guest's result; its carry is right exactly under the condition. -/
theorem shift_right (store : Store Object) {insn : Word} {row : IntegerOpcode}
    (found : findRow shiftOpcodes insn = some row) :
    Agrees store insn row (CarryKept row.inst insn (view store)) := by
  obtain ⟨member, matched⟩ := of_findRow found
  simp only [shiftOpcodes, shiftRows, List.cons_append, List.nil_append, List.mem_cons,
    List.not_mem_nil, or_false] at member
  rcases member with rfl | rfl | rfl | rfl | rfl | rfl | rfl | rfl | rfl | rfl | rfl | rfl | rfl |
    rfl | rfl | rfl
  · exact (slw_right rfl rfl (matched.fixed (by decide)) (matched.fixed (by decide))).congr
      (by simp [CarryKept])
  · exact (slw_right rfl rfl (matched.fixed (by decide)) (matched.fixed (by decide))).congr
      (by simp [CarryKept])
  · exact (sld_right rfl rfl (matched.fixed (by decide)) (matched.fixed (by decide))).congr
      (by simp [CarryKept])
  · exact (sld_right rfl rfl (matched.fixed (by decide)) (matched.fixed (by decide))).congr
      (by simp [CarryKept])
  · exact (sradi_right rfl rfl (matched.fixed (by decide)) (matched.fixed (by decide))).congr
      (by simp [CarryKept])
  · exact (sradi_right rfl rfl (matched.fixed (by decide)) (matched.fixed (by decide))).congr
      (by simp [CarryKept])
  · exact (srw_right rfl rfl (matched.fixed (by decide)) (matched.fixed (by decide))).congr
      (by simp [CarryKept])
  · exact (srw_right rfl rfl (matched.fixed (by decide)) (matched.fixed (by decide))).congr
      (by simp [CarryKept])
  · exact (srd_right rfl rfl (matched.fixed (by decide)) (matched.fixed (by decide))).congr
      (by simp [CarryKept])
  · exact (srd_right rfl rfl (matched.fixed (by decide)) (matched.fixed (by decide))).congr
      (by simp [CarryKept])
  · exact (sraw_right rfl rfl (matched.fixed (by decide)) (matched.fixed (by decide))).congr
      (by simp [CarryKept])
  · exact (sraw_right rfl rfl (matched.fixed (by decide)) (matched.fixed (by decide))).congr
      (by simp [CarryKept])
  · exact (srad_right rfl rfl (matched.fixed (by decide)) (matched.fixed (by decide))).congr
      (by simp [CarryKept])
  · exact (srad_right rfl rfl (matched.fixed (by decide)) (matched.fixed (by decide))).congr
      (by simp [CarryKept])
  · exact (srawi_right rfl rfl (matched.fixed (by decide)) (matched.fixed (by decide))).congr
      (by simp [CarryKept])
  · exact (srawi_right rfl rfl (matched.fixed (by decide)) (matched.fixed (by decide))).congr
      (by simp [CarryKept])

/-- The source register is the least word, and the count is 32. -/
def leastStore : Store Object := fun object position =>
  if object = .r 4 ∧ position = 3 then 0x80 else if object = .r 5 ∧ position = 0 then 32 else 0

/-- The word of `sraw r3, r4, r5`. -/
def leastShift : Word := 0x7C832E30

theorem shift_right_leastShift : ∃ row, findRow shiftOpcodes leastShift = some row ∧
    Agrees leastStore leastShift row (CarryKept row.inst leastShift (view leastStore)) :=
  ⟨_, rfl, shift_right leastStore rfl⟩

/-- A negative number loses its sign bit, and there is no carry. -/
theorem not_shift_right :
    ((findRow shiftOpcodes leastShift).bind fun row =>
        (outcome leastStore (row.statements leastShift)).map
          fun state => (state.r 3, state.ca)) = some (BitVec.allOnes 64, 0) ∧
      (Shift.exec leastShift (view leastStore)).map (fun state => (state.r 3, state.ca)) =
        some (BitVec.allOnes 64, 1) := by
  decide +kernel

end UfcRecomp.Recompiler
