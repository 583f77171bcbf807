import UfcRecomp.Lib.Bits
import UfcRecomp.Lib.CProgram

/-!
# Values of expressions

Rules for the type and the value of an expression from those of its parts. An operation asks that
its common type has the numbers, so that their conversion to it does nothing.
-/

namespace UfcRecomp.Lib

theorem holds_u32 {number : Nat} (below : number < 2 ^ 32) : IntType.u32.Holds (number : Int) :=
  (IntType.holds_natCast_iff (by decide) number).mpr below

theorem holds_s32 {number : Nat} (below : number < 2 ^ 31) : IntType.s32.Holds (number : Int) :=
  (IntType.holds_natCast_iff (by decide) number).mpr below

namespace Expr

variable {κ : Type}

/-- An expression has a type, and a value in some store. -/
structure Is (store : Store κ) (expr : Expr κ) (type : IntType) (number : Int) : Prop where
  type_eq : expr.type = type
  eval_eq : expr.eval store = some number

namespace Is

variable {store : Store κ} {expr left right condition : Expr κ} {type first second : IntType}
  {number x y : Int}

theorem read (place : Place κ) : Is store (.read place) place.type (store.read place) := ⟨rfl, rfl⟩

theorem literal (type : IntType) (number : Int) : Is store (.literal type number) type number :=
  ⟨rfl, rfl⟩

/-- The value of an expression may be written in another way. -/
theorem congr (holds : Is store expr type x) (same : x = y) : Is store expr type y := same ▸ holds

theorem hex (number : Nat)
    (known : (if number < 2 ^ 31 then .s32 else if number < 2 ^ 32 then .u32
      else if number < 2 ^ 63 then .s64 else .u64) = type) :
    Is store (.hex number) type number := ⟨known, rfl⟩

theorem decimal {number : Nat} (small : number < 2 ^ 31) :
    Is store (.decimal number) .s32 number := ⟨if_pos small, rfl⟩

theorem signedDecimal {number : Int} (above : -2 ^ 31 < number) (below : number < 2 ^ 31) :
    Is store (.signedDecimal number) .s32 number := by
  constructor
  · unfold Expr.signedDecimal
    split
    · rw [neg_eq, Expr.type, Unary.type, type_decimal, if_pos (by omega)]
      rfl
    · rw [type_decimal, if_pos (by omega)]
  · exact eval_signedDecimal store (by omega)

theorem convert (holds : Is store expr first number) (type : IntType) :
    Is store (.convert type expr) type (type.wrap number) :=
  ⟨rfl, by rw [eval, holds.eval_eq, Option.map_some]⟩

/-! ## Operations -/

/-- An operation that converts its operands. -/
theorem binary {op : Binary} {result : Int} (leftIs : Is store left first x)
    (rightIs : Is store right second y) (typed : op.type first second = type)
    (applied : op.apply first second x y = some result) :
    Is store (.binary op left right) type result := by
  constructor
  · rw [Expr.type, leftIs.type_eq, rightIs.type_eq, typed]
  · rw [eval, leftIs.eval_eq, rightIs.eval_eq, Option.bind_some, Option.bind_some, leftIs.type_eq,
      rightIs.type_eq, applied]

/-- The bits of two numbers from zero on. -/
theorem and {x y : Nat} (leftIs : Is store left first x) (rightIs : Is store right second y)
    (common : first.common second = type) (size : 0 < type.size) (leftFits : type.Holds x)
    (rightFits : type.Holds y) : Is store (left &&& right) type (x &&& y : Nat) := by
  apply leftIs.binary rightIs
  · exact common
  simp only [Binary.apply, Binary.applyCommon, common, show type.wrap _ = _ from leftFits,
    show type.wrap _ = _ from rightFits, IntType.bitwise_and size leftFits rightFits]

theorem or {x y : Nat} (leftIs : Is store left first x) (rightIs : Is store right second y)
    (common : first.common second = type) (size : 0 < type.size) (leftFits : type.Holds x)
    (rightFits : type.Holds y) : Is store (left ||| right) type (x ||| y : Nat) := by
  apply leftIs.binary rightIs
  · exact common
  simp only [Binary.apply, Binary.applyCommon, common, show type.wrap _ = _ from leftFits,
    show type.wrap _ = _ from rightFits, IntType.bitwise_or size leftFits rightFits]

theorem add (leftIs : Is store left first x) (rightIs : Is store right second y)
    (common : first.common second = type) (leftFits : type.Holds x) (rightFits : type.Holds y)
    (fits : type.Holds (x + y)) : Is store (left + right) type (x + y) := by
  apply leftIs.binary rightIs
  · exact common
  simp only [Binary.apply, Binary.applyCommon, common, show type.wrap _ = _ from leftFits,
    show type.wrap _ = _ from rightFits, IntType.result_of_holds fits]

/-- A sum without a sign is reduced to the width of its type. -/
theorem add_unsigned {size : Nat} (leftIs : Is store left first x)
    (rightIs : Is store right second y) (common : first.common second = ⟨size, false⟩)
    (leftFits : IntType.Holds ⟨size, false⟩ x) (rightFits : IntType.Holds ⟨size, false⟩ y) :
    Is store (left + right) ⟨size, false⟩ ((x + y) % 2 ^ (8 * size)) := by
  apply leftIs.binary rightIs
  · exact common
  simp only [Binary.apply, Binary.applyCommon, common, show IntType.wrap _ _ = _ from leftFits,
    show IntType.wrap _ _ = _ from rightFits, IntType.result_unsigned]

theorem sub (leftIs : Is store left first x) (rightIs : Is store right second y)
    (common : first.common second = type) (leftFits : type.Holds x) (rightFits : type.Holds y)
    (fits : type.Holds (x - y)) : Is store (left - right) type (x - y) := by
  apply leftIs.binary rightIs
  · exact common
  simp only [Binary.apply, Binary.applyCommon, common, show type.wrap _ = _ from leftFits,
    show type.wrap _ = _ from rightFits, IntType.result_of_holds fits]

theorem mul (leftIs : Is store left first x) (rightIs : Is store right second y)
    (common : first.common second = type) (leftFits : type.Holds x) (rightFits : type.Holds y)
    (fits : type.Holds (x * y)) : Is store (left * right) type (x * y) := by
  apply leftIs.binary rightIs
  · exact common
  simp only [Binary.apply, Binary.applyCommon, common, show type.wrap _ = _ from leftFits,
    show type.wrap _ = _ from rightFits, IntType.result_of_holds fits]

/-! ## Comparisons -/

theorem lt (leftIs : Is store left first x) (rightIs : Is store right second y)
    (common : first.common second = type) (leftFits : type.Holds x) (rightFits : type.Holds y) :
    Is store (.binary .lt left right) .s32 (truth (x < y)) := by
  apply leftIs.binary rightIs rfl
  simp only [Binary.apply, Binary.applyCommon, common, show type.wrap _ = _ from leftFits,
    show type.wrap _ = _ from rightFits]

theorem gt (leftIs : Is store left first x) (rightIs : Is store right second y)
    (common : first.common second = type) (leftFits : type.Holds x) (rightFits : type.Holds y) :
    Is store (.binary .gt left right) .s32 (truth (y < x)) := by
  apply leftIs.binary rightIs rfl
  simp only [Binary.apply, Binary.applyCommon, common, show type.wrap _ = _ from leftFits,
    show type.wrap _ = _ from rightFits]

theorem eq (leftIs : Is store left first x) (rightIs : Is store right second y)
    (common : first.common second = type) (leftFits : type.Holds x) (rightFits : type.Holds y) :
    Is store (.binary .eq left right) .s32 (truth (x = y)) := by
  apply leftIs.binary rightIs rfl
  simp only [Binary.apply, Binary.applyCommon, common, show type.wrap _ = _ from leftFits,
    show type.wrap _ = _ from rightFits]

theorem ne (leftIs : Is store left first x) (rightIs : Is store right second y)
    (common : first.common second = type) (leftFits : type.Holds x) (rightFits : type.Holds y) :
    Is store (.binary .ne left right) .s32 (truth (x ≠ y)) := by
  apply leftIs.binary rightIs rfl
  simp only [Binary.apply, Binary.applyCommon, common, show type.wrap _ = _ from leftFits,
    show type.wrap _ = _ from rightFits]

/-! ## Shifts -/

theorem shiftLeft {count : Nat} (leftIs : Is store left first x)
    (rightIs : Is store right second count) (promoted : first.promote = type)
    (few : count < type.width) : Is store (left <<< right) type (type.wrap (x * 2 ^ count)) := by
  apply leftIs.binary rightIs
  · exact promoted
  rw [Binary.apply, promoted, Binary.shift, if_pos ⟨Int.natCast_nonneg _, by exact_mod_cast few⟩,
    Int.toNat_natCast]

theorem shiftRight {count : Nat} (leftIs : Is store left first x)
    (rightIs : Is store right second count) (promoted : first.promote = type)
    (few : count < type.width) : Is store (left >>> right) type (x / 2 ^ count) := by
  apply leftIs.binary rightIs
  · exact promoted
  rw [Binary.apply, promoted, Binary.shift, if_pos ⟨Int.natCast_nonneg _, by exact_mod_cast few⟩,
    Int.toNat_natCast]

/-! ## Truth values -/

theorem both {p q : Bool} (leftIs : Is store left first (truth p))
    (rightIs : Is store right second (truth q)) :
    Is store (.both left right) .s32 (truth (p && q)) := by
  constructor
  · rfl
  · rw [eval, leftIs.eval_eq, rightIs.eval_eq, Option.bind_some, Option.map_some]
    cases p <;> cases q <;> rfl

theorem either {p q : Bool} (leftIs : Is store left first (truth p))
    (rightIs : Is store right second (truth q)) :
    Is store (.either left right) .s32 (truth (p || q)) := by
  constructor
  · rfl
  · rw [eval, leftIs.eval_eq, rightIs.eval_eq, Option.bind_some, Option.map_some]
    cases p <;> cases q <;> rfl

theorem choose {p : Bool} {third : IntType} (conditionIs : Is store condition third (truth p))
    (leftIs : Is store left first x) (rightIs : Is store right second y)
    (common : first.common second = type) (leftFits : type.Holds x) (rightFits : type.Holds y) :
    Is store (.choose condition left right) type (if p then x else y) := by
  constructor
  · rw [Expr.type, leftIs.type_eq, rightIs.type_eq, common]
  · rw [eval, conditionIs.eval_eq, leftIs.eval_eq, rightIs.eval_eq, leftIs.type_eq,
      rightIs.type_eq, common, Option.bind_some, Option.map_some, Option.map_some,
      show type.wrap _ = _ from leftFits, show type.wrap _ = _ from rightFits]
    cases p <;> rfl

/-- A choice whose parts need a value only where they are chosen. -/
theorem choose_of {p : Bool} {third : IntType} (conditionIs : Is store condition third (truth p))
    (leftType : left.type = first) (rightType : right.type = second)
    (common : first.common second = type) (fits : type.Holds number)
    (yes : p = true → left.eval store = some number)
    (no : p = false → right.eval store = some number) :
    Is store (.choose condition left right) type number := by
  constructor
  · rw [Expr.type, leftType, rightType, common]
  · rw [eval, conditionIs.eval_eq, leftType, rightType, common, Option.bind_some]
    cases p with
    | true => rw [if_neg (by decide), yes rfl, Option.map_some, show type.wrap _ = _ from fits]
    | false => rw [if_pos (by decide), no rfl, Option.map_some, show type.wrap _ = _ from fits]

/-! ## Calls -/

theorem call₂ {function : Int → Int → Int} (leftIs : Is store left first x)
    (rightIs : Is store right second y) (type : IntType) :
    Is store (.call₂ type function left right) type (type.wrap (function x y)) :=
  ⟨rfl, by rw [eval, leftIs.eval_eq, rightIs.eval_eq, Option.bind_some, Option.map_some]⟩

end Is

end Expr

end UfcRecomp.Lib
