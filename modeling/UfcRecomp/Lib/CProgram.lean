import UfcRecomp.Lib.CObject

/-!
# Straight-line C++ programs

Expressions over the places of objects and the assignments that are made from them. An operation
converts its operands to their common type first. Where the language leaves the behaviour open
(the result of a signed operation that does not fit, a shift by more bits than the type has, a
division by zero) there is no value.
-/

namespace UfcRecomp.Lib

inductive Unary where
  | neg
  | complement
  deriving DecidableEq

inductive Binary where
  | add
  | sub
  | mul
  | div
  | and
  | or
  | xor
  | shiftLeft
  | shiftRight
  | lt
  | gt
  | le
  | ge
  | eq
  | ne
  deriving DecidableEq

/-- An expression. A call is a function on numbers whose result has the given type. -/
inductive Expr (κ : Type) where
  | literal (type : IntType) (number : Int)
  | read (place : Place κ)
  | convert (type : IntType) (operand : Expr κ)
  | unary (op : Unary) (operand : Expr κ)
  | binary (op : Binary) (left right : Expr κ)
  | both (left right : Expr κ)
  | either (left right : Expr κ)
  | choose (condition yes no : Expr κ)
  | call (type : IntType) (function : Int → Int) (argument : Expr κ)
  | call₂ (type : IntType) (function : Int → Int → Int) (first second : Expr κ)

/-! ## Operations -/

namespace Unary

@[simp] def type (operand : IntType) : IntType := operand.promote

@[simp] def apply (op : Unary) (operand : IntType) (number : Int) : Option Int :=
  match op with
  | .neg => operand.promote.result (-number)
  | .complement => some (operand.promote.wrap (-number - 1))

end Unary

/-- The number of a truth value. -/
def truth (value : Bool) : Int := if value then 1 else 0

@[simp] theorem truth_emod (value : Bool) : truth value % 256 = truth value := by
  cases value <;> rfl

@[simp] theorem wrap_s32_truth (value : Bool) :
    IntType.s32.wrap (truth value) = truth value := by
  cases value <;> rfl

@[simp] theorem bitwise_or_truth (left right : Bool) :
    IntType.s32.bitwise (fun _ => (· ||| ·)) (truth left) (truth right) =
      truth (left || right) := by
  cases left <;> cases right <;> decide

@[simp] theorem bitwise_and_truth (left right : Bool) :
    IntType.s32.bitwise (fun _ => (· &&& ·)) (truth left) (truth right) =
      truth (left && right) := by
  cases left <;> cases right <;> decide

theorem truth_congr {left right : Prop} [Decidable left] [Decidable right]
    (same : left ↔ right) : truth left = truth right := by
  simp only [same]

namespace Binary

/-- Comparisons give an `int`, and a shift has the type of what is shifted. -/
@[simp] def type (op : Binary) (left right : IntType) : IntType :=
  match op with
  | .shiftLeft | .shiftRight => left.promote
  | .lt | .gt | .le | .ge | .eq | .ne => .s32
  | _ => left.common right

/-- A shift, unless it is by more bits than there are. -/
@[simp] def shift (width : Nat) (count : Int) (shifted : Nat → Int) : Option Int :=
  if 0 ≤ count ∧ count < width then some (shifted count.toNat) else none

/-- The value of an operation on converted operands. -/
@[simp] def applyCommon (op : Binary) (type : IntType) (left right : Int) : Option Int :=
  match op with
  | .add => type.result (left + right)
  | .sub => type.result (left - right)
  | .mul => type.result (left * right)
  | .div => if right = 0 then none else type.result (left.tdiv right)
  | .and => some (type.bitwise (fun _ => (· &&& ·)) left right)
  | .or => some (type.bitwise (fun _ => (· ||| ·)) left right)
  | .xor => some (type.bitwise (fun _ => (· ^^^ ·)) left right)
  | .lt => some (truth (left < right))
  | .gt => some (truth (right < left))
  | .le => some (truth (left ≤ right))
  | .ge => some (truth (right ≤ left))
  | .eq => some (truth (left = right))
  | .ne => some (truth (left ≠ right))
  | .shiftLeft | .shiftRight => none

@[simp] def apply (op : Binary) (left right : IntType) (x y : Int) : Option Int :=
  match op with
  | .shiftLeft =>
    shift left.promote.width y fun count => left.promote.wrap (x * 2 ^ count)
  | .shiftRight => shift left.promote.width y fun count => x / 2 ^ count
  | _ => op.applyCommon (left.common right) ((left.common right).wrap x) ((left.common right).wrap y)

end Binary

/-! ## Expressions -/

namespace Expr

variable {κ : Type}

instance : Add (Expr κ) := ⟨binary .add⟩
instance : Sub (Expr κ) := ⟨binary .sub⟩
instance : Mul (Expr κ) := ⟨binary .mul⟩
instance : Div (Expr κ) := ⟨binary .div⟩
instance : Neg (Expr κ) := ⟨unary .neg⟩
instance : AndOp (Expr κ) := ⟨binary .and⟩
instance : OrOp (Expr κ) := ⟨binary .or⟩
instance : XorOp (Expr κ) := ⟨binary .xor⟩
instance : Complement (Expr κ) := ⟨unary .complement⟩
instance : ShiftLeft (Expr κ) := ⟨binary .shiftLeft⟩
instance : ShiftRight (Expr κ) := ⟨binary .shiftRight⟩

@[simp] theorem add_eq (left right : Expr κ) : left + right = binary .add left right := rfl

@[simp] theorem sub_eq (left right : Expr κ) : left - right = binary .sub left right := rfl

@[simp] theorem mul_eq (left right : Expr κ) : left * right = binary .mul left right := rfl

@[simp] theorem neg_eq (operand : Expr κ) : -operand = unary .neg operand := rfl

@[simp] theorem and_eq (left right : Expr κ) : left &&& right = binary .and left right := rfl

@[simp] theorem or_eq (left right : Expr κ) : left ||| right = binary .or left right := rfl

@[simp] theorem complement_eq (operand : Expr κ) : ~~~operand = unary .complement operand := rfl

@[simp] theorem shiftLeft_eq (left right : Expr κ) :
    left <<< right = binary .shiftLeft left right := rfl

@[simp] theorem shiftRight_eq (left right : Expr κ) :
    left >>> right = binary .shiftRight left right := rfl

/-- A literal in decimal notation: an `int` if that has it. -/
def decimal (number : Nat) : Expr κ :=
  literal (if number < 2 ^ 31 then .s32 else .s64) number

/-- A literal in decimal notation, with its sign in front of it. -/
def signedDecimal (number : Int) : Expr κ :=
  if number < 0 then -decimal number.natAbs else decimal number.natAbs

/-- A literal in hexadecimal notation: the first of four types that has it. -/
def hex (number : Nat) : Expr κ :=
  literal (if number < 2 ^ 31 then .s32 else if number < 2 ^ 32 then .u32
    else if number < 2 ^ 63 then .s64 else .u64) number

@[simp] def type : Expr κ → IntType
  | literal type _ => type
  | read place => place.type
  | convert type _ => type
  | unary _ operand => Unary.type operand.type
  | binary op left right => op.type left.type right.type
  | both _ _ | either _ _ => .s32
  | choose _ yes no => yes.type.common no.type
  | call type _ _ => type
  | call₂ type _ _ _ => type

/-- The value of an expression. -/
@[simp] def eval (store : Store κ) : Expr κ → Option Int
  | literal _ number => some number
  | read place => some (store.read place)
  | convert type operand => (operand.eval store).map type.wrap
  | unary op operand => (operand.eval store).bind (op.apply operand.type)
  | binary op left right =>
    (left.eval store).bind fun x => (right.eval store).bind (op.apply left.type right.type x)
  | both left right =>
    (left.eval store).bind fun x =>
      if x = 0 then some 0 else (right.eval store).map fun y => truth (y ≠ 0)
  | either left right =>
    (left.eval store).bind fun x =>
      if x = 0 then (right.eval store).map fun y => truth (y ≠ 0) else some 1
  | choose condition yes no =>
    (condition.eval store).bind fun x =>
      if x = 0 then (no.eval store).map (yes.type.common no.type).wrap
      else (yes.eval store).map (yes.type.common no.type).wrap
  | call type function argument => (argument.eval store).map fun x => type.wrap (function x)
  | call₂ type function first second =>
    (first.eval store).bind fun x => (second.eval store).map fun y => type.wrap (function x y)

@[simp] theorem type_decimal (number : Nat) :
    (decimal number : Expr κ).type = if number < 2 ^ 31 then .s32 else .s64 := rfl

@[simp] theorem eval_decimal (store : Store κ) (number : Nat) :
    (decimal number).eval store = some (number : Int) := rfl

/-- Beside a literal of either type a `uint32_t` keeps its value. -/
theorem wrap_common_decimal {short : Prop} [Decidable short] {number : Int} (above : 0 ≤ number)
    (below : number < 2 ^ 32) :
    (IntType.common .u32 (if short then .s32 else .s64)).wrap number = number := by
  split
  · rw [IntType.common_mk (by decide) (by decide)]
    exact Int.emod_eq_of_lt above below
  · rw [IntType.common_mk (by decide) (by decide)]
    exact (IntType.holds_s64_iff number).mpr (by omega)

/-- The type of a literal with its sign matters only beside a smaller one. -/
@[simp] theorem common_s64_signedDecimal (number : Int) :
    IntType.common .s64 (signedDecimal number : Expr κ).type = .s64 := by
  unfold signedDecimal
  split <;> simp only [type, Unary.type, type_decimal] <;> split <;> rfl

@[simp] theorem common_signedDecimal_s64 (number : Int) :
    IntType.common (signedDecimal number : Expr κ).type .s64 = .s64 := by
  unfold signedDecimal
  split <;> simp only [type, Unary.type, type_decimal] <;> split <;> rfl

/-- A literal has the value that was printed. -/
theorem eval_signedDecimal (store : Store κ) {number : Int} (above : -2 ^ 31 ≤ number) :
    (signedDecimal number).eval store = some number := by
  unfold signedDecimal
  split
  next negative =>
    have magnitude : -(number.natAbs : Int) = number := by omega
    rw [neg_eq, eval, eval_decimal, Option.bind_some, Unary.apply, type_decimal, magnitude]
    split
    · exact if_pos ((IntType.holds_s32_iff number).mpr (by omega))
    · exact if_pos ((IntType.holds_s64_iff number).mpr (by omega))
  next =>
    rw [eval_decimal]
    congr 1
    omega

/-- An unsigned number under a mask; the type of the mask does not matter. -/
theorem eval_and_hex {store : Store κ} {expr : Expr κ} {size number : Nat}
    (type : expr.type = ⟨size, false⟩) (word : size = 4 ∨ size = 8)
    (value : expr.eval store = some (number : Int)) (fits : number < 2 ^ (8 * size)) {mask : Nat}
    (masks : mask < 2 ^ 64) :
    (expr &&& hex mask).eval store = some ((number &&& mask : Nat) : Int) := by
  have common : ∃ wide : IntType, IntType.common ⟨size, false⟩ (hex mask : Expr κ).type = wide ∧
      0 < wide.size ∧ wide.Holds number ∧ wide.Holds mask := by
    refine ⟨_, rfl, ?_⟩
    unfold hex
    rcases word with rfl | rfl <;> simp only [Expr.type] <;> split_ifs <;>
      simp [IntType.holds_natCast_iff, IntType.width] <;> omega
  obtain ⟨wide, same, large, left, right⟩ := common
  have evaluated : (hex mask : Expr κ).eval store = some (mask : Int) := rfl
  simp only [and_eq, eval, value, evaluated, Option.bind_some, Binary.apply, Binary.applyCommon,
    type, same, show wide.wrap number = number from left, show wide.wrap mask = mask from right,
    IntType.bitwise_and large left right]

/-- The test of an unsigned number under a mask. -/
theorem eval_and_hex_ne {store : Store κ} {expr : Expr κ} {size number : Nat}
    (type : expr.type = ⟨size, false⟩) (word : size = 4 ∨ size = 8)
    (value : expr.eval store = some (number : Int)) (fits : number < 2 ^ (8 * size)) {mask : Nat}
    (masks : mask < 2 ^ 64) :
    (.binary .ne (expr &&& hex mask) (.decimal 0) : Expr κ).eval store =
      some (truth (decide (number &&& mask ≠ 0))) := by
  have common : ∃ wide : IntType,
      IntType.common (expr &&& hex mask).type (decimal 0 : Expr κ).type = wide ∧
        wide.Holds ((number &&& mask : Nat) : Int) ∧ wide.Holds ((0 : Nat) : Int) := by
    have small : number &&& mask < 2 ^ (8 * size) := Nat.lt_of_le_of_lt Nat.and_le_left fits
    have under : number &&& mask ≤ mask := Nat.and_le_right
    generalize number &&& mask = masked at small under ⊢
    refine ⟨_, rfl, ?_⟩
    unfold hex
    rcases word with rfl | rfl <;> simp only [and_eq, Expr.type, Binary.type, type, type_decimal] <;>
      split_ifs <;> simp [IntType.holds_natCast_iff, IntType.holds_zero, IntType.width] <;> omega
  obtain ⟨wide, same, left, right⟩ := common
  have nonzero : decide (((number &&& mask : Nat) : Int) ≠ ((0 : Nat) : Int)) =
      decide (number &&& mask ≠ 0) := by
    rw [decide_eq_decide]
    omega
  simp only [eval, eval_and_hex type word value fits masks, eval_decimal, Option.bind_some,
    Binary.apply, Binary.applyCommon, same, show wide.wrap _ = _ from left,
    show wide.wrap _ = _ from right, nonzero]

/-- Both of two truth values. -/
theorem eval_and_truth {store : Store κ} {left right : Expr κ} {x y : Bool}
    (leftType : left.type = .s32) (rightType : right.type = .s32)
    (leftValue : left.eval store = some (truth x)) (rightValue : right.eval store = some (truth y)) :
    (left &&& right).eval store = some (truth (x && y)) := by
  simp only [and_eq, eval, leftValue, rightValue, leftType, rightType, Option.bind_some,
    Binary.apply, Binary.applyCommon, show IntType.common .s32 .s32 = .s32 from rfl,
    wrap_s32_truth, bitwise_and_truth]

/-- Under a mask an unsigned number has a type of at most eight bytes. -/
theorem size_and_hex {expr : Expr κ} {size : Nat} (type : expr.type = ⟨size, false⟩)
    (word : size = 4 ∨ size = 8) (mask : Nat) : (expr &&& hex mask).type.size ≤ 8 := by
  unfold hex
  rcases word with rfl | rfl <;> simp only [and_eq, Expr.type, Binary.type, type] <;>
    split_ifs <;> simp

/-- A mask does not change the type `uint64_t`. -/
theorem type_and_hex {expr : Expr κ} (type : expr.type = .u64) (mask : Nat) :
    (expr &&& hex mask).type = .u64 := by
  unfold hex
  simp only [and_eq, Expr.type, Binary.type, type]
  split_ifs <;> simp

/-- The bits of two numbers, one of which is an `uint64_t`. -/
theorem eval_or_u64 {store : Store κ} {left right : Expr κ} {x y : Nat}
    (leftType : left.type.size ≤ 8) (rightType : right.type = .u64)
    (leftValue : left.eval store = some (x : Int)) (rightValue : right.eval store = some (y : Int))
    (leftFits : x < 2 ^ 64) (rightFits : y < 2 ^ 64) :
    (left ||| right).eval store = some ((x ||| y : Nat) : Int) := by
  have holds : ∀ number : Nat, number < 2 ^ 64 → IntType.u64.Holds (number : Int) := by
    intro number below
    exact (IntType.holds_natCast_iff (by decide) number).mpr below
  simp only [or_eq, eval, leftValue, rightValue, Option.bind_some, Binary.apply,
    Binary.applyCommon, rightType, IntType.common_u64 leftType,
    show IntType.u64.wrap _ = _ from holds x leftFits,
    show IntType.u64.wrap _ = _ from holds y rightFits,
    IntType.bitwise_or (show 0 < IntType.u64.size by decide) (holds x leftFits) (holds y rightFits)]

/-- The places that an expression names. -/
def places : Expr κ → List (Place κ)
  | literal _ _ => []
  | read place => [place]
  | convert _ operand | unary _ operand | call _ _ operand => operand.places
  | binary _ left right | both left right | either left right | call₂ _ _ left right =>
    left.places ++ right.places
  | choose condition yes no => condition.places ++ yes.places ++ no.places

/-- An expression depends on the places that it names. -/
theorem eval_congr {left right : Store κ} {expr : Expr κ}
    (same : ∀ place ∈ expr.places, left.read place = right.read place) :
    expr.eval left = expr.eval right := by
  induction expr with
  | literal => rfl
  | read place => rw [eval, eval, same place (by simp [places])]
  | convert _ _ ih | unary _ _ ih | call _ _ _ ih => rw [eval, eval, ih same]
  | binary _ _ _ leftIh rightIh | both _ _ leftIh rightIh | either _ _ leftIh rightIh
  | call₂ _ _ _ _ leftIh rightIh =>
      simp only [places, List.mem_append] at same
      rw [eval, eval, leftIh fun place member => same place (.inl member),
        rightIh fun place member => same place (.inr member)]
  | choose _ _ _ conditionIh yesIh noIh =>
      simp only [places, List.mem_append] at same
      rw [eval, eval, conditionIh fun place member => same place (.inl (.inl member)),
        yesIh fun place member => same place (.inl (.inr member)),
        noIh fun place member => same place (.inr member)]

end Expr

/-! ## Statements -/

inductive CStatement (κ : Type) where
  | assign (place : Place κ) (value : Expr κ)
  | assignIf (condition : Expr κ) (place : Place κ) (value : Expr κ)
  /-- Assignment of a whole object. -/
  | copy (target source : κ)

namespace CStatement

variable {κ : Type} [DecidableEq κ]

@[simp] def step (store : Store κ) : CStatement κ → Option (Store κ)
  | assign place value => (value.eval store).map (store.write place)
  | assignIf condition place value =>
    (condition.eval store).bind fun x =>
      if x = 0 then some store else (value.eval store).map (store.write place)
  | copy target source => some (Function.update store target (store source))

/-- Run statements one after the other. -/
def run : Store κ → List (CStatement κ) → Option (Store κ)
  | store, [] => some store
  | store, statement :: rest => (statement.step store).bind fun store => run store rest

@[simp] theorem run_nil (store : Store κ) : run store [] = some store := rfl

@[simp] theorem run_cons (store : Store κ) (statement : CStatement κ) (rest : List (CStatement κ)) :
    run store (statement :: rest) = (statement.step store).bind fun store => run store rest := rfl

theorem run_append (store : Store κ) (front back : List (CStatement κ)) :
    run store (front ++ back) = (run store front).bind fun store => run store back := by
  induction front generalizing store with
  | nil => rfl
  | cons statement rest ih =>
      rw [List.cons_append, run_cons, run_cons, Option.bind_assoc]
      congr 1
      funext after
      exact ih after

/-- The object that a statement assigns to. -/
def target : CStatement κ → κ
  | assign place _ => place.object
  | assignIf _ place _ => place.object
  | copy target _ => target

/-- A statement changes no other object. -/
theorem step_of_ne {store after : Store κ} {statement : CStatement κ} {object : κ}
    (stepped : statement.step store = some after) (apart : object ≠ statement.target) :
    after object = store object := by
  cases statement with
  | assign place value =>
      obtain ⟨_, _, rfl⟩ := Option.map_eq_some_iff.mp stepped
      exact Store.write_of_ne apart
  | assignIf condition place value =>
      obtain ⟨_, _, chosen⟩ := Option.bind_eq_some_iff.mp stepped
      split at chosen
      · cases chosen
        rfl
      · obtain ⟨_, _, rfl⟩ := Option.map_eq_some_iff.mp chosen
        exact Store.write_of_ne apart
  | copy target source =>
      cases stepped
      exact Function.update_of_ne apart _ _

/-- An object that no statement assigns to keeps its bytes. -/
theorem run_of_ne {store after : Store κ} {statements : List (CStatement κ)} {object : κ}
    (ran : run store statements = some after)
    (apart : ∀ statement ∈ statements, object ≠ statement.target) :
    after object = store object := by
  induction statements generalizing store with
  | nil =>
      cases ran
      rfl
  | cons statement rest ih =>
      obtain ⟨middle, stepped, ran⟩ := Option.bind_eq_some_iff.mp ran
      rw [ih ran fun other member => apart other (List.mem_cons_of_mem _ member),
        step_of_ne stepped (apart statement List.mem_cons_self)]

end CStatement

end UfcRecomp.Lib
