import UfcRecomp.Emitted.Reservation
import UfcRecomp.Recompiler.Double
import UfcRecomp.Recompiler.IntegerRuns
import UfcRecomp.Recompiler.VectorRuns

/-!
# Record forms

An opcode with a dot in its name also sets a field of the condition register. Each case has to
print the comparison for that itself, and only some of them do.
-/

namespace UfcRecomp.Recompiler

open UfcRecomp.Lib UfcRecomp.Lib.Simd UfcRecomp.Ppc UfcRecomp.Emitted

/-! ## Fields -/

/-- The members of a field of the condition register. -/
@[ext]
structure CrValue where
  lt : Byte
  gt : Byte
  eq : Byte
  so : Byte

/-- The field that the objects hold. -/
def crField (store : Store Object) (index : Nat) : CrValue where
  lt := store (.cr index) 0
  gt := store (.cr index) 1
  eq := store (.cr index) 2
  so := store (.cr index) 3

/-- A bit of the condition register. -/
def bit (value : Bool) : Byte := if value then 1 else 0

/-- The field for the low word of a result. -/
def CrValue.ofResult (result : BitVec 64) (so : Byte) : CrValue where
  lt := bit ((result.setWidth 32).toInt < 0)
  gt := bit (0 < (result.setWidth 32).toInt)
  eq := bit ((result.setWidth 32).toInt = 0)
  so := so

/-- The field for the exceptions of floating-point numbers, the top bits of the guest's control
register. -/
def CrValue.ofExceptions (fpscr : BitVec 32) : CrValue where
  lt := bit (fpscr.getMsbD 0)
  gt := bit (fpscr.getMsbD 1)
  eq := bit (fpscr.getMsbD 2)
  so := bit (fpscr.getMsbD 3)

/-- The field for a comparison of vectors. -/
def CrValue.ofMask (all none : Bool) : CrValue := ⟨bit all, 0, bit none, 0⟩

theorem ofInt_truth_bit (value : Bool) : BitVec.ofInt 8 (truth value) = bit value := by
  cases value <;> rfl

/-! ## Comparisons -/

theorem wrap_s32_toInt (value : BitVec 32) : IntType.s32.wrap value.toInt = value.toInt := by
  have bound := value.isLt
  rw [IntType.wrap_signed, BitVec.toInt_eq_toNat_cond]
  omega

/-- The low word of a register beside zero. -/
theorem eval_compare_zero (store : Store Object) (operand : Nat → Word) {op : Binary}
    {holds : Int → Int → Prop} [DecidableRel holds]
    (meaning : ∀ x y, op.apply .s32 .s32 x y =
      some (truth (holds (IntType.s32.wrap x) (IntType.s32.wrap y)))) :
    (Expr.binary op (.convert .s32 (IntegerInst.reg operand .s32 0))
      (.convert .s32 (.decimal 0))).eval store =
      some (truth (holds (((view store).r (operand 0).toNat).setWidth 32).toInt 0)) := by
  simp only [Expr.eval, IntegerInst.reg, Expr.eval_decimal, Option.map_some, Option.bind_some,
    Expr.type, meaning, read_s32, wrap_s32_toInt]
  rfl

/-- What a comparison of a register with zero leaves behind. -/
theorem run_compare {operand : Nat → Word} {before after : Store Object}
    (ran : CStatement.run before (PpcCrRegister.compare .s32 0
      (IntegerInst.reg operand .s32 0) (.decimal 0)) = some after) :
    view after = view before ∧ after .xer = before .xer ∧
      crField after 0 = .ofResult ((view before).r (operand 0).toNat) (before .xer 0) := by
  have keeps : ∀ (store : Store Object) (offset : Nat) (number : Int),
      view (store.write ⟨.cr 0, offset, .u8⟩ number) = view store :=
    fun store offset number => view_write_of_ne store (by simp) (by simp) number
  have less := fun store => @eval_compare_zero store operand .lt (· < ·) _ fun _ _ => rfl
  have greater := fun store => @eval_compare_zero store operand .gt (fun x y => y < x) _
    fun _ _ => rfl
  have equal := fun store => @eval_compare_zero store operand .eq (· = ·) _ fun _ _ => rfl
  have overflow : ∀ store : Store Object, (Expr.read PpcXerRegister.so).eval store =
      some (store.read PpcXerRegister.so) := fun _ => rfl
  simp only [PpcCrRegister.compare, PpcCrRegister.lt, PpcCrRegister.gt, PpcCrRegister.eq,
    PpcCrRegister.so, CStatement.run_cons, CStatement.run_nil, CStatement.step, less, greater,
    equal, overflow, keeps, Option.map_some, Option.bind_some, Option.some.injEq] at ran
  subst ran
  refine ⟨by simp only [keeps], ?_, ?_⟩
  · simp [Store.write_byte]
  · simp [crField, CrValue.ofResult, bit, Store.write_byte, PpcXerRegister.so,
      Store.ofInt_read_byte]

/-! ## Integer instructions -/

/-- The integer instructions whose case looks for a dot. -/
def IntegerInst.compares : IntegerInst → Bool
  | .clrldi | .cntlzd | .cntlzw | .divd | .mulhd | .mulhdu | .mulhw | .mulld | .nand | .nor => false
  | .orc | .rldicl | .rldicr | .rldimi | .rlwimi | .rotldi | .rotlw | .sld | .srad | .sradi => false
  | .srd | .subfic => false
  | _ => true

/-- They end in a comparison of the result. -/
theorem IntegerInst.statements_of_compares {inst : IntegerInst} (compares : inst.compares = true)
    (operand : Nat → Word) :
    ∃ front, inst.statements true operand =
      front ++ PpcCrRegister.compare .s32 0 (reg operand .s32 0) (.decimal 0) := by
  cases inst <;> first | exact absurd compares (by decide) | skip
  case andi | andis => exact ⟨[_], rfl⟩
  all_goals exact ⟨_, rfl⟩

/-- The others assign to no field. -/
theorem IntegerInst.target_of_not_compares {inst : IntegerInst} (silent : inst.compares = false)
    (operand : Nat → Word) (index : Nat) :
    ∀ statement ∈ inst.statements true operand, Object.cr index ≠ statement.target := by
  cases inst <;> first | exact absurd silent (by decide) | skip
  case sradi =>
    by_cases zero : operand 2 = 0#32 <;>
      simp [statements, zero, setCarry, setReg, r, PpcXerRegister.ca, CStatement.target]
  all_goals
    simp [statements, setCarry, setReg, r, temp, PpcXerRegister.ca, CStatement.target]

/-! ## Floating-point instructions -/

/-- None assigns to a field. -/
theorem DoubleInst.target_ne (inst : DoubleInst) (double : DoubleOps) (operand : Nat → Word)
    (index : Nat) :
    ∀ statement ∈ inst.statements double operand, Object.cr index ≠ statement.target := by
  cases inst <;> simp [statements, setF64, toInt, f, csr, host, CStatement.target]

/-- All have a meaning. -/
theorem DoubleInst.exists_run (inst : DoubleInst) (double : DoubleOps) (operand : Nat → Word)
    (before : Store Object) :
    ∃ after, CStatement.run before (inst.statements double operand) = some after := by
  cases inst
  case fsel | fctid | fctidz | fctiwz =>
    simp only [statements, setF64, toInt, CStatement.run_cons, CStatement.run_nil, CStatement.step,
      Expr.eval, f64, zero, Option.bind_some, Option.map_some, Expr.eval_decimal]
    split <;> exact ⟨_, rfl⟩
  all_goals exact ⟨_, rfl⟩

/-! ## Comparisons of vectors -/

/-- The size of the lanes that an instruction compares, and where its comparison holds. -/
def VectorInst.comparison (float : FloatOps) :
    VectorInst → Option (Nat × (Vec → Vec → Nat → Bool))
  | .vcmpbfp => some (4, fun a b i =>
    float.le (a.lane 4 i) (b.lane 4 i) &&
      float.ge (a.lane 4 i) (float.neg (b.lane 4 i) % 2 ^ 32))
  | .vcmpeqfp => some (4, fun a b i => float.eq (a.lane 4 i) (b.lane 4 i))
  | .vcmpgefp => some (4, fun a b i => float.ge (a.lane 4 i) (b.lane 4 i))
  | .vcmpgtfp => some (4, fun a b i => float.gt (a.lane 4 i) (b.lane 4 i))
  | .vcmpequb => some (1, fun a b i => a.lane 1 i = b.lane 1 i)
  | .vcmpequh => some (2, fun a b i => a.lane 2 i = b.lane 2 i)
  | .vcmpequw => some (4, fun a b i => a.lane 4 i = b.lane 4 i)
  | .vcmpgtsh => some (2, fun a b i => b.signedLane 2 i < a.signedLane 2 i)
  | .vcmpgtsw => some (4, fun a b i => b.signedLane 4 i < a.signedLane 4 i)
  | .vcmpgtub => some (1, fun a b i => b.lane 1 i < a.lane 1 i)
  | .vcmpgtuh => some (2, fun a b i => b.lane 2 i < a.lane 2 i)
  | _ => none

section Vectors

variable {operand : Nat → Word} {before after : Store Object}

/-- Whether something holds in every lane. -/
def everyLane (size : Nat) (holds : Nat → Bool) : Bool := (List.range (16 / size)).all holds

theorem everyLane_iff (size : Nat) (holds : Nat → Bool) :
    everyLane size holds = true ↔ ∀ index < 16 / size, holds index = true := by
  simp [everyLane]

/-- What a comparison of vectors leaves behind, by its movemask. -/
theorem run_compareVec {op : Vec → Vec → Vec} {mask imm : Nat} (pos : 0 < mask)
    (ran : VStatement.run before
      (VectorInst.compareVec (vectorNames operand) true op mask imm) = some after) :
    let result := op (vec before operand 1) (vec before operand 2)
    crField after 6 = .ofMask (result.movemask mask = imm) (result.movemask mask = 0) ∧
      ∀ position < 16, vec after operand 0 position = result position := by
  intro result
  simp only [VectorInst.compareVec, VectorInst.store₂, VectorInst.setFromMask, VectorInst.cr6,
    VectorInst.load, vectorNames, roleObject, if_true, List.cons_append, List.nil_append, VStatement.run_cons,
    VStatement.run_nil, VStatement.step, CStatement.step, VExpr.eval, Expr.eval_decimal,
    Option.map_some, Option.bind_some, Option.some.injEq] at ran
  subst ran
  constructor
  · have movemask := fun target vec => @Store.movemask_storeVec _ _ before target vec mask pos
    ext1 <;> simp [-ofInt_truth, ofInt_truth_bit, result, vec, crField, CrValue.ofMask,
      Store.write_byte, movemask] <;> rfl
  · intro position inside
    simp [result, vec, Store.write_byte, Store.storeVec_of_lt, inside]

/-- The bounds of a lane, as `vcmpbfp` leaves them. -/
def boundsLane (below above : Bool) : Nat :=
  (if below then 0 else 0x80000000) ||| (if above then 0 else 0x40000000)

theorem boundsLane_eq_zero (below above : Bool) :
    boundsLane below above = 0 ↔ (below && above) = true := by
  cases below <;> cases above <;> decide

theorem boundsLane_lt (below above : Bool) : boundsLane below above < 2 ^ 32 := by
  cases below <;> cases above <;> decide

/-- What `vcmpbfp` assigns to a lane. -/
def boundsExpr (float : FloatOps) (lane : Nat) : Expr VectorRole :=
  let a : Expr VectorRole := .read (VectorInst.elem roleNames .u32 1 lane)
  let b : Expr VectorRole := .read (VectorInst.elem roleNames .u32 2 lane)
  .choose (VectorInst.compareFloat float.le a b) (.decimal 0) (.hex 0x80000000) |||
    .choose (VectorInst.compareFloat float.ge a (VectorInst.floatCall float.neg b)) (.decimal 0)
      (.hex 0x40000000)

theorem eval_boundsExpr (float : FloatOps) (store : Store VectorRole) (lane : Nat) :
    let x := Vec.lane 4 (store (.v 1)) lane
    let y := Vec.lane 4 (store (.v 2)) lane
    (boundsExpr float lane).eval store =
      some (boundsLane (float.le x y) (float.ge x (float.neg y % 2 ^ 32)) : Int) := by
  intro x y
  have neg : ∀ number : Nat, (IntType.u32.wrap (float.neg number)).toNat =
      float.neg number % 2 ^ 32 := by
    intro number
    rw [IntType.wrap_unsigned]
    norm_cast
  simp only [boundsExpr, VectorInst.compareFloat, VectorInst.floatCall, Expr.or_eq, Expr.eval, read_elem,
    Option.bind_some, Option.map_some, Int.toNat_natCast, neg, wrap_s32_truth, Expr.type,
    Expr.eval_decimal, show ∀ number, (Expr.hex number : Expr VectorRole).eval store =
      some (number : Int) from fun _ => rfl]
  generalize float.le x y = below
  generalize float.ge x (float.neg y % 2 ^ 32) = above
  revert below above
  decide +kernel

theorem eval_or_lanes {store : Store VectorRole} {left right : Expr VectorRole} {x y : Nat}
    (leftType : left.type = .u32) (rightType : right.type = .u32)
    (leftValue : left.eval store = some (x : Int)) (rightValue : right.eval store = some (y : Int))
    (leftFits : x < 2 ^ 32) (rightFits : y < 2 ^ 32) :
    (left ||| right).eval store = some ((x ||| y : Nat) : Int) := by
  have holds : ∀ number : Nat, number < 2 ^ 32 → IntType.u32.Holds (number : Int) := by
    intro number below
    exact (IntType.holds_natCast_iff (by decide) number).mpr below
  simp only [Expr.or_eq, Expr.eval, leftValue, rightValue, Option.bind_some, Binary.apply,
    Binary.applyCommon, leftType, rightType, show IntType.common .u32 .u32 = .u32 from rfl,
    show IntType.u32.wrap _ = _ from holds x leftFits,
    show IntType.u32.wrap _ = _ from holds y rightFits,
    IntType.bitwise_or (show 0 < IntType.u32.size by decide) (holds x leftFits) (holds y rightFits)]


/-- The statements of its record form. -/
def setBounds : List (CStatement VectorRole) :=
  [ .assign (VectorInst.cr6 roleNames 0) (.decimal 0),
    .assign (VectorInst.cr6 roleNames 1) (.decimal 0),
    .assign (VectorInst.cr6 roleNames 2) (.binary .eq
      (.read (VectorInst.elem roleNames .u32 0 0) ||| .read (VectorInst.elem roleNames .u32 0 1) |||
        .read (VectorInst.elem roleNames .u32 0 2) |||
        .read (VectorInst.elem roleNames .u32 0 3)) (.decimal 0)),
    .assign (VectorInst.cr6 roleNames 3) (.decimal 0) ]

/-- The field that the bounds of all lanes make. -/
theorem run_setBounds {store : Store VectorRole} {number : Nat → Nat}
    (lanes : ∀ i < 4, Vec.lane 4 (store (.v 0)) i = number i) :
    ∃ after, CStatement.run store setBounds = some after ∧
      after .cr6 0 = 0 ∧ after .cr6 1 = 0 ∧ after .cr6 2 = bit (everyLane 4 fun i => number i = 0) ∧
        after .cr6 3 = 0 := by
  have value : ∀ (other : Store VectorRole) (i : Nat), other (.v 0) = store (.v 0) → i < 4 →
      (.read (VectorInst.elem roleNames .u32 0 i) : Expr VectorRole).eval other =
        some (number i : Int) := by
    intro other i same below
    rw [Expr.eval, read_elem, same, lanes i below]
  have fits : ∀ i < 4, number i < 2 ^ 32 := by
    intro i below
    rw [← lanes i below]
    exact Vec.lane_lt _ _ _
  have either : ∀ other : Store VectorRole, other (.v 0) = store (.v 0) →
      (.read (VectorInst.elem roleNames .u32 0 0) ||| .read (VectorInst.elem roleNames .u32 0 1) |||
        .read (VectorInst.elem roleNames .u32 0 2) |||
        .read (VectorInst.elem roleNames .u32 0 3) : Expr VectorRole).eval other =
        some ((number 0 ||| number 1 ||| number 2 ||| number 3 : Nat) : Int) := by
    intro other same
    have low := eval_or_lanes rfl rfl (value other 0 same (by decide))
      (value other 1 same (by decide)) (fits 0 (by decide)) (fits 1 (by decide))
    have lowFits := Nat.or_lt_two_pow (fits 0 (by decide)) (fits 1 (by decide))
    have middle := eval_or_lanes rfl rfl low (value other 2 same (by decide)) lowFits
      (fits 2 (by decide))
    have middleFits := Nat.or_lt_two_pow lowFits (fits 2 (by decide))
    exact eval_or_lanes rfl rfl middle (value other 3 same (by decide)) middleFits
      (fits 3 (by decide))
  have zero : decide (number 0 ||| number 1 ||| number 2 ||| number 3 = 0) =
      everyLane 4 fun i => number i = 0 := by
    simp [everyLane, List.range_succ, Nat.or_eq_zero_iff, Bool.decide_and, Bool.and_assoc]
  have eq : ∀ other : Store VectorRole, other (.v 0) = store (.v 0) →
      (.binary .eq (.read (VectorInst.elem roleNames .u32 0 0) |||
        .read (VectorInst.elem roleNames .u32 0 1) ||| .read (VectorInst.elem roleNames .u32 0 2) |||
        .read (VectorInst.elem roleNames .u32 0 3)) (.decimal 0) : Expr VectorRole).eval other =
        some (truth (everyLane 4 fun i => number i = 0)) := by
    intro other same
    have below : number 0 ||| number 1 ||| number 2 ||| number 3 < 2 ^ 32 :=
      Nat.or_lt_two_pow (Nat.or_lt_two_pow (Nat.or_lt_two_pow (fits 0 (by decide))
        (fits 1 (by decide))) (fits 2 (by decide))) (fits 3 (by decide))
    have whole : IntType.u32.wrap ((number 0 ||| number 1 ||| number 2 ||| number 3 : Nat) : Int) =
        ((number 0 ||| number 1 ||| number 2 ||| number 3 : Nat) : Int) :=
      (IntType.holds_natCast_iff (show 0 < IntType.u32.size by decide) _).mpr below
    rw [Expr.eval, either other same, Option.bind_some, Expr.eval_decimal, Option.bind_some, ← zero]
    simp only [Binary.apply, Binary.applyCommon, Expr.or_eq, Expr.type, Binary.type,
      VectorInst.elem, show IntType.common .u32 .u32 = .u32 from rfl, Expr.type_decimal,
      show IntType.common .u32 (if 0 < 2 ^ 31 then .s32 else .s64) = .u32 from rfl, whole]
    exact congrArg some (truth_congr Int.natCast_eq_zero)
  have cr6 : ∀ (other : Store VectorRole) (offset : Nat) (number : Int),
      other.write (VectorInst.cr6 roleNames offset) number (.v 0) = other (.v 0) :=
    fun other offset number => Store.write_of_ne (show VectorRole.v 0 ≠ .cr6 by decide)
  simp only [setBounds, CStatement.run_cons, CStatement.run_nil, CStatement.step,
    Expr.eval_decimal, Option.map_some, Option.bind_some]
  rw [eq]
  · refine ⟨_, rfl, ?_⟩
    simp [VectorInst.cr6, roleNames, Store.write_byte, -ofInt_truth, ofInt_truth_bit]
  · simp only [cr6]

/-- What `vcmpbfp` leaves behind. -/
theorem run_vcmpbfp {float : FloatOps}
    (ran : VStatement.run before
      (VectorInst.vcmpbfp.statements (vectorNames operand) operand float true) = some after) :
    crField after 6 = ⟨0, 0, bit (everyLane 4 fun i =>
      let a := Vec.lane 4 (vec before operand 1) i
      let b := Vec.lane 4 (vec before operand 2) i
      float.le a b && float.ge a (float.neg b % 2 ^ 32)), 0⟩ := by
  let below (i : Nat) : Bool :=
    float.le (Vec.lane 4 (vec before operand 1) i) (Vec.lane 4 (vec before operand 2) i)
  let above (i : Nat) : Bool := float.ge (Vec.lane 4 (vec before operand 1) i)
    (float.neg (Vec.lane 4 (vec before operand 2) i) % 2 ^ 32)
  have block : ∀ i < 4, AssignsLane (contents before operand) (.v 0) [.temp] 4 i
      (boundsLane (below i) (above i)) [.assign (VectorInst.elem roleNames .u32 0 i)
        (boundsExpr float i)] :=
    fun i _ => assignsLane_assign rfl (eval_boundsExpr float (contents before operand) i)
  obtain ⟨middle, lanesRan, -, lanes, -⟩ := run_blocks (fun _ _ _ _ same => same) block
  have numbers : ∀ i < 4, Vec.lane 4 (middle (.v 0)) i = boundsLane (below i) (above i) := by
    intro i inside
    have lane := lanes i inside
    rw [Int.emod_eq_of_lt (Int.natCast_nonneg _)
      (by exact_mod_cast boundsLane_lt (below i) (above i))] at lane
    exact_mod_cast lane
  obtain ⟨made, setRan, lt, gt, eq, so⟩ := run_setBounds numbers
  have whole : VStatement.run (contents before operand)
      (VectorInst.vcmpbfp.statements roleNames operand float true) = some made := by
    have printed : VectorInst.vcmpbfp.statements roleNames operand float true =
        (VectorInst.forLanes 4 fun i => [.assign (VectorInst.elem roleNames .u32 0 i)
          (boundsExpr float i)]) ++ setBounds.map .scalar := rfl
    rw [printed, VStatement.run_append, VectorInst.forLanes, VStatement.run_map_scalar, lanesRan,
      Option.bind_some, VStatement.run_map_scalar, setRan]
  have agree := @run_roles operand float true .vcmpbfp (fun packs => absurd packs (by decide)) before
  rw [ran, show VStatement.run (fun role => before (roleObject operand role)) _ = some made
    from whole] at agree
  obtain ⟨written, same⟩ := Option.rel_some_some.mp agree
  have field : ∀ offset, after (.cr 6) offset = made .cr6 offset := by
    intro offset
    apply same .cr6
    rintro ⟨aliased, -⟩
    simp [vectorNaming, roleObject] at aliased
  have zero : ∀ i, decide (boundsLane (below i) (above i) = 0) = (below i && above i) := by
    intro i
    rw [Bool.eq_iff_iff, decide_eq_true_iff, boundsLane_eq_zero]
  simp only [zero] at eq
  simp only [crField, field, lt, gt, eq, so]
  rfl

/-- The field for a comparison of vectors that holds in some lanes. -/
def CrValue.ofLanes (size : Nat) (holds : Nat → Bool) : CrValue :=
  .ofMask (everyLane size holds) (everyLane size fun index => !holds index)

theorem ofMask_ofTruth {size mask imm : Nat} (lanes : size ∣ 16) (masks : mask = size ∨ mask = 1)
    (full : 2 ^ (16 / mask) - 1 = imm) (holds : Nat → Bool) :
    CrValue.ofMask (Vec.movemask mask (Vec.ofTruth size holds) = imm)
      (Vec.movemask mask (Vec.ofTruth size holds) = 0) = .ofLanes size holds := by
  rw [CrValue.ofLanes]
  congr 1
  · rw [Bool.eq_iff_iff, decide_eq_true_iff, everyLane_iff, ← full,
      Vec.movemask_ofTruth_full lanes masks]
  · rw [Bool.eq_iff_iff, decide_eq_true_iff, everyLane_iff, Vec.movemask_ofTruth_zero lanes masks]
    simp only [Bool.not_eq_true']

/-- The field that a comparison of vectors is to leave behind. -/
def VectorInst.field (inst : VectorInst) (size : Nat) (holds : Nat → Bool) : CrValue :=
  if inst = .vcmpbfp then ⟨0, 0, bit (everyLane size holds), 0⟩ else .ofLanes size holds

/-- Every comparison of vectors leaves it behind. -/
theorem run_comparison {inst : VectorInst} {float : FloatOps} {size : Nat}
    {holds : Vec → Vec → Nat → Bool} (compares : inst.comparison float = some (size, holds))
    (ran : VStatement.run before (inst.statements (vectorNames operand) operand float true) =
      some after) :
    crField after 6 = inst.field size (holds (vec before operand 1) (vec before operand 2)) := by
  have byMask : ∀ {op : Vec → Vec → Vec} {mask imm : Nat},
      VStatement.run before (VectorInst.compareVec (vectorNames operand) true op mask imm) =
        some after → size ∣ 16 → (mask = size ∨ mask = 1) → 2 ^ (16 / mask) - 1 = imm →
      op (vec before operand 1) (vec before operand 2) =
        Vec.ofTruth size (holds (vec before operand 1) (vec before operand 2)) →
      crField after 6 = .ofLanes size (holds (vec before operand 1) (vec before operand 2)) := by
    intro op mask imm ran lanes masks full truth
    have pos : 0 < mask := by
      obtain rfl | rfl := masks
      · exact Nat.pos_of_dvd_of_pos lanes (by decide)
      · decide
    rw [(run_compareVec pos ran).1, truth, ofMask_ofTruth lanes masks full]
  cases inst <;> cases compares
  case vcmpbfp => exact run_vcmpbfp ran
  case vcmpgtub => exact byMask ran (by decide) (.inl rfl) (by simp) (cmpgtEpu8_eq _ _)
  case vcmpgtuh => exact byMask ran (by decide) (.inr rfl) (by simp) (cmpgtEpu16_eq _ _)
  case vcmpequh | vcmpgtsh => exact byMask ran (by decide) (.inr rfl) (by simp) rfl
  all_goals exact byMask ran (by decide) (.inl rfl) (by simp) rfl

end Vectors

/-! ## Conditional stores -/

/-- The member of `reserved` that a conditional store compares. -/
def reserved : ReservationWidth → Place Object
  | .word => ⟨.reserved, 0, .s32⟩
  | .doubleword => ⟨.reserved, 0, .s64⟩

/-- The place in the memory that a conditional store names: a sum of a pointer and members of 32
bits. -/
def conditionalAddress (operand : Nat → Word) : Expr Object :=
  if operand 1 ≠ 0 then
    .call₂ .u64 (· + ·) (.read (r .u32 (operand 1))) (.read (r .u32 (operand 2)))
  else .read (r .u32 (operand 2))

/-- `PPC_INST_STWCX` and `PPC_INST_STDCX`: whether the exchange is made is the comparison in it; the
exchange itself leaves the objects as they are. -/
def storeConditional (width : ReservationWidth) (memory : Memory) (operand : Nat → Word) :
    List (CStatement Object) :=
  [ .assign (PpcCrRegister.lt 0) (.decimal 0), .assign (PpcCrRegister.gt 0) (.decimal 0),
    .assign (PpcCrRegister.eq 0) (.call₂ .u8
      (fun address old => truth (hostLoad memory address.toNat width.bytes = BitVec.ofInt _ old))
      (conditionalAddress operand) (.read (reserved width))),
    .assign (PpcCrRegister.so 0) (.read PpcXerRegister.so) ]

/-- Whether the shared word is the one that the thread has loaded. -/
def Matches (width : ReservationWidth) (memory : Memory) (operand : Nat → Word)
    (store : Store Object) : Bool :=
  let index := if operand 1 ≠ 0 then ((view store).r (operand 1).toNat).setWidth 32 else 0#32
  let base := ((view store).r (operand 2).toNat).setWidth 32
  hostLoad memory (index.toNat + base.toNat) width.bytes =
    BitVec.ofInt _ (store.read (reserved width))

theorem eval_conditionalAddress (operand : Nat → Word) (store : Store Object) :
    (conditionalAddress operand).eval store = some
      (((if operand 1 ≠ 0 then ((view store).r (operand 1).toNat).setWidth 32 else 0#32).toNat +
        (((view store).r (operand 2).toNat).setWidth 32).toNat : Nat) : Int) := by
  unfold conditionalAddress
  split
  next indexed =>
    simp only [Expr.eval, Option.bind_some, Option.map_some, read_u32, BitVec.toNat_setWidth,
      IntType.wrap_unsigned, Option.some.injEq]
    omega
  next =>
    simp only [Expr.eval, read_u32, BitVec.toNat_setWidth, BitVec.toNat_ofNat]
    norm_cast
    simp

/-- What a conditional store leaves behind. -/
theorem run_storeConditional {width : ReservationWidth} {memory : Memory} {operand : Nat → Word}
    {before after : Store Object}
    (ran : CStatement.run before (storeConditional width memory operand) = some after) :
    crField after 0 = ⟨0, 0, bit (Matches width memory operand before), after .xer 0⟩ := by
  have keeps : ∀ (store : Store Object) (offset : Nat) (number : Int),
      view (store.write ⟨.cr 0, offset, .u8⟩ number) = view store :=
    fun store offset number => view_write_of_ne store (by simp) (by simp) number
  have held : ∀ (store : Store Object) (offset : Nat) (number : Int),
      (store.write ⟨.cr 0, offset, .u8⟩ number).read (reserved width) =
        store.read (reserved width) := by
    intro store offset number
    exact Store.read_write_of_ne (by cases width <;> simp [reserved])
  have overflow : ∀ store : Store Object, (Expr.read PpcXerRegister.so).eval store =
      some (store.read PpcXerRegister.so) := fun _ => rfl
  have exchanged : ∀ store : Store Object, (Expr.call₂ .u8
      (fun address old => truth (hostLoad memory address.toNat width.bytes = BitVec.ofInt _ old))
      (conditionalAddress operand) (.read (reserved width))).eval store =
        some (truth (Matches width memory operand store)) := by
    intro store
    have wrapped : ∀ value, IntType.u8.wrap (truth value) = truth value := by decide
    simp only [Expr.eval, eval_conditionalAddress, Option.bind_some, Option.map_some, wrapped]
    rfl
  have same : ∀ (store : Store Object) (offset : Nat) (number : Int),
      Matches width memory operand (store.write ⟨.cr 0, offset, .u8⟩ number) =
        Matches width memory operand store := by
    intro store offset number
    rw [Matches, Matches, keeps, held]
  simp only [storeConditional, PpcCrRegister.lt, PpcCrRegister.gt, PpcCrRegister.eq,
    PpcCrRegister.so, CStatement.run_cons, CStatement.run_nil, CStatement.step, exchanged,
    Expr.eval_decimal, overflow, same, Option.map_some, Option.bind_some,
    Option.some.injEq] at ran
  subst ran
  simp [crField, -ofInt_truth, ofInt_truth_bit, Store.write_byte, PpcXerRegister.so,
    Store.ofInt_read_byte]

/-! ## All record forms -/

/-- The instructions with a record form; a conditional store has no other. -/
inductive RecordInst (float : FloatOps) where
  | integer (inst : IntegerInst) (record : inst ≠ .subfic)
  | storeConditional (width : ReservationWidth)
  | double (inst : DoubleInst)
  | vector (inst : VectorInst) (size : Nat) (holds : Vec → Vec → Nat → Bool)
    (compares : inst.comparison float = some (size, holds))

/-- What an instruction makes of the guest's control register, by the bits of its operands. The
context keeps no more of the register than the rounding mode. -/
abbrev FpscrEffect := DoubleInst → (Nat → Int) → BitVec 32 → BitVec 32

/-- The guest's control register behind an instruction, from the state in front of it: what `mffs`
would give there, with the effect of the instruction. -/
def fpscrAfter (double : DoubleOps) (effect : FpscrEffect) (inst : DoubleInst)
    (operand : Nat → Word) (before : Store Object) : BitVec 32 :=
  effect inst (fun index => before.read (DoubleInst.f operand .u64 index))
    (BitVec.ofInt 32 (double.loadFromHost (before.read DoubleInst.host)))

namespace RecordInst

variable {float : FloatOps}

/-- The statements of a record form, run. -/
def run (double : DoubleOps) (memory : Memory) (operand : Nat → Word) (before : Store Object) :
    RecordInst float → Option (Store Object)
  | integer inst _ => CStatement.run before (inst.statements true operand)
  | .storeConditional width =>
    CStatement.run before (Recompiler.storeConditional width memory operand)
  | .double inst => CStatement.run before (inst.statements double operand)
  | vector inst _ _ _ =>
    VStatement.run before (inst.statements (vectorNames operand) operand float true)

/-- The field that a record form sets is right: the comparison of the result with zero, whether the
exchange was made, the exceptions, or the comparison of all lanes. -/
def Right (double : DoubleOps) (effect : FpscrEffect) (memory : Memory) (operand : Nat → Word)
    (before after : Store Object) : RecordInst float → Prop
  | integer _ _ => crField after 0 = .ofResult ((view after).r (operand 0).toNat) (after .xer 0)
  | .storeConditional width =>
    crField after 0 = ⟨0, 0, bit (Matches width memory operand before), after .xer 0⟩
  | .double inst =>
    crField after 1 = .ofExceptions (fpscrAfter double effect inst operand before)
  | vector inst size holds _ =>
    crField after 6 = inst.field size (holds (vec before operand 1) (vec before operand 2))

/-- Whether the case of an instruction looks for a dot, or always sets the field. -/
def handled : RecordInst float → Bool
  | integer inst _ => inst.compares
  | .storeConditional _ => true
  | double _ => false
  | vector _ _ _ _ => true

/-- One in every register, and ones also in the members of a field that exclude each other. -/
def ones : Store Object
  | .r _, position => if position = 0 then 1 else 0
  | _, _ => 1

/-- A result is below zero, above it, or zero. -/
theorem ofResult_one (result : BitVec 64) (so : Byte) :
    (CrValue.ofResult result so).lt.toNat + (CrValue.ofResult result so).gt.toNat +
      (CrValue.ofResult result so).eq.toNat = 1 := by
  simp only [CrValue.ofResult, bit, decide_eq_true_eq]
  split_ifs <;> first | rfl | omega

/-- Ones, but another member than the right one in the field for exceptions. -/
def wrongException (right : Byte) : Store Object
  | .cr 1, _ => if right = 0 then 1 else 0
  | object, position => ones object position

/-- The field of a record form is right for every state, if and only if the case of the instruction
looks for a dot or always sets the field. -/
theorem right_iff (double : DoubleOps) (effect : FpscrEffect) (memory : Memory)
    (inst : RecordInst float) :
    (∀ operand before after, inst.run double memory operand before = some after →
      inst.Right double effect memory operand before after) ↔ inst.handled = true := by
  constructor
  · intro right
    cases inst with
    | integer inst record =>
        rw [handled, ← Bool.not_eq_false]
        intro silent
        obtain ⟨after, ran⟩ : ∃ after, CStatement.run ones (inst.statements true fun _ => 0) =
            some after := by
          apply Option.isSome_iff_exists.mp
          cases inst <;> first | exact absurd silent (by decide) | decide +kernel
        have kept : crField after 0 = crField ones 0 := by
          simp only [crField]
          rw [CStatement.run_of_ne ran (inst.target_of_not_compares silent _ 0)]
        have one := ofResult_one ((view after).r 0) (after .xer 0)
        rw [← show crField after 0 = .ofResult ((view after).r 0) (after .xer 0)
          from right (fun _ => 0) ones after ran, kept] at one
        exact absurd one (by decide)
    | double inst =>
        -- the exceptions do not depend on the field that is to hold them
        let raised := fpscrAfter double effect inst (fun _ => 0) ones
        let before := wrongException (CrValue.ofExceptions raised).lt
        obtain ⟨after, ran⟩ := inst.exists_run double (fun _ => 0) before
        have kept : crField after 1 = crField before 1 := by
          simp only [crField]
          rw [CStatement.run_of_ne ran (inst.target_ne double _ 1)]
        have same : fpscrAfter double effect inst (fun _ => 0) before = raised := rfl
        have field := kept.symm.trans (right (fun _ => 0) before after ran)
        rw [same] at field
        have lt := congrArg CrValue.lt field
        simp only [crField, before, wrongException] at lt
        split at lt
        next zero => exact absurd (lt.trans zero) (by decide)
        next other => exact absurd lt.symm other
    | storeConditional | vector => rfl
  · intro handled operand before after ran
    cases inst with
    | integer inst record =>
        obtain ⟨front, printed⟩ := inst.statements_of_compares handled operand
        simp only [run, printed, CStatement.run_append] at ran
        obtain ⟨middle, -, compared⟩ := Option.bind_eq_some_iff.mp ran
        obtain ⟨same, xer, field⟩ := run_compare compared
        rw [Right, field, same, xer]
    | storeConditional width => exact run_storeConditional ran
    | double => cases handled
    | vector inst size holds compares => exact run_comparison compares ran

deriving instance Inhabited for FloatOps, DoubleOps

/-- A `nand.` of registers that are zero makes a negative number, but the field stays clear. -/
theorem not_right : ¬∀ (float : FloatOps) (double : DoubleOps) (effect : FpscrEffect)
    (memory : Memory) (after : Store Object),
    (integer .nand (by decide) : RecordInst float).run double memory (fun _ => 0) (fun _ _ => 0) =
        some after →
      (integer .nand (by decide) : RecordInst float).Right double effect memory (fun _ => 0)
        (fun _ _ => 0) after := by
  intro every
  obtain ⟨after, ran⟩ : ∃ after, CStatement.run (fun _ _ => 0)
      (IntegerInst.nand.statements true fun _ => 0) = some after :=
    Option.isSome_iff_exists.mp (by decide +kernel)
  have right := every default default default .zeroed after ran
  have kept : crField after 0 = crField (fun _ _ => 0) 0 := by
    simp only [crField]
    rw [CStatement.run_of_ne ran (IntegerInst.target_of_not_compares rfl _ 0)]
  have one := ofResult_one ((view after).r 0) (after .xer 0)
  rw [← show crField after 0 = .ofResult ((view after).r 0) (after .xer 0) from right, kept] at one
  exact absurd one (by decide)

end RecordInst

end UfcRecomp.Recompiler
