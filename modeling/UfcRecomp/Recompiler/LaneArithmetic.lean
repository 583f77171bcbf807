import UfcRecomp.Recompiler.VectorRuns

/-!
# Arithmetic on lanes

Saturated sums and differences, rounded averages and comparisons, lane by lane. The host has an
instruction for some of them, and the emitted code makes the others from what there is.
-/

namespace UfcRecomp.Recompiler

open UfcRecomp.Lib UfcRecomp.Lib.Simd UfcRecomp.Ppc UfcRecomp.Emitted

/-! ## What lanes are to be -/

/-- The nearest number of a type. -/
def saturate (type : IntType) (number : Int) : Int := clamp type.min type.max number

/-- The type of the lanes, and what becomes of a lane. -/
def VectorInst.lanewise : VectorInst → Option (IntType × (Int → Int → Int))
  | .vaddsbs => some (.s8, fun x y => saturate .s8 (x + y))
  | .vaddshs => some (.s16, fun x y => saturate .s16 (x + y))
  | .vaddsws => some (.s32, fun x y => saturate .s32 (x + y))
  | .vaddubs => some (.u8, fun x y => saturate .u8 (x + y))
  | .vadduhs => some (.u16, fun x y => saturate .u16 (x + y))
  | .vadduws => some (.u32, fun x y => saturate .u32 (x + y))
  | .vsubshs => some (.s16, fun x y => saturate .s16 (x - y))
  | .vsubsws => some (.s32, fun x y => saturate .s32 (x - y))
  | .vsububs => some (.u8, fun x y => saturate .u8 (x - y))
  | .vsubuws => some (.u32, fun x y => saturate .u32 (x - y))
  | .vavgsb => some (.s8, fun x y => (x + y + 1) / 2)
  | .vavgsh => some (.s16, fun x y => (x + y + 1) / 2)
  | .vavgub => some (.u8, fun x y => (x + y + 1) / 2)
  | .vavguh => some (.u16, fun x y => (x + y + 1) / 2)
  | .vcmpgtub => some (.u8, fun x y => if y < x then 0xFF else 0)
  | .vcmpgtuh => some (.u16, fun x y => if y < x then 0xFFFF else 0)
  | _ => none

theorem holds_saturate {type : IntType} (large : 0 < type.size) (number : Int) :
    type.Holds (saturate type number) := by
  have order : type.min ≤ type.max := by
    have zero := (IntType.holds_iff large 0).mp (IntType.holds_zero large)
    omega
  rw [IntType.holds_iff large, saturate, clamp]
  omega

/-! ## Blocks -/

/-- A block that bounds an operation on two lanes. -/
theorem assignsLane_bounded {store : Store VectorRole} {op : Binary} {exact : Int → Int → Int}
    {type middle : IntType} {high low : Int} (lane : Nat)
    (wide : middle = .s32 ∨ middle = .s64) (order : low ≤ high)
    (highFits : IntType.s32.Holds high) (lowFits : IntType.s32.Holds low)
    (applies : ∀ x y, type.Holds x → type.Holds y →
      middle.Holds x ∧ middle.Holds y ∧ middle.Holds (exact x y) ∧
        op.apply middle middle x y = some (exact x y)) :
    AssignsLane store (.v 0) [.temp] type.size lane
      (clamp low high (exact (Vec.typed type (store (.v 1)) lane)
        (Vec.typed type (store (.v 2)) lane)))
      [ .assign (VectorInst.temp roleNames middle)
          (.binary op (.convert middle (.read (VectorInst.elem roleNames type 1 lane)))
            (.convert middle (.read (VectorInst.elem roleNames type 2 lane)))),
        .assign (VectorInst.elem roleNames type 0 lane)
          (VectorInst.bounded (VectorInst.temp roleNames middle) high low) ] := by
  obtain ⟨left, right, fits, applied⟩ := applies (Vec.typed type (store (.v 1)) lane)
    (Vec.typed type (store (.v 2)) lane) (type.holds_wrap _) (type.holds_wrap _)
  apply assignsLane_assign₂ (List.mem_singleton_self _) (by decide) rfl
  · simp only [Expr.eval, Option.map_some, Option.bind_some, Expr.type]
    exact (congrArg₂ (op.apply middle middle) left right).trans applied
  · intro before
    rw [eval_bounded wide order highFits lowFits]
    congr 2
    exact (Store.read_write _).trans fits

/-- A difference that is not below zero. -/
theorem eval_difference (store : Store VectorRole) (lane : Nat) :
    let a : Expr VectorRole := .read (VectorInst.elem roleNames .u32 1 lane)
    let b : Expr VectorRole := .read (VectorInst.elem roleNames .u32 2 lane)
    (.choose (.binary .gt a b) (a - b) (.decimal 0) : Expr VectorRole).eval store =
      some (saturate .u32 (Vec.typed .u32 (store (.v 1)) lane -
        Vec.typed .u32 (store (.v 2)) lane)) := by
  intro a b
  have leftValue : a.eval store = some (Vec.lane 4 (store (.v 1)) lane : Int) :=
    congrArg some (read_elem 4 1 lane)
  have rightValue : b.eval store = some (Vec.lane 4 (store (.v 2)) lane : Int) :=
    congrArg some (read_elem 4 2 lane)
  have leftType : a.type = .u32 := rfl
  have rightType : b.type = .u32 := rfl
  have same : ∀ index, IntType.u32.wrap (Vec.lane 4 (store (.v index)) lane) =
      Vec.lane 4 (store (.v index)) lane := fun index => Vec.typed_unsigned 4 _ lane
  have left := Vec.lane_lt 4 (store (.v 1)) lane
  have right := Vec.lane_lt 4 (store (.v 2)) lane
  have bounds : IntType.min .u32 = 0 ∧ IntType.max .u32 = 2 ^ 32 - 1 := by decide
  clear_value a b
  simp only [Expr.sub_eq, Expr.eval, leftValue, rightValue, leftType, rightType,
    Vec.typed_unsigned, Option.bind_some, Binary.apply, Binary.applyCommon, Expr.type, Binary.type,
    show IntType.common .u32 .u32 = .u32 from rfl, Expr.type_decimal, same,
    show IntType.common .u32 (if 0 < 2 ^ 31 then .s32 else .s64) = .u32 from rfl,
    Expr.eval_decimal, Option.map_some, IntType.result_unsigned, saturate, clamp, bounds.1,
    bounds.2]
  by_cases above : (Vec.lane 4 (store (.v 2)) lane : Int) < Vec.lane 4 (store (.v 1)) lane
  · rw [decide_eq_true above, if_neg (by decide), IntType.wrap_unsigned, Option.some.injEq]
    omega
  · rw [decide_eq_false above, if_pos (by decide), IntType.wrap_unsigned, Option.some.injEq]
    omega

/-! ## Lanes -/

/-- Statements compute every lane of the destination from the lanes that the sources had. -/
def ComputesLanes (statements : List (VStatement Object)) (operand : Nat → Word)
    (before : Store Object) (type : IntType) (op : Int → Int → Int) : Prop :=
  ∃ after, VStatement.run before statements = some after ∧
    ∀ lane < 16 / type.size, Vec.typed type (vec after operand 0) lane =
      op (Vec.typed type (vec before operand 1) lane) (Vec.typed type (vec before operand 2) lane)

section Lanes

variable {operand : Nat → Word} {before : Store Object} {type : IntType} {op : Int → Int → Int}

/-- What is stored as a whole. -/
theorem computesLanes_stored {host : Vec → Vec → Vec} {statements : List (VStatement Object)}
    (stored : ∃ after, VStatement.run before statements = some after ∧ ∀ position < 16,
      vec after operand 0 position = host (vec before operand 1) (vec before operand 2) position)
    (lanes : ∀ a b lane, Vec.typed type (host a b) lane =
      op (Vec.typed type a lane) (Vec.typed type b lane)) :
    ComputesLanes statements operand before type op := by
  obtain ⟨after, ran, bytes⟩ := stored
  refine ⟨after, ran, fun lane inside => ?_⟩
  rw [typed_of_bytes inside bytes, lanes]

/-- What is stored lane by lane. -/
theorem computesLanes_looped {inst : VectorInst} {float : FloatOps} {record : Bool}
    {body : Nat → List (CStatement VectorRole)} (free : inst.packs = false)
    (printed : inst.statements roleNames operand float record =
      VectorInst.forLanes (16 / type.size) body)
    (fits : ∀ x y, type.Holds (op x y))
    (blocks : ∀ lane, AssignsLane (contents before operand) (.v 0) [.temp] type.size lane
      (op (Vec.typed type (vec before operand 1) lane) (Vec.typed type (vec before operand 2) lane))
      (body lane)) :
    ComputesLanes (inst.statements (vectorNames operand) operand float record) operand before type
      op := by
  obtain ⟨after, ran, lanes⟩ := exists_run_forLanes
    (fun packs => absurd packs (by rw [free]; decide)) printed (fun _ _ _ _ same => same)
    fun lane _ => blocks lane
  refine ⟨after, ran, fun lane inside => ?_⟩
  have same : (Vec.lane type.size (vec after operand 0) lane : Int) % 2 ^ type.width =
      op (Vec.typed type (vec before operand 1) lane)
        (Vec.typed type (vec before operand 2) lane) % 2 ^ type.width := by
    rw [lanes lane inside, IntType.width, pow_mul]
    exact Int.emod_emod _ _
  exact (IntType.wrap_congr same).trans (fits _ _)

end Lanes

/-! ## Intrinsics -/

/-- An intrinsic on lanes without a sign. -/
theorem typed_map₂ {size : Nat} {host : Nat → Nat → Int} {op : Int → Int → Int}
    (same : ∀ x y : Nat, x < 256 ^ size → y < 256 ^ size → host x y = op x y)
    (fits : ∀ x y : Nat, x < 256 ^ size → y < 256 ^ size → IntType.Holds ⟨size, false⟩ (op x y))
    (a b : Vec) (lane : Nat) :
    Vec.typed ⟨size, false⟩ (Vec.map₂ size host a b) lane =
      op (Vec.typed ⟨size, false⟩ a lane) (Vec.typed ⟨size, false⟩ b lane) := by
  have left := Vec.lane_lt size a lane
  have right := Vec.lane_lt size b lane
  rw [Vec.typed_unsigned size a, Vec.typed_unsigned size b, ← same _ _ left right]
  exact Vec.typed_ofLanes (by rw [same _ _ left right]; exact fits _ _ left right)

/-- An intrinsic on lanes with a sign. -/
theorem typed_signedMap₂ {size : Nat} {op : Int → Int → Int}
    (fits : ∀ x y, IntType.Holds ⟨size, true⟩ (op x y)) (a b : Vec) (lane : Nat) :
    Vec.typed ⟨size, true⟩ (Vec.signedMap₂ size op a b) lane =
      op (Vec.typed ⟨size, true⟩ a lane) (Vec.typed ⟨size, true⟩ b lane) :=
  Vec.typed_ofLanes (fits _ _)

/-- Lanes of truth values. -/
theorem typed_ofTruth (size : Nat) (holds : Nat → Bool) (lane : Nat) :
    Vec.typed ⟨size, false⟩ (Vec.ofTruth size holds) lane =
      if holds lane then 2 ^ (8 * size) - 1 else 0 := by
  rw [Vec.typed_unsigned, Vec.ofTruth, Vec.lane_ofLanes, pow_mul]
  have pos : (0 : Int) < 256 ^ size := Int.pow_pos (by decide)
  split
  · rw [← Int.add_emod_right, Int.emod_eq_of_lt (by omega) (by omega)]
    norm_num
    omega
  · simp

theorem typed_addsEpi8 (a b : Vec) (lane : Nat) :
    Vec.typed .s8 (addsEpi8 a b) lane =
      saturate .s8 (Vec.typed .s8 a lane + Vec.typed .s8 b lane) :=
  @typed_signedMap₂ 1 (fun x y => saturate .s8 (x + y))
    (fun _ _ => holds_saturate (by decide) _) a b lane

theorem typed_addsEpi16 (a b : Vec) (lane : Nat) :
    Vec.typed .s16 (addsEpi16 a b) lane =
      saturate .s16 (Vec.typed .s16 a lane + Vec.typed .s16 b lane) :=
  @typed_signedMap₂ 2 (fun x y => saturate .s16 (x + y))
    (fun _ _ => holds_saturate (by decide) _) a b lane

theorem typed_addsEpu8 (a b : Vec) (lane : Nat) :
    Vec.typed .u8 (addsEpu8 a b) lane =
      saturate .u8 (Vec.typed .u8 a lane + Vec.typed .u8 b lane) :=
  @typed_map₂ 1 _ (fun x y => saturate .u8 (x + y)) (fun _ _ _ _ => rfl)
    (fun _ _ _ _ => holds_saturate (by decide) _) a b lane

theorem typed_addsEpu16 (a b : Vec) (lane : Nat) :
    Vec.typed .u16 (addsEpu16 a b) lane =
      saturate .u16 (Vec.typed .u16 a lane + Vec.typed .u16 b lane) :=
  @typed_map₂ 2 _ (fun x y => saturate .u16 (x + y)) (fun _ _ _ _ => rfl)
    (fun _ _ _ _ => holds_saturate (by decide) _) a b lane

theorem typed_subsEpu8 (a b : Vec) (lane : Nat) :
    Vec.typed .u8 (subsEpu8 a b) lane =
      saturate .u8 (Vec.typed .u8 a lane - Vec.typed .u8 b lane) :=
  @typed_map₂ 1 _ (fun x y => saturate .u8 (x - y)) (fun _ _ _ _ => rfl)
    (fun _ _ _ _ => holds_saturate (by decide) _) a b lane

theorem typed_avgEpu8 (a b : Vec) (lane : Nat) :
    Vec.typed .u8 (avgEpu8 a b) lane =
      (Vec.typed .u8 a lane + Vec.typed .u8 b lane + 1) / 2 := by
  apply @typed_map₂ 1 _ (fun x y => (x + y + 1) / 2) (fun _ _ _ _ => rfl)
  intro x y left right
  rw [IntType.holds_iff (by decide), show IntType.min .u8 = 0 by decide,
    show IntType.max .u8 = 256 ^ 1 - 1 by decide]
  omega

theorem typed_avgEpu16 (a b : Vec) (lane : Nat) :
    Vec.typed .u16 (avgEpu16 a b) lane =
      (Vec.typed .u16 a lane + Vec.typed .u16 b lane + 1) / 2 := by
  apply @typed_map₂ 2 _ (fun x y => (x + y + 1) / 2) (fun _ _ _ _ => rfl)
  intro x y left right
  rw [IntType.holds_iff (by decide), show IntType.min .u16 = 0 by decide,
    show IntType.max .u16 = 256 ^ 2 - 1 by decide]
  omega

theorem typed_addsEpu32 (a b : Vec) (lane : Nat) :
    Vec.typed .u32 (addsEpu32 a b) lane =
      saturate .u32 (Vec.typed .u32 a lane + Vec.typed .u32 b lane) := by
  simp only [Vec.typed_unsigned, lane_addsEpu32, saturate, clamp,
    show IntType.min .u32 = 0 by decide, show IntType.max .u32 = 2 ^ 32 - 1 by decide]
  omega

/-! ## All instructions -/

/-- Sums and differences of numbers that are half as wide as the type of the operation. -/
theorem applies_exact {op : Binary} {exact : Int → Int → Int} {type middle : IntType}
    (known : op = .add ∧ exact = (· + ·) ∨ op = .sub ∧ exact = (· - ·))
    (double : type = .s16 ∧ middle = .s32 ∨ type = .s32 ∧ middle = .s64) (x y : Int)
    (left : type.Holds x) (right : type.Holds y) :
    middle.Holds x ∧ middle.Holds y ∧ middle.Holds (exact x y) ∧
      op.apply middle middle x y = some (exact x y) := by
  have large : 0 < type.size ∧ 0 < middle.size := by
    rcases double with ⟨rfl, rfl⟩ | ⟨rfl, rfl⟩ <;> decide
  have ranges : middle.min ≤ 2 * type.min ∧ 2 * type.max < middle.max ∧ type.min = -type.max - 1 ∧
      0 ≤ type.max := by
    rcases double with ⟨rfl, rfl⟩ | ⟨rfl, rfl⟩ <;> decide
  rw [IntType.holds_iff large.1] at left right
  have first : middle.Holds x := (IntType.holds_iff large.2 x).mpr (by omega)
  have second : middle.Holds y := (IntType.holds_iff large.2 y).mpr (by omega)
  have fits : middle.Holds (exact x y) := by
    rw [IntType.holds_iff large.2]
    rcases known with ⟨-, rfl⟩ | ⟨-, rfl⟩ <;> dsimp only <;> omega
  have same : IntType.common middle middle = middle := by
    rcases double with ⟨-, rfl⟩ | ⟨-, rfl⟩ <;> rfl
  refine ⟨first, second, fits, ?_⟩
  rcases known with ⟨rfl, rfl⟩ | ⟨rfl, rfl⟩ <;>
    simp only [Binary.apply, Binary.applyCommon, same, show middle.wrap x = x from first,
      show middle.wrap y = y from second] <;>
    exact IntType.result_of_holds fits

/-- A lane of the destination is the saturated sum or difference, the average, or the comparison of
the lanes that the sources had. -/
theorem lane_arithmetic (inst : VectorInst) (type : IntType) (op : Int → Int → Int)
    (known : inst.lanewise = some (type, op)) (operand : Nat → Word) (float : FloatOps)
    (record : Bool) (before : Store Object) :
    ComputesLanes (inst.statements (vectorNames operand) operand float record) operand before type
      op := by
  cases inst <;> cases known
  case vaddsbs => exact computesLanes_stored (exists_run_store₂ _) typed_addsEpi8
  case vaddshs => exact computesLanes_stored (exists_run_store₂ _) typed_addsEpi16
  case vaddsws =>
    exact computesLanes_looped rfl rfl (fun _ _ => holds_saturate (by decide) _) fun lane =>
      assignsLane_bounded lane (.inr rfl) (by decide) (by decide) (by decide)
        (applies_exact (.inl ⟨rfl, rfl⟩) (.inr ⟨rfl, rfl⟩))
  case vaddubs => exact computesLanes_stored (exists_run_store₂ _) typed_addsEpu8
  case vadduhs => exact computesLanes_stored (exists_run_store₂ _) typed_addsEpu16
  case vadduws => exact computesLanes_stored (exists_run_store₂ _) typed_addsEpu32
  case vavgsb => exact computesLanes_stored (exists_run_store₂ _) signedLane_avgEpi8
  case vavgsh => exact computesLanes_stored (exists_run_store₂ _) signedLane_avgEpi16
  case vavgub => exact computesLanes_stored (exists_run_store₂ _) typed_avgEpu8
  case vavguh => exact computesLanes_stored (exists_run_store₂ _) typed_avgEpu16
  case vcmpgtub =>
    apply computesLanes_stored (exists_run_compareVec record _ _ _)
    intro a b lane
    rw [cmpgtEpu8_eq, typed_ofTruth, Vec.typed_unsigned, Vec.typed_unsigned]
    simp only [decide_eq_true_eq, Int.ofNat_lt]
    exact if_congr Iff.rfl rfl rfl
  case vcmpgtuh =>
    apply computesLanes_stored (exists_run_compareVec record _ _ _)
    intro a b lane
    rw [cmpgtEpu16_eq, typed_ofTruth, Vec.typed_unsigned, Vec.typed_unsigned]
    simp only [decide_eq_true_eq, Int.ofNat_lt]
    exact if_congr Iff.rfl rfl rfl
  case vsubshs =>
    exact computesLanes_looped rfl rfl (fun _ _ => holds_saturate (by decide) _) fun lane =>
      assignsLane_bounded lane (.inl rfl) (by decide) (by decide) (by decide)
        (applies_exact (.inr ⟨rfl, rfl⟩) (.inl ⟨rfl, rfl⟩))
  case vsubsws =>
    exact computesLanes_looped rfl rfl (fun _ _ => holds_saturate (by decide) _) fun lane =>
      assignsLane_bounded lane (.inr rfl) (by decide) (by decide) (by decide)
        (applies_exact (.inr ⟨rfl, rfl⟩) (.inr ⟨rfl, rfl⟩))
  case vsububs => exact computesLanes_stored (exists_run_store₂ _) typed_subsEpu8
  case vsubuws =>
    exact computesLanes_looped rfl rfl (fun _ _ => holds_saturate (by decide) _) fun lane =>
      assignsLane_assign rfl (eval_difference _ lane)

/-- `v1, v2, v3` -/
def extremeOperand (index : Nat) : Word := [1, 2, 3].getD index 0

/-- Half of the lanes of `v2` are the largest number and half the smallest; those of `v3` are -1 and
1. -/
def extremeStore : Store Object := fun object position =>
  if object = .v 2 then
    if position < 8 then [255, 127].getD (position % 2) 0 else [0, 128].getD (position % 2) 0
  else if object = .v 3 then
    if position < 8 then 255 else [1, 0].getD (position % 2) 0
  else 0

theorem lane_arithmetic_extremeStore :
    ∃ after, VStatement.run extremeStore (VectorInst.vsubshs.statements (vectorNames extremeOperand)
        extremeOperand noComparison false) = some after ∧
      Vec.typed .s16 (vec after extremeOperand 0) 0 = 32767 ∧
      Vec.typed .s16 (vec after extremeOperand 0) 7 = -32768 := by
  obtain ⟨after, ran, lanes⟩ :=
    lane_arithmetic .vsubshs .s16 _ rfl extremeOperand noComparison false extremeStore
  refine ⟨after, ran, ?_, ?_⟩
  · rw [lanes 0 (by decide)]
    decide +kernel
  · rw [lanes 7 (by decide)]
    decide +kernel

end UfcRecomp.Recompiler
