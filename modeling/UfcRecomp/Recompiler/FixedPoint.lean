import UfcRecomp.Lib.SimdFloat
import UfcRecomp.Recompiler.VectorRuns

/-!
# Conversions to fixed-point numbers

`vctsxs` and `vctuxs` multiply numbers of type `float` by a power of two and convert them to
integers. Numbers that are too large are to become the nearest integer that there is.
-/

namespace UfcRecomp.Emitted

open UfcRecomp.Lib UfcRecomp.Lib.Simd

def vctsxs (src1 : Vec) : Vec :=
  let xmm2 := cmpunordPs src1 src1
  let xmm0 := cvttpsEpi32 src1
  let xmm1 := cmpeq 4 xmm0 (set1 4 (-2 ^ 31))
  let xmm1 := andnotSi128 src1 xmm1
  let dest := blendvPs xmm0 (set1 4 (2 ^ 31 - 1)) xmm1
  andnotSi128 xmm2 dest

/-- The lane that the host converts. -/
def cvtt (bits : Nat) : Int :=
  FloatFormat.single.toInteger bits (-2 ^ 31) (2 ^ 31 - 1) (-2 ^ 31)

theorem cvtt_bounds (bits : Nat) : -2 ^ 31 ≤ cvtt bits ∧ cvtt bits ≤ 2 ^ 31 - 1 := by
  unfold cvtt FloatFormat.toInteger
  split
  next inside =>
    simp only [Bool.and_eq_true, decide_eq_true_eq] at inside
    exact ⟨inside.1.2, inside.2⟩
  next _ => decide

/-- A lane of the result: zero for what is not a number, and the largest integer for what is too
large and not negative. -/
theorem lane_vctsxs (src1 : Vec) (index : Nat) :
    (Vec.lane 4 (vctsxs src1) index : Int) =
      (if FloatFormat.single.isNaN (Vec.lane 4 src1 index) then 0
      else if cvtt (Vec.lane 4 src1 index) = -2 ^ 31 ∧
        FloatFormat.single.negative (Vec.lane 4 src1 index) = false then 2 ^ 31 - 1
      else cvtt (Vec.lane 4 src1 index)) % 2 ^ 32 := by
  have converted : (Vec.lane 4 (cvttpsEpi32 src1) index : Int) =
      cvtt (Vec.lane 4 src1 index) % 2 ^ 32 := Vec.lane_ofLanes _ index
  have constant : ∀ number : Int, (Vec.lane 4 (set1 4 number) index : Int) = number % 2 ^ 32 :=
    fun number => Vec.lane_ofLanes _ index
  have smallest : decide (Vec.lane 4 (cvttpsEpi32 src1) index = Vec.lane 4 (set1 4 (-2 ^ 31)) index) =
      decide (cvtt (Vec.lane 4 src1 index) = -2 ^ 31) := by
    obtain ⟨low, high⟩ := cvtt_bounds (Vec.lane 4 src1 index)
    have bound := constant (-2 ^ 31)
    apply decide_eq_decide.mpr
    omega
  simp only [vctsxs, cmpunordPs, Vec.compare, lane_andnot_ofTruth, Bool.or_self]
  split
  next _ => rfl
  next _ =>
    rw [lane_blendvPs, cmpeq, Vec.compare, top_andnot_ofTruth, smallest, top_eq_negative]
    cases FloatFormat.single.negative (Vec.lane 4 src1 index) with
    | true => simp [converted]
    | false =>
        simp only [Bool.not_false, Bool.true_and, decide_eq_true_eq, and_true]
        split
        next _ => exact constant _
        next _ => exact converted

end UfcRecomp.Emitted

namespace UfcRecomp.Recompiler

open UfcRecomp.Lib UfcRecomp.Lib.Simd UfcRecomp.Ppc UfcRecomp.Emitted

/-- `vctsxs` and `vcfpsxws128` are one case, `vctuxs` and `vcfpuxws128` another one. -/
inductive FixedInst where
  | vctsxs | vctuxs
  deriving DecidableEq

namespace FixedInst

section Statements

variable {κ : Type} (names : VectorNames κ) (operand : Nat → Word)

/-- The source, multiplied by `1u << operand 2` unless that is one. -/
def scaled : VExpr κ :=
  if operand 2 ≠ 0 then .op (mulPsPow (operand 2).toNat) (VectorInst.load names 1)
  else VectorInst.load names 1

def statements : FixedInst → List (VStatement κ)
  | .vctsxs => [.store (names.v 0) (.op Emitted.vctsxs (scaled names operand))]
  | .vctuxs => [.store (names.v 0) (.op cvttpsEpi32 (scaled names operand))]

end Statements

/-- The integers that a lane of the result can be. -/
def type : FixedInst → IntType
  | .vctsxs => .s32
  | .vctuxs => .u32

/-- The integer that a lane is to become: the nearest one of the type. -/
def saturated (inst : FixedInst) (count bits : Nat) : Int :=
  if FloatFormat.single.isNaN bits then 0
  else if FloatFormat.single.finite bits then
    clamp inst.type.min inst.type.max (truncate (FloatFormat.single.value bits * 2 ^ count))
  else if FloatFormat.single.negative bits then inst.type.min
  else inst.type.max

/-- The lanes that an instruction converts as it should: all of them with a sign, and without one
those that are close to the lower half of the range. -/
def Handles (count bits : Nat) : FixedInst → Prop
  | .vctsxs => True
  | .vctuxs => FloatFormat.single.finite bits = true ∧
    -1 < FloatFormat.single.value bits * 2 ^ count ∧
    FloatFormat.single.value bits * 2 ^ count < 2 ^ 31 + 1

/-! ## A lane -/

/-- The bits that are converted. -/
def scaledLane (count bits : Nat) : Nat :=
  if count ≠ 0 then FloatFormat.single.scale bits count else bits

section Lane

variable {count bits : Nat}

theorem negative_scaledLane :
    FloatFormat.single.negative (scaledLane count bits) = FloatFormat.single.negative bits := by
  unfold scaledLane
  split
  · exact FloatFormat.negative_scale (by decide) count
  · rfl

theorem isNaN_scaledLane :
    FloatFormat.single.isNaN (scaledLane count bits) = FloatFormat.single.isNaN bits := by
  unfold scaledLane
  split
  · exact FloatFormat.isNaN_scale (by decide) count (by decide)
  · rfl

/-- What is not finite does not fit. -/
theorem cvtt_of_not_finite (special : FloatFormat.single.finite bits = false) :
    cvtt (scaledLane count bits) = -2 ^ 31 := by
  have infinite : FloatFormat.single.finite (scaledLane count bits) = false := by
    unfold scaledLane
    split
    · exact FloatFormat.not_finite_scale (by decide) count special (by decide)
    · exact special
  rw [cvtt, FloatFormat.toInteger, infinite]
  rfl

/-- What is finite is converted if the exact product fits. -/
theorem cvtt_of_finite (few : count < 32) (finite : FloatFormat.single.finite bits = true) :
    cvtt (scaledLane count bits) =
      if -2 ^ 31 ≤ FloatFormat.single.integer bits count ∧
          FloatFormat.single.integer bits count ≤ 2 ^ 31 - 1 then
        FloatFormat.single.integer bits count
      else -2 ^ 31 := by
  unfold scaledLane
  split
  · have places : (-FloatFormat.single.unitExponent).toNat = 149 := by decide
    exact @FloatFormat.toInteger_scale .single bits _ _ _ _ 128 (by decide)
      (by rw [places]; simp only; omega) (by rw [places]; decide) (by norm_num) (by norm_num) finite
  · rw [show count = 0 by omega, cvtt, FloatFormat.toInteger, finite]
    simp only [Bool.true_and, Bool.and_eq_true, decide_eq_true_eq]

theorem truncate_single (bits count : Nat) :
    truncate (FloatFormat.single.value bits * 2 ^ count) = FloatFormat.single.integer bits count :=
  FloatFormat.truncate_value (by decide) count

theorem bounds_s32 : IntType.s32.min = -2 ^ 31 ∧ IntType.s32.max = 2 ^ 31 - 1 := by decide

theorem bounds_u32 : IntType.u32.min = 0 ∧ IntType.u32.max = 2 ^ 32 - 1 := by decide

/-- A conversion to integers with a sign. -/
theorem converted_signed (few : count < 32) :
    (if FloatFormat.single.isNaN (scaledLane count bits) then 0
      else if cvtt (scaledLane count bits) = -2 ^ 31 ∧
        FloatFormat.single.negative (scaledLane count bits) = false then 2 ^ 31 - 1
      else cvtt (scaledLane count bits)) = saturated .vctsxs count bits := by
  rw [isNaN_scaledLane, negative_scaledLane, saturated, type, bounds_s32.1, bounds_s32.2]
  split
  · rfl
  cases finite : FloatFormat.single.finite bits with
  | false =>
      rw [cvtt_of_not_finite finite]
      cases FloatFormat.single.negative bits <;> simp
  | true =>
      rw [if_pos rfl, cvtt_of_finite few finite, truncate_single, clamp]
      cases sign : FloatFormat.single.negative bits with
      | false =>
          have positive := FloatFormat.integer_nonneg sign count
          generalize FloatFormat.single.integer bits count = integer at *
          simp only [and_true]
          by_cases inside : -2 ^ 31 ≤ integer ∧ integer ≤ 2 ^ 31 - 1
          · rw [if_pos inside, if_neg (by omega)]
            omega
          · rw [if_neg inside, if_pos rfl]
            omega
      | true =>
          have negative := FloatFormat.integer_nonpos sign count
          generalize FloatFormat.single.integer bits count = integer at *
          rw [if_neg (by simp)]
          by_cases inside : -2 ^ 31 ≤ integer ∧ integer ≤ 2 ^ 31 - 1
          · rw [if_pos inside]
            omega
          · rw [if_neg inside]
            omega

/-- A conversion to integers without a sign is one to those with a sign. -/
theorem converted_unsigned (few : count < 32) :
    cvtt (scaledLane count bits) % 2 ^ 32 = saturated .vctuxs count bits ↔
      Handles count bits .vctuxs := by
  rw [saturated, type, bounds_u32.1, bounds_u32.2, Handles]
  cases finite : FloatFormat.single.finite bits with
  | false =>
      rw [cvtt_of_not_finite finite]
      cases FloatFormat.single.isNaN bits <;> cases FloatFormat.single.negative bits <;> simp
  | true =>
      have number : FloatFormat.single.isNaN bits = false := by
        rw [FloatFormat.isNaN, finite]
        rfl
      have low := @le_truncate_iff (FloatFormat.single.value bits * 2 ^ count) 0 (Int.le_refl 0)
      have high := @truncate_le_iff (FloatFormat.single.value bits * 2 ^ count) (2 ^ 31) (by decide)
      rw [truncate_single] at low high
      rw [Int.cast_zero, zero_sub] at low
      rw [show (((2 : Int) ^ 31 : Int) : ℚ) = 2 ^ 31 by norm_num] at high
      rw [number, if_neg (by decide), if_pos rfl, cvtt_of_finite few finite, truncate_single, clamp,
        ← low, ← high]
      generalize FloatFormat.single.integer bits count = integer at *
      simp only [true_and]
      by_cases inside : -2 ^ 31 ≤ integer ∧ integer ≤ 2 ^ 31 - 1
      · rw [if_pos inside, min_eq_right (by omega)]
        omega
      · rw [if_neg inside]
        by_cases below : integer < 0
        · rw [min_eq_right (by omega), max_eq_left (by omega)]
          omega
        · rw [max_eq_right (le_min (by decide) (by omega))]
          constructor
          · intro same
            have least := min_le_right (2 ^ 32 - 1 : Int) integer
            omega
          · intro within
            rw [min_eq_right (by omega)]
            omega

end Lane

/-- What a lane is to become is a number of the type. -/
theorem holds_saturated (inst : FixedInst) (count bits : Nat) :
    inst.type.Holds (saturated inst count bits) := by
  have order : inst.type.min ≤ 0 ∧ 0 ≤ inst.type.max := by cases inst <;> decide
  have size : 0 < inst.type.size := by cases inst <;> decide
  apply (IntType.holds_iff size _).mpr
  unfold saturated clamp
  split_ifs <;> omega

/-! ## The instructions -/

/-- The lanes of the vector that is converted. -/
theorem lane_scaled (operand : Nat → Word) (before : Store Object) (lane : Nat) :
    Vec.lane 4 ((scaled (vectorNames operand) operand).eval before) lane =
      scaledLane (operand 2).toNat (Vec.lane 4 (vec before operand 1) lane) := by
  have count : operand 2 ≠ 0 ↔ (operand 2).toNat ≠ 0 := by
    rw [Ne, Ne, ← BitVec.toNat_inj]
    rfl
  unfold scaled scaledLane
  by_cases nonzero : operand 2 ≠ 0
  · rw [if_pos nonzero, if_pos (count.mp nonzero)]
    have product := @Vec.lane_ofLanes 4 (fun index =>
      (FloatFormat.single.scale (Vec.lane 4 (vec before operand 1) index) (operand 2).toNat : Int)) lane
    have fits := @FloatFormat.scale_lt .single _ (by decide) (operand 2).toNat
      (Vec.lane_lt 4 (vec before operand 1) lane)
    have exact : (Vec.lane 4 (mulPsPow (operand 2).toNat (vec before operand 1)) lane : Int) =
        FloatFormat.single.scale (Vec.lane 4 (vec before operand 1) lane) (operand 2).toNat :=
      product.trans (Int.emod_eq_of_lt (Int.natCast_nonneg _) (by exact_mod_cast fits))
    exact_mod_cast exact
  · rw [if_neg nonzero, if_neg (fun other => nonzero (count.mpr other))]
    rfl

/-- A lane of a vector that is stored. -/
theorem typed_store {operand : Nat → Word} {before : Store Object} {type : IntType} {lane : Nat}
    (made : Vec) (size : type.size = 4) (inside : lane < 4) :
    Vec.typed type (vec (before.storeVec ((vectorNames operand).v 0) made) operand 0) lane =
      type.wrap (Vec.lane 4 made lane) := by
  have same := @typed_of_bytes type (vec (before.storeVec ((vectorNames operand).v 0) made) operand 0)
    made lane (by rw [size]; exact inside) fun position below => Store.storeVec_of_lt _ _ _ below
  rw [same, Vec.typed, size]

/-- A lane behind a conversion. -/
def converted (count bits : Nat) : FixedInst → Int
  | .vctsxs => saturated .vctsxs count bits
  | .vctuxs => cvtt (scaledLane count bits) % 2 ^ 32

theorem converted_iff (inst : FixedInst) {count bits : Nat} (few : count < 32) :
    converted count bits inst = saturated inst count bits ↔ Handles count bits inst := by
  cases inst with
  | vctsxs => exact iff_of_true rfl trivial
  | vctuxs => exact converted_unsigned few

theorem exists_run_converted (inst : FixedInst) (operand : Nat → Word) (before : Store Object)
    (few : (operand 2).toNat < 32) :
    ∃ after, VStatement.run before (inst.statements (vectorNames operand) operand) = some after ∧
      ∀ lane < 4, Vec.typed inst.type (vec after operand 0) lane =
        converted (operand 2).toNat (Vec.lane 4 (vec before operand 1) lane) inst := by
  cases inst with
  | vctsxs =>
      refine ⟨_, rfl, fun lane inside => ?_⟩
      have made := lane_vctsxs ((scaled (vectorNames operand) operand).eval before) lane
      rw [lane_scaled, converted_signed few] at made
      apply (@typed_store operand before .s32 lane _ rfl inside).trans
      apply (IntType.wrap_congr _).trans (holds_saturated .vctsxs _ _)
      rw [VExpr.eval, made]
      exact Int.emod_emod _ _
  | vctuxs =>
      refine ⟨_, rfl, fun lane inside => ?_⟩
      have made : (Vec.lane 4 (cvttpsEpi32 ((scaled (vectorNames operand) operand).eval before))
          lane : Int) = cvtt _ % 2 ^ 32 := Vec.lane_ofLanes _ lane
      rw [lane_scaled] at made
      apply (@typed_store operand before .u32 lane _ rfl inside).trans
      rw [IntType.wrap_unsigned, VExpr.eval, made]
      exact Int.emod_emod _ _

/-- A lane is what it should be, if and only if the instruction handles it. -/
theorem saturates_iff (inst : FixedInst) (operand : Nat → Word) (before : Store Object)
    (few : (operand 2).toNat < 32) :
    ∃ after, VStatement.run before (inst.statements (vectorNames operand) operand) = some after ∧
      ∀ lane < 4, Vec.typed inst.type (vec after operand 0) lane =
          saturated inst (operand 2).toNat (Vec.lane 4 (vec before operand 1) lane) ↔
        Handles (operand 2).toNat (Vec.lane 4 (vec before operand 1) lane) inst := by
  obtain ⟨after, ran, lanes⟩ := exists_run_converted inst operand before few
  refine ⟨after, ran, fun lane inside => ?_⟩
  rw [lanes lane inside]
  exact converted_iff inst few

/-- The number one in every lane, times two. -/
theorem saturates_iff_one : ∃ after,
    VStatement.run (fun _ => set1 4 0x3F800000) (vctuxs.statements (vectorNames fun _ => 1) fun _ => 1) =
        some after ∧
      ∀ lane < 4, Vec.typed .u32 (vec after (fun _ => 1) 0) lane =
          saturated .vctuxs 1 (Vec.lane 4 (vec (fun _ => set1 4 0x3F800000) (fun _ => 1) 1) lane) ↔
        Handles 1 (Vec.lane 4 (vec (fun _ => set1 4 0x3F800000) (fun _ => 1) 1) lane) .vctuxs :=
  saturates_iff .vctuxs (fun _ => 1) (fun _ => set1 4 0x3F800000) (by decide)

/-- `1.5 * 2^31` becomes `2^31` without a sign, though its integer fits. -/
theorem not_saturates : ¬∀ (inst : FixedInst) (operand : Nat → Word) (before after : Store Object),
    (operand 2).toNat < 32 →
    VStatement.run before (inst.statements (vectorNames operand) operand) = some after →
    ∀ lane < 4, Vec.typed inst.type (vec after operand 0) lane =
      saturated inst (operand 2).toNat (Vec.lane 4 (vec before operand 1) lane) := by
  intro every
  obtain ⟨after, ran, lanes⟩ := exists_run_converted .vctuxs (fun _ => 0)
    (fun _ => set1 4 0x4F400000) (by decide)
  have right := every .vctuxs (fun _ => 0) (fun _ => set1 4 0x4F400000) after (by decide) ran 0
    (by decide)
  rw [lanes 0 (by decide), saturated, truncate_single] at right
  exact absurd right (by decide +kernel)

end FixedInst

end UfcRecomp.Recompiler
