import UfcRecomp.Lib.CEval
import UfcRecomp.Lib.FloatFormat
import UfcRecomp.Recompiler.VectorRuns

/-!
# Packing numbers of 16 bits

`vpkd3d128` makes four numbers with a fraction of 10 bits of four numbers of type `float`. The
exponent that a lane is packed with is kept in the lowest byte of the copy of the source.
-/

namespace UfcRecomp.Recompiler

open UfcRecomp.Lib UfcRecomp.Lib.Simd UfcRecomp.Ppc

/-- The comparisons of the host, by the bits. No denormal number is compared with another. -/
def FloatOps.host (exp2f log2f : Nat → Nat) : FloatOps where
  eq := FloatFormat.single.eq
  le := FloatFormat.single.le
  ge left right := FloatFormat.single.le right left
  gt left right := FloatFormat.single.lt right left
  neg bits := bits ^^^ 0x80000000
  exp2f := exp2f
  log2f := log2f

/-! ## The bits of a packed number -/

/-- The exponent that is kept: all its bits are set for what is not a number and for what is too
large, the bits of 65504 being the last ones that are packed as they are. -/
def packedExponent (bits : Nat) : Nat :=
  if 0x477FE000 < bits % 2 ^ 31 then 0xFF else bits / 2 ^ 23 % 2 ^ 8

/-- The bits without the sign. -/
def packedMagnitude (bits : Nat) : Nat :=
  let exponent := packedExponent bits
  let fraction := bits / 2 ^ 13 % 2 ^ 10
  if exponent = 0xFF then 0x7FFF
  else if 0x70 < exponent then (exponent - 0x70) * 2 ^ 10 + fraction
  else if 31 < 0x71 - exponent then 0
  else (0x400 + fraction) / 2 ^ (0x71 - exponent)

/-- The bits that are packed. -/
def packedHalf (bits : Nat) : Nat := packedMagnitude bits + bits / 2 ^ 31 % 2 * 2 ^ 15

theorem packedExponent_le {bits : Nat} (number : packedExponent bits ≠ 0xFF) :
    packedExponent bits ≤ 142 := by
  unfold packedExponent at *
  split at number
  · exact absurd rfl number
  · rw [if_neg ‹_›]
    omega

theorem packedMagnitude_lt (bits : Nat) : packedMagnitude bits < 2 ^ 15 := by
  unfold packedMagnitude
  dsimp only
  split
  · decide
  · have bound := packedExponent_le ‹_›
    split
    · omega
    · split
      · decide
      · calc (0x400 + bits / 2 ^ 13 % 2 ^ 10) / 2 ^ (0x71 - packedExponent bits)
            ≤ 0x400 + bits / 2 ^ 13 % 2 ^ 10 := Nat.div_le_self _ _
          _ < 2 ^ 15 := by omega

/-! ## Expressions -/

theorem isNaN_single (bits : Nat) :
    FloatFormat.single.isNaN bits = true ↔ bits / 2 ^ 23 % 2 ^ 8 = 255 ∧ bits % 2 ^ 23 ≠ 0 := by
  simp [FloatFormat.isNaN, FloatFormat.finite, FloatFormat.exponentOf, FloatFormat.fractionOf]

theorem order_single {bits : Nat} (below : bits < 2 ^ 31) :
    FloatFormat.single.order bits = bits := by
  have positive : FloatFormat.single.negative bits = false := by
    rw [FloatFormat.negative, show bits / 2 ^ (FloatFormat.single.fraction +
      FloatFormat.single.exponent) = 0 from Nat.div_eq_of_lt below]
    rfl
  rw [FloatFormat.order, positive, if_neg (by decide), FloatFormat.magnitude]
  exact congrArg Nat.cast (Nat.mod_eq_of_lt below)

/-- What is not a number is unequal to itself, and larger than the bound by its bits. -/
theorem special_iff {magnitude : Nat} (below : magnitude < 2 ^ 31) :
    (!FloatFormat.single.eq magnitude magnitude ||
      FloatFormat.single.lt 0x477FE000 magnitude) = decide (0x477FE000 < magnitude) := by
  have bound : FloatFormat.single.isNaN 0x477FE000 = false := by decide
  rw [FloatFormat.eq, FloatFormat.lt, order_single below, order_single (by decide), bound]
  cases nan : FloatFormat.single.isNaN magnitude with
  | false => simp
  | true =>
      have large := (isNaN_single magnitude).mp nan
      simp
      omega

section Expressions

variable {store : Store VectorRole} {bits : Nat}

/-- Whether a lane is not a number or too large. -/
theorem is_special (exp2f log2f : Nat → Nat)
    (known : store.read (VectorInst.temp roleNames .u32) = (bits % 2 ^ 31 : Nat)) :
    Expr.Is store (.either
      (VectorInst.compareFloat (fun x y => !(FloatOps.host exp2f log2f).eq x y)
        (.read (VectorInst.temp roleNames .u32)) (.read (VectorInst.temp roleNames .u32)))
      (VectorInst.compareFloat (FloatOps.host exp2f log2f).gt
        (.read (VectorInst.temp roleNames .u32)) (.literal .u32 0x477FE000))) .s32
      (truth (0x477FE000 < bits % 2 ^ 31)) := by
  have magnitude : Expr.Is store (.read (VectorInst.temp roleNames .u32)) .u32
      ((bits % 2 ^ 31 : Nat) : Int) := known ▸ Expr.Is.read _
  have compare : ∀ (holds : Nat → Nat → Bool) {left right : Expr VectorRole} {first second : IntType}
      {x y : Nat}, Expr.Is store left first (x : Int) → Expr.Is store right second (y : Int) →
      Expr.Is store (VectorInst.compareFloat holds left right) .s32 (truth (holds x y)) := by
    intro holds left right first second x y leftIs rightIs
    exact (leftIs.call₂ rightIs .s32).congr (wrap_s32_truth (holds x y))
  have bound : Expr.Is store (.literal .u32 0x477FE000) .u32 ((0x477FE000 : Nat) : Int) :=
    Expr.Is.literal _ _
  apply ((compare _ magnitude magnitude).either (compare _ magnitude bound)).congr
  exact congrArg truth (special_iff (Nat.mod_lt bits (by decide)))

/-- Bits of a lane, moved down. -/
theorem is_field {expr : Expr VectorRole} (source : Expr.Is store expr .u32 bits)
    (fits : bits < 2 ^ 32) (low width mask : Nat) (few : low + width ≤ 32)
    (masks : mask = (2 ^ width - 1) * 2 ^ low) {down : Nat} (order : down ≤ low) (small : down < 32) :
    Expr.Is store ((expr &&& .hex mask) >>> .decimal down) .u32
      (bits / 2 ^ low % 2 ^ width * 2 ^ (low - down) : Nat) := by
  subst masks
  have maskFits : (2 ^ width - 1) * 2 ^ low < 2 ^ 32 := by
    have whole : 2 ^ width * 2 ^ low ≤ 2 ^ 32 := by
      rw [← Nat.pow_add]
      exact Nat.pow_le_pow_right (by decide) (by omega)
    have pos := Nat.two_pow_pos low
    rw [Nat.sub_one_mul]
    have less := Nat.two_pow_pos (width + low)
    rw [Nat.pow_add] at less
    omega
  have constant : ∃ type, Expr.Is store (.hex ((2 ^ width - 1) * 2 ^ low)) type
      (((2 ^ width - 1) * 2 ^ low : Nat) : Int) ∧ IntType.common .u32 type = .u32 := by
    refine ⟨_, Expr.Is.hex _ rfl, ?_⟩
    rw [if_pos maskFits]
    split <;> rfl
  obtain ⟨type, constantIs, common⟩ := constant
  have masked := source.and constantIs common (by decide) (holds_u32 fits) (holds_u32 maskFits)
  rw [and_field] at masked
  have shifted : Expr.Is store _ .u32 _ := masked.shiftRight (Expr.Is.decimal (by omega)) rfl
    (show down < 32 from small)
  apply shifted.congr
  have value : bits / 2 ^ low % 2 ^ width * 2 ^ low / 2 ^ down =
      bits / 2 ^ low % 2 ^ width * 2 ^ (low - down) := by
    rw [Nat.mul_div_assoc _ (Nat.pow_dvd_pow 2 order), Nat.pow_div order (by decide)]
  exact_mod_cast value

end Expressions

/-! ## A lane -/

section Steps

variable {store : Store VectorRole} {bits lane : Nat}

/-- The lane of the copy that is packed. -/
def copied (lane : Nat) : Expr VectorRole := .read (VectorInst.vTemp roleNames .u32 lane)

/-- The exponent that is kept. -/
def keptExponent : Expr VectorRole := .read (VectorInst.vTemp roleNames .u8 0)

theorem is_copied (known : Vec.lane 4 (store .vTemp) lane = bits) :
    Expr.Is store (copied lane) .u32 bits := by
  apply (Expr.Is.read _).congr
  rw [← known]
  exact Vec.typed_unsigned 4 _ lane

theorem is_keptExponent (known : store.read (VectorInst.vTemp roleNames .u8 0) = bits) :
    Expr.Is store keptExponent .u8 bits := known ▸ Expr.Is.read _

def exponentExpr (exp2f log2f : Nat → Nat) (lane : Nat) : Expr VectorRole :=
  .choose (.either
      (VectorInst.compareFloat (fun x y => !(FloatOps.host exp2f log2f).eq x y)
        (.read (VectorInst.temp roleNames .u32)) (.read (VectorInst.temp roleNames .u32)))
      (VectorInst.compareFloat (FloatOps.host exp2f log2f).gt
        (.read (VectorInst.temp roleNames .u32)) (.literal .u32 0x477FE000)))
    (.hex 0xFF) ((copied lane &&& .hex 0x7f800000) >>> .decimal 23)

def fractionExpr (lane : Nat) : Expr VectorRole :=
  .choose (.binary .ne keptExponent (.hex 0xFF))
    ((copied lane &&& .hex 0x7FE000) >>> .decimal 13) (.hex 0)

/-- The statements that prepare the exponent and the fraction. -/
def prepare (exp2f log2f : Nat → Nat) (lane : Nat) : List (CStatement VectorRole) :=
  [ .assign (VectorInst.temp roleNames .u32) (copied lane &&& .hex 0x7FFFFFFF),
    .assign (VectorInst.vTemp roleNames .u8 0) (exponentExpr exp2f log2f lane),
    .assign (VectorInst.temp roleNames .u16) (fractionExpr lane) ]

/-- A number with an exponent of its own. -/
def normalExpr : Expr VectorRole :=
  ((keptExponent - .hex 0x70) <<< .decimal 10) + .read (VectorInst.temp roleNames .u16)

/-- A number that is denormal, or too small. -/
def denormalExpr : Expr VectorRole :=
  .choose (.binary .gt (.hex 0x71 - keptExponent) (.decimal 31)) (.hex 0)
    ((.hex 0x400 + .read (VectorInst.temp roleNames .u16)) >>> (.hex 0x71 - keptExponent))

/-- What is assigned first to a lane of the destination. -/
def magnitudeExpr : Expr VectorRole :=
  .choose (.binary .ne keptExponent (.hex 0xFF))
    (.choose (.binary .gt keptExponent (.hex 0x70)) normalExpr denormalExpr) (.hex 0x7FFF)

/-- What is then assigned to it. -/
def signExpr (lane target : Nat) : Expr VectorRole :=
  .read (VectorInst.elem roleNames .u16 0 target) |||
    ((copied lane &&& .hex 0x80000000) >>> .decimal 16)

theorem packHalf_eq (operand : Nat → Word) (exp2f log2f : Nat → Nat) (lane : Nat) :
    VectorInst.packHalf roleNames operand (FloatOps.host exp2f log2f) lane =
      (prepare exp2f log2f lane).map .scalar ++
        ([VectorInst.assignElem roleNames .u16 (lane + (2 * operand 4).toNat) magnitudeExpr] ++
          [VectorInst.assignElem roleNames .u16 (lane + (2 * operand 4).toNat)
            (signExpr lane (lane + (2 * operand 4).toNat))]) := rfl

/-- The fraction that is kept. -/
def keptFraction (bits : Nat) : Nat :=
  if packedExponent bits = 0xFF then 0 else bits / 2 ^ 13 % 2 ^ 10

theorem packedExponent_lt (bits : Nat) : packedExponent bits < 2 ^ 8 := by
  unfold packedExponent
  split <;> omega

/-- The bits of a lane behind its lowest byte. -/
theorem lane_four_div (bytes : Vec) (lane : Nat) :
    Vec.lane 4 bytes lane / 2 ^ 8 = littleEndian bytes (4 * lane + 1) 3 := by
  have low := (bytes (4 * lane)).isLt
  rw [Vec.lane, littleEndian]
  omega

/-- A byte that is written to the start of the copy. -/
theorem write_keptExponent (number : Int) (lane : Nat) :
    Vec.lane 4 (store.write (VectorInst.vTemp roleNames .u8 0) number .vTemp) lane / 2 ^ 8 =
        Vec.lane 4 (store .vTemp) lane / 2 ^ 8 ∧
      (lane ≠ 0 → Vec.lane 4 (store.write (VectorInst.vTemp roleNames .u8 0) number .vTemp) lane =
        Vec.lane 4 (store .vTemp) lane) := by
  have byte : ∀ position, position ≠ 0 →
      store.write (VectorInst.vTemp roleNames .u8 0) number .vTemp position =
        store .vTemp position := by
    intro position apart
    apply Store.write_of_not_covers
    rintro ⟨-, -, below⟩
    exact apart (Nat.lt_one_iff.mp below)
  constructor
  · rw [lane_four_div, lane_four_div]
    exact littleEndian_congr fun position above _ => byte position (by omega)
  · intro apart
    exact Vec.lane_congr fun position above _ => byte position (by omega)

/-- The lowest byte of the copy is lost, which no other lane has and which is not looked at again. -/
theorem run_prepare (exp2f log2f : Nat → Nat) (known : Vec.lane 4 (store .vTemp) lane = bits) :
    ∃ after, CStatement.run store (prepare exp2f log2f lane) = some after ∧
      after (.v 0) = store (.v 0) ∧
      (∀ other, other ≠ 0 → Vec.lane 4 (after .vTemp) other = Vec.lane 4 (store .vTemp) other) ∧
      Vec.lane 4 (after .vTemp) lane / 2 ^ 8 = bits / 2 ^ 8 ∧
      after.read (VectorInst.vTemp roleNames .u8 0) = packedExponent bits ∧
      after.read (VectorInst.temp roleNames .u16) = keptFraction bits := by
  have fits : bits < 2 ^ 32 := known ▸ Vec.lane_lt 4 (store .vTemp) lane
  -- The source without its sign.
  have stripped : Expr.Is store (copied lane &&& .hex 0x7FFFFFFF) .u32 (bits % 2 ^ 31 : Nat) := by
    have masked := (is_copied known).and (Expr.Is.hex 0x7FFFFFFF rfl) rfl (by decide)
      (holds_u32 fits) (holds_u32 (by decide))
    rw [show 0x7FFFFFFF = 2 ^ 31 - 1 by decide, Nat.and_two_pow_sub_one_eq_mod] at masked
    exact masked
  let first := store.write (VectorInst.temp roleNames .u32) (bits % 2 ^ 31 : Nat)
  have firstTemp : first.read (VectorInst.temp roleNames .u32) = (bits % 2 ^ 31 : Nat) :=
    (Store.read_write _).trans (holds_u32 (by omega))
  have firstCopy : first .vTemp = store .vTemp :=
    Store.write_of_ne (show VectorRole.vTemp ≠ .temp by decide)
  -- The exponent.
  have exponent : Expr.Is first (exponentExpr exp2f log2f lane) .u32 (packedExponent bits : Nat) := by
    have field := is_field (is_copied (firstCopy ▸ known)) fits 23 8 0x7f800000 (by decide)
      (by decide) (Nat.le_refl 23) (by decide)
    rw [Nat.sub_self, pow_zero, Nat.mul_one] at field
    apply ((is_special exp2f log2f firstTemp).choose (Expr.Is.hex 0xFF rfl) field rfl
      (holds_u32 (by decide)) (holds_u32 (by omega))).congr
    rw [packedExponent]
    simp only [decide_eq_true_eq]
    split <;> rfl
  let second := first.write (VectorInst.vTemp roleNames .u8 0) (packedExponent bits)
  obtain ⟨upper, apart⟩ := @write_keptExponent first (packedExponent bits) lane
  have secondBits : Vec.lane 4 (second .vTemp) lane / 2 ^ 8 = bits / 2 ^ 8 := by
    rw [upper, firstCopy, known]
  have secondByte : second.read (VectorInst.vTemp roleNames .u8 0) = packedExponent bits :=
    (Store.read_write _).trans ((IntType.holds_natCast_iff (by decide) _).mpr
      (packedExponent_lt bits))
  -- The fraction, from a lane whose lowest byte may be lost.
  have fraction : Expr.Is second (fractionExpr lane) .u32 (keptFraction bits : Nat) := by
    have field := is_field (@is_copied second _ lane rfl) (Vec.lane_lt 4 _ lane)
      13 10 0x7FE000 (by decide) (by decide) (Nat.le_refl 13) (by decide)
    rw [Nat.sub_self, pow_zero, Nat.mul_one, show Vec.lane 4 (second .vTemp) lane / 2 ^ 13 =
      bits / 2 ^ 13 by omega] at field
    have byte := packedExponent_lt bits
    apply (((is_keptExponent secondByte).ne (Expr.Is.hex 0xFF rfl) rfl (holds_s32 (by omega))
      (holds_s32 (by decide))).choose field (Expr.Is.hex 0 rfl) rfl (holds_u32 (by omega))
      (holds_u32 (by decide))).congr
    rw [keptFraction]
    simp only [decide_eq_true_eq]
    split <;> split <;> omega
  refine ⟨second.write (VectorInst.temp roleNames .u16) (keptFraction bits), ?_, ?_, ?_, ?_, ?_, ?_⟩
  · rw [prepare, CStatement.run_cons, CStatement.step, stripped.eval_eq, Option.map_some,
      Option.bind_some, CStatement.run_cons, CStatement.step, exponent.eval_eq, Option.map_some,
      Option.bind_some, CStatement.run_cons, CStatement.step, fraction.eval_eq]
    rfl
  · exact (Store.write_of_ne (show VectorRole.v 0 ≠ .temp by decide)).trans
      ((Store.write_of_ne (show VectorRole.v 0 ≠ .vTemp by decide)).trans
        (Store.write_of_ne (show VectorRole.v 0 ≠ .temp by decide)))
  · intro other nonzero
    rw [Store.write_of_ne (show VectorRole.vTemp ≠ .temp by decide), ← firstCopy]
    exact (write_keptExponent (packedExponent bits) other).2 nonzero
  · rw [Store.write_of_ne (show VectorRole.vTemp ≠ .temp by decide), secondBits]
  · rw [Store.read_write_of_ne (show VectorRole.vTemp ≠ .temp by decide), secondByte]
  · have small : keptFraction bits < 2 ^ 16 := by
      unfold keptFraction
      split <;> omega
    exact (Store.read_write _).trans ((IntType.holds_natCast_iff (by decide) _).mpr small)

/-! ### The magnitude -/

section Magnitude

variable {exponent fraction : Nat} (byte : Expr.Is store keptExponent .u8 exponent)
  (word : Expr.Is store (.read (VectorInst.temp roleNames .u16)) .u16 fraction)
  (small : fraction < 2 ^ 10)

include byte word small

theorem is_normalExpr (above : 0x70 < exponent) (below : exponent ≤ 142) :
    Expr.Is store normalExpr .s32 ((exponent - 0x70) * 2 ^ 10 + fraction : Nat) := by
  have offset : Expr.Is store (keptExponent - .hex 0x70) .s32 ((exponent - 0x70 : Nat) : Int) :=
    (byte.sub (Expr.Is.hex 0x70 rfl) rfl (holds_s32 (by omega)) (holds_s32 (by decide))
      ((IntType.holds_s32_iff _).mpr (by omega))).congr (by omega)
  have moved : Expr.Is store ((keptExponent - .hex 0x70) <<< .decimal 10) .s32
      (((exponent - 0x70) * 2 ^ 10 : Nat) : Int) := by
    apply (offset.shiftLeft (Expr.Is.decimal (show 10 < 2 ^ 31 by decide)) rfl
      (show 10 < 32 by decide)).congr
    exact_mod_cast holds_s32 (show (exponent - 0x70) * 2 ^ 10 < 2 ^ 31 by omega)
  exact (moved.add word rfl (holds_s32 (by omega)) (holds_s32 (by omega))
    ((IntType.holds_s32_iff _).mpr (by omega))).congr (by push_cast; rfl)

theorem is_denormalExpr (below : exponent ≤ 0x70) :
    Expr.Is store denormalExpr .s32
      (if 31 < 0x71 - exponent then 0 else (0x400 + fraction) / 2 ^ (0x71 - exponent) : Nat) := by
  have offset : Expr.Is store (.hex 0x71 - keptExponent) .s32 ((0x71 - exponent : Nat) : Int) :=
    ((Expr.Is.hex 0x71 rfl).sub byte rfl (holds_s32 (by decide)) (holds_s32 (by omega))
      ((IntType.holds_s32_iff _).mpr (by omega))).congr (by omega)
  have far := offset.gt (Expr.Is.decimal (show 31 < 2 ^ 31 by decide)) rfl (holds_s32 (by omega))
    (holds_s32 (by decide))
  have less : (0x400 + fraction) / 2 ^ (0x71 - exponent) ≤ 0x400 + fraction := Nat.div_le_self _ _
  refine far.choose_of rfl rfl rfl (holds_s32 (by split <;> omega)) (fun tiny => ?_) fun near => ?_
  · have lost : 31 < 0x71 - exponent := by
      simp only [decide_eq_true_eq] at tiny
      omega
    rw [if_pos lost]
    rfl
  · have kept : ¬31 < 0x71 - exponent := by
      simp only [decide_eq_false_iff_not] at near
      omega
    rw [if_neg kept]
    have sum := (Expr.Is.hex 0x400 rfl).add word rfl (holds_s32 (by decide)) (holds_s32 (by omega))
      ((IntType.holds_s32_iff _).mpr (by omega))
    have shifted := sum.shiftRight offset rfl (show 0x71 - exponent < 32 by omega)
    exact shifted.eval_eq.trans (by push_cast; rfl)

end Magnitude

/-- The magnitude that is assigned. -/
theorem is_magnitudeExpr (byte : store.read (VectorInst.vTemp roleNames .u8 0) = packedExponent bits)
    (word : store.read (VectorInst.temp roleNames .u16) = keptFraction bits) :
    Expr.Is store magnitudeExpr .s32 (packedMagnitude bits : Nat) := by
  have exponent := is_keptExponent byte
  have small := packedExponent_lt bits
  have fraction : Expr.Is store (.read (VectorInst.temp roleNames .u16)) .u16
      (keptFraction bits : Int) := word ▸ Expr.Is.read _
  have within := packedMagnitude_lt bits
  have regular := exponent.ne (Expr.Is.hex 0xFF rfl) rfl (holds_s32 (by omega))
    (holds_s32 (by decide))
  refine regular.choose_of rfl rfl rfl (holds_s32 (by omega)) (fun finite => ?_) fun special => ?_
  · have number : packedExponent bits ≠ 0xFF := by
      simp only [decide_eq_true_eq] at finite
      omega
    have bound := packedExponent_le number
    rw [keptFraction, if_neg number] at fraction
    have fractionSmall : bits / 2 ^ 13 % 2 ^ 10 < 2 ^ 10 := Nat.mod_lt _ (by decide)
    rw [packedMagnitude, if_neg number] at within ⊢
    have normal := exponent.gt (Expr.Is.hex 0x70 rfl) rfl (holds_s32 (by omega))
      (holds_s32 (by decide))
    have whole : Expr.Is store _ .s32 _ := normal.choose_of rfl rfl rfl
      (holds_s32 (Nat.lt_trans within (by decide))) (fun above => by
        have large : 0x70 < packedExponent bits := by
          simp only [decide_eq_true_eq] at above
          omega
        rw [if_pos large]
        exact (is_normalExpr exponent fraction fractionSmall large bound).eval_eq) fun below => by
        have low : ¬0x70 < packedExponent bits := by
          simp only [decide_eq_false_iff_not] at below
          omega
        rw [if_neg low]
        exact (is_denormalExpr exponent fraction fractionSmall (by omega)).eval_eq
    exact whole.eval_eq
  · have notNumber : packedExponent bits = 0xFF := by
      simp only [decide_eq_false_iff_not, not_not] at special
      omega
    rw [packedMagnitude, if_pos notNumber]
    rfl

theorem packedHalf_lt (bits : Nat) : packedHalf bits < 2 ^ 16 := by
  have within := packedMagnitude_lt bits
  unfold packedHalf
  omega

/-- The magnitude with its sign. -/
theorem is_signExpr {target : Nat} (upper : Vec.lane 4 (store .vTemp) lane / 2 ^ 8 = bits / 2 ^ 8)
    (magnitude : Vec.lane 2 (store (.v 0)) target = packedMagnitude bits) :
    Expr.Is store (signExpr lane target) .u32 (packedHalf bits : Nat) := by
  have within := packedMagnitude_lt bits
  have field := is_field (@is_copied store _ lane rfl) (Vec.lane_lt 4 (store .vTemp) lane) 31 1
    0x80000000 (by decide) (by decide) (show 16 ≤ 31 by decide) (by decide)
  rw [show Vec.lane 4 (store .vTemp) lane / 2 ^ 31 = bits / 2 ^ 31 by omega, pow_one] at field
  have lower : Expr.Is store (.read (VectorInst.elem roleNames .u16 0 target)) .u16
      (packedMagnitude bits : Int) := by
    apply (Expr.Is.read _).congr
    rw [← magnitude]
    exact read_elem 2 0 target
  have whole := lower.or field rfl (by decide) (holds_u32 (by omega)) (holds_u32 (by omega))
  rw [or_shifted within] at whole
  exact whole

/-- One lane is packed. -/
theorem run_packHalf (operand : Nat → Word) (exp2f log2f : Nat → Nat) (inside : lane < 4)
    (half : (operand 4).toNat ≤ 2) (known : Vec.lane 4 (store .vTemp) lane = bits) :
    ∃ after, VStatement.run store
        (VectorInst.packHalf roleNames operand (FloatOps.host exp2f log2f) lane) = some after ∧
      (∀ other, other ≠ 0 → Vec.lane 4 (after .vTemp) other = Vec.lane 4 (store .vTemp) other) ∧
      ∀ other, Vec.lane 2 (after (.v 0)) other =
        if other = lane + 2 * (operand 4).toNat then packedHalf bits
        else Vec.lane 2 (store (.v 0)) other := by
  have target : lane + (2 * operand 4).toNat = lane + 2 * (operand 4).toNat := by
    rw [BitVec.toNat_mul, show (2 : Word).toNat = 2 from rfl]
    omega
  obtain ⟨prepared, ran, destination, lanes, upper, byte, word⟩ := run_prepare exp2f log2f known
  obtain ⟨first, assigned, kept, firstLane⟩ := @run_assignElem prepared .u16
    (lane + 2 * (operand 4).toNat) magnitudeExpr (packedMagnitude bits) (by simp only; omega)
    (is_magnitudeExpr byte word).eval_eq (Nat.lt_trans (packedMagnitude_lt bits) (by decide))
  have copy := kept .vTemp (by decide)
  obtain ⟨second, again, still, secondLane⟩ := @run_assignElem first .u16
    (lane + 2 * (operand 4).toNat) (signExpr lane (lane + 2 * (operand 4).toNat)) (packedHalf bits)
    (by simp only; omega) (is_signExpr (by rw [copy, upper]) (by rw [firstLane, if_pos rfl])).eval_eq
    (packedHalf_lt bits)
  refine ⟨second, ?_, ?_, ?_⟩
  · rw [packHalf_eq, target, VStatement.run_append, VStatement.run_map_scalar, ran, Option.bind_some,
      VStatement.run_append, assigned, Option.bind_some, again]
  · intro other nonzero
    rw [still .vTemp (by decide), copy, lanes other nonzero]
  · intro other
    rw [secondLane, firstLane, destination]
    split <;> rfl

/-- Lanes are packed one after the other; the first of them may be lost once it is packed. -/
theorem run_packHalves (operand : Nat → Word) (exp2f log2f : Nat → Nat)
    (half : (operand 4).toNat ≤ 2) {source : Vec} {count : Nat} (few : count ≤ 4)
    (copied : ∀ lane, Vec.lane 4 (store .vTemp) lane = Vec.lane 4 source lane) :
    ∃ after, VStatement.run store ((List.range count).flatMap
        (VectorInst.packHalf roleNames operand (FloatOps.host exp2f log2f))) = some after ∧
      (∀ lane, lane ≠ 0 ∨ count = 0 → Vec.lane 4 (after .vTemp) lane = Vec.lane 4 source lane) ∧
      (∀ lane < count, Vec.lane 2 (after (.v 0)) (lane + 2 * (operand 4).toNat) =
        packedHalf (Vec.lane 4 source lane)) ∧
      ∀ other, other < 2 * (operand 4).toNat ∨ 2 * (operand 4).toNat + count ≤ other →
        Vec.lane 2 (after (.v 0)) other = Vec.lane 2 (store (.v 0)) other := by
  induction count with
  | zero =>
      exact ⟨store, rfl, fun lane _ => copied lane, fun lane below => absurd below lane.not_lt_zero,
        fun _ _ => rfl⟩
  | succ count ih =>
      obtain ⟨middle, ran, lanes, packed, kept⟩ := ih (by omega)
      obtain ⟨after, next, still, target⟩ := run_packHalf operand exp2f log2f
        (show count < 4 by omega) half (lanes count (by omega))
      refine ⟨after, ?_, ?_, ?_, ?_⟩
      · rw [List.range_succ, List.flatMap_append, VStatement.run_append, ran, Option.bind_some,
          List.flatMap_singleton, next]
      · intro lane nonzero
        have apart : lane ≠ 0 := by omega
        rw [still lane apart, lanes lane (.inl apart)]
      · intro lane below
        rw [target]
        split
        next same =>
          rw [show lane = count by omega]
        next earlier => exact packed lane (by omega)
      · intro other outside
        rw [target, if_neg (by omega), kept other (by omega)]

end Steps

/-! ## What is packed -/

/-- A lane that stays a number has its exponent kept. -/
theorem packedExponent_eq {bits : Nat} (number : packedExponent bits ≠ 0xFF) :
    packedExponent bits = FloatFormat.single.exponentOf bits := by
  unfold packedExponent at *
  split at number
  · exact absurd rfl number
  · rw [if_neg ‹_›]
    rfl

/-- A number with an exponent of its own, of 16 bits. -/
theorem half_normal {exponent fraction : Nat} (above : exponent ≠ 0) (below : exponent ≤ 30)
    (small : fraction < 2 ^ 10) :
    FloatFormat.half.exponentOf (exponent * 2 ^ 10 + fraction) = exponent ∧
      FloatFormat.half.units (exponent * 2 ^ 10 + fraction) =
        (2 ^ 10 + fraction) * 2 ^ (exponent - 1) := by
  have exponentIs : FloatFormat.half.exponentOf (exponent * 2 ^ 10 + fraction) = exponent := by
    change (exponent * 2 ^ 10 + fraction) / 2 ^ 10 % 2 ^ 5 = exponent
    omega
  have fractionIs : FloatFormat.half.fractionOf (exponent * 2 ^ 10 + fraction) = fraction := by
    change (exponent * 2 ^ 10 + fraction) % 2 ^ 10 = fraction
    omega
  exact ⟨exponentIs, by rw [FloatFormat.units, exponentIs, if_neg above, fractionIs]⟩

/-- A denormal number of 16 bits. -/
theorem half_denormal {bits : Nat} (small : bits < 2 ^ 10) :
    FloatFormat.half.exponentOf bits = 0 ∧ FloatFormat.half.units bits = bits := by
  have exponentIs : FloatFormat.half.exponentOf bits = 0 := by
    rw [FloatFormat.exponentOf, Nat.div_eq_of_lt small]
    rfl
  have fractionIs : FloatFormat.half.fractionOf bits = bits := Nat.mod_eq_of_lt small
  exact ⟨exponentIs, by rw [FloatFormat.units, if_pos exponentIs, fractionIs]⟩

/-- The smallest number of 16 bits is a multiple of that of 32 bits. -/
theorem half_scale : FloatFormat.half.unitExponent = FloatFormat.single.unitExponent + (125 : Nat) := by
  decide

/-- The first bits of the fraction, with the bit that is not written down. -/
theorem fraction_bounds (bits : Nat) :
    (2 ^ 10 + bits / 2 ^ 13 % 2 ^ 10) * 2 ^ 13 ≤ 2 ^ 23 + bits % 2 ^ 23 ∧
      2 ^ 23 + bits % 2 ^ 23 < (2 ^ 10 + bits / 2 ^ 13 % 2 ^ 10 + 1) * 2 ^ 13 := by
  omega

section Truncated

variable {bits exponent : Nat} (known : FloatFormat.single.exponentOf bits = exponent)

include known

theorem single_units (nonzero : exponent ≠ 0) :
    FloatFormat.single.units bits = (2 ^ 23 + bits % 2 ^ 23) * 2 ^ (exponent - 1) := by
  rw [FloatFormat.units, known, if_neg nonzero, FloatFormat.fractionOf]

/-- A number that keeps an exponent of its own. -/
theorem truncates_normal (above : 0x70 < exponent) (below : exponent ≤ 142) :
    FloatFormat.Truncates .single bits .half
      ((exponent - 0x70) * 2 ^ 10 + bits / 2 ^ 13 % 2 ^ 10) := by
  obtain ⟨lower, upper⟩ := fraction_bounds bits
  have small : bits / 2 ^ 13 % 2 ^ 10 < 2 ^ 10 := Nat.mod_lt _ (by decide)
  generalize bits / 2 ^ 13 % 2 ^ 10 = fraction at *
  obtain ⟨exponentOf, halfUnits⟩ := @half_normal (exponent - 0x70) fraction (by omega) (by omega)
    small
  have scale : 2 ^ (exponent - 0x70 - 1) * 2 ^ 125 = 2 ^ 13 * 2 ^ (exponent - 1) := by
    rw [← Nat.pow_add, ← Nat.pow_add]
    congr 1
    omega
  apply FloatFormat.Truncates.of_units half_scale
  · rw [FloatFormat.finite, exponentOf, bne_iff_ne]
    simp only
    omega
  · simp only
    omega
  · rw [halfUnits, single_units known (by omega), Nat.mul_assoc, scale, ← Nat.mul_assoc]
    exact Nat.mul_le_mul_right _ lower
  · rw [FloatFormat.units_succ (by simp only; omega), exponentOf, halfUnits, ← Nat.succ_mul,
      single_units known (by omega), Nat.mul_assoc, scale, ← Nat.mul_assoc]
    exact Nat.mul_lt_mul_of_pos_right upper (Nat.two_pow_pos _)

/-- A number below the smallest one. -/
theorem truncates_tiny (tiny : exponent ≤ 81) : FloatFormat.Truncates .single bits .half 0 := by
  apply FloatFormat.Truncates.of_units half_scale
  · decide
  · decide
  · rw [show FloatFormat.half.units 0 = 0 from rfl, Nat.zero_mul]
    exact Nat.zero_le _
  · have rest : bits % 2 ^ 23 < 2 ^ 23 := Nat.mod_lt _ (by decide)
    rw [show FloatFormat.half.units (0 + 1) = 1 from rfl, Nat.one_mul]
    by_cases zero : exponent = 0
    · rw [FloatFormat.units, known, if_pos zero]
      exact Nat.lt_trans rest (by decide)
    · rw [single_units known zero]
      calc (2 ^ 23 + bits % 2 ^ 23) * 2 ^ (exponent - 1)
          ≤ 2 ^ 24 * 2 ^ 80 := Nat.mul_le_mul (by omega)
            (Nat.pow_le_pow_right (by decide) (by omega))
        _ < 2 ^ 125 := by decide

/-- A number that becomes denormal. -/
theorem truncates_denormal (above : 82 ≤ exponent) (below : exponent ≤ 0x70) :
    FloatFormat.Truncates .single bits .half
      ((0x400 + bits / 2 ^ 13 % 2 ^ 10) / 2 ^ (0x71 - exponent)) := by
  obtain ⟨lower, upper⟩ := fraction_bounds bits
  have small : bits / 2 ^ 13 % 2 ^ 10 < 2 ^ 10 := Nat.mod_lt _ (by decide)
  generalize bits / 2 ^ 13 % 2 ^ 10 = fraction at *
  obtain ⟨shift, shiftIs⟩ : ∃ shift, 0x71 - exponent = shift := ⟨_, rfl⟩
  have scale : 2 ^ 125 = 2 ^ shift * (2 ^ 13 * 2 ^ (exponent - 1)) := by
    rw [← Nat.pow_add, ← Nat.pow_add]
    congr 1
    omega
  rw [shiftIs]
  have quotient : (0x400 + fraction) / 2 ^ shift < 2 ^ 10 := by
    rw [Nat.div_lt_iff_lt_mul (Nat.two_pow_pos _)]
    have twice : 2 ^ 1 ≤ 2 ^ shift := Nat.pow_le_pow_right (by decide) (by omega)
    omega
  obtain ⟨exponentOf, halfUnits⟩ := half_denormal quotient
  apply FloatFormat.Truncates.of_units half_scale
  · rw [FloatFormat.finite, exponentOf]
    decide
  · simp only
    omega
  · rw [halfUnits, single_units known (by omega), scale, ← Nat.mul_assoc]
    calc (0x400 + fraction) / 2 ^ shift * 2 ^ shift * (2 ^ 13 * 2 ^ (exponent - 1))
        ≤ (0x400 + fraction) * (2 ^ 13 * 2 ^ (exponent - 1)) :=
          Nat.mul_le_mul_right _ (Nat.div_mul_le_self _ _)
      _ = (0x400 + fraction) * 2 ^ 13 * 2 ^ (exponent - 1) := (Nat.mul_assoc _ _ _).symm
      _ ≤ (2 ^ 23 + bits % 2 ^ 23) * 2 ^ (exponent - 1) := Nat.mul_le_mul_right _ lower
  · rw [FloatFormat.units_succ (by simp only; omega), exponentOf, halfUnits,
      single_units known (by omega), scale, ← Nat.mul_assoc]
    have next : 0x400 + fraction + 1 ≤ ((0x400 + fraction) / 2 ^ shift + 2 ^ (0 - 1)) *
        2 ^ shift := by
      rw [Nat.zero_sub, pow_zero, Nat.add_mul, Nat.one_mul]
      exact Nat.lt_div_mul_add (Nat.two_pow_pos _)
    calc (2 ^ 23 + bits % 2 ^ 23) * 2 ^ (exponent - 1)
        < (0x400 + fraction + 1) * 2 ^ 13 * 2 ^ (exponent - 1) :=
          Nat.mul_lt_mul_of_pos_right upper (Nat.two_pow_pos _)
      _ = (0x400 + fraction + 1) * (2 ^ 13 * 2 ^ (exponent - 1)) := Nat.mul_assoc _ _ _
      _ ≤ _ := Nat.mul_le_mul_right _ next

end Truncated

/-- A lane that stays a number is truncated. -/
theorem truncates_packedMagnitude {bits : Nat} (number : packedExponent bits ≠ 0xFF) :
    FloatFormat.Truncates .single bits .half (packedMagnitude bits) := by
  have known := (packedExponent_eq number).symm
  have bound := packedExponent_le number
  rw [packedMagnitude, if_neg number]
  split
  next normal => exact truncates_normal known normal bound
  next small =>
    split
    next tiny => exact truncates_tiny known (by omega)
    next large => exact truncates_denormal known (by omega) (by omega)

/-- The largest number that is packed as one is 65504. -/
theorem absolute_bound : FloatFormat.single.absolute 0x477FE000 = 65504 := by
  rw [FloatFormat.absolute, show FloatFormat.single.units 0x477FE000 = 16769024 * 2 ^ 141 by decide,
    show FloatFormat.single.unitExponent = -149 by decide]
  norm_num

theorem packedExponent_iff (bits : Nat) :
    packedExponent bits ≠ 0xFF ↔
      FloatFormat.single.finite bits = true ∧ FloatFormat.single.absolute bits ≤ 65504 := by
  rw [← absolute_bound, ← @FloatFormat.absolute_magnitude .single bits,
    FloatFormat.absolute_le_absolute FloatFormat.magnitude_lt (by decide),
    FloatFormat.magnitude, FloatFormat.finite, bne_iff_ne, FloatFormat.exponentOf, packedExponent]
  simp only
  constructor
  · intro number
    split at number
    · exact absurd rfl number
    · omega
  · rintro ⟨-, small⟩
    rw [if_neg (by omega)]
    omega

/-- What a number of 32 bits is packed as: its sign, with its truncation, or with all bits set where
it is too large or not finite. -/
structure PacksHalf (bits half : Nat) : Prop where
  sign : FloatFormat.half.negative half = FloatFormat.single.negative bits
  number : FloatFormat.single.finite bits = true → FloatFormat.single.absolute bits ≤ 65504 →
    FloatFormat.Truncates .single bits .half half
  tiny : FloatFormat.single.finite bits = true → FloatFormat.single.absolute bits < 2 ^ (-24 : Int) →
    FloatFormat.half.magnitude half = 0
  special : ¬(FloatFormat.single.finite bits = true ∧ FloatFormat.single.absolute bits ≤ 65504) →
    FloatFormat.half.magnitude half = 0x7FFF

theorem magnitude_packedHalf (bits : Nat) :
    FloatFormat.half.magnitude (packedHalf bits) = packedMagnitude bits := by
  have small := packedMagnitude_lt bits
  change (packedMagnitude bits + bits / 2 ^ 31 % 2 * 2 ^ 15) % 2 ^ 15 = packedMagnitude bits
  omega

theorem negative_packedHalf (bits : Nat) :
    FloatFormat.half.negative (packedHalf bits) = FloatFormat.single.negative bits := by
  have small := packedMagnitude_lt bits
  have sign : packedHalf bits / 2 ^ 15 % 2 = bits / 2 ^ 31 % 2 := by
    unfold packedHalf
    omega
  exact congrArg (· == 1) sign

/-- The sign is not looked at. -/
theorem truncates_packedHalf {bits : Nat} (number : packedExponent bits ≠ 0xFF) :
    FloatFormat.Truncates .single bits .half (packedHalf bits) := by
  obtain ⟨finite, below, greatest⟩ := truncates_packedMagnitude number
  rw [← magnitude_packedHalf] at finite below greatest
  simp only [FloatFormat.absolute_magnitude] at below greatest
  rw [FloatFormat.finite, FloatFormat.exponentOf_magnitude] at finite
  exact ⟨finite, below, greatest⟩

theorem packsHalf_packedHalf (bits : Nat) : PacksHalf bits (packedHalf bits) where
  sign := negative_packedHalf bits
  number finite small := truncates_packedHalf ((packedExponent_iff bits).mpr ⟨finite, small⟩)
  tiny finite tiny := by
    have number := (packedExponent_iff bits).mpr
      ⟨finite, tiny.le.trans (by norm_num)⟩
    have below := (truncates_packedHalf number).below.trans_lt tiny
    by_contra nonzero
    have one : FloatFormat.half.absolute 1 ≤ FloatFormat.half.absolute
        (FloatFormat.half.magnitude (packedHalf bits)) :=
      (FloatFormat.absolute_le_absolute (by decide) FloatFormat.magnitude_lt).mpr (by omega)
    rw [FloatFormat.absolute_magnitude, FloatFormat.absolute,
      show FloatFormat.half.units 1 = 1 from rfl, Nat.cast_one, one_mul] at one
    exact absurd below (not_lt_of_ge one)
  special special := by
    have notNumber : packedExponent bits = 0xFF := by
      by_contra number
      exact special ((packedExponent_iff bits).mp number)
    rw [magnitude_packedHalf, packedMagnitude, if_pos notNumber]

/-- A number that 16 bits stand for is packed as them. -/
theorem packedHalf_exact {bits half : Nat} (fits : half < 2 ^ 16)
    (finite : FloatFormat.single.finite bits = true)
    (halfFinite : FloatFormat.half.finite half = true)
    (sign : FloatFormat.half.negative half = FloatFormat.single.negative bits)
    (same : FloatFormat.half.absolute half = FloatFormat.single.absolute bits) :
    packedHalf bits = half := by
  have largest : FloatFormat.half.absolute half ≤ 65504 := by
    have bound : FloatFormat.half.absolute 0x7BFF = 65504 := by
      rw [FloatFormat.absolute, show FloatFormat.half.units 0x7BFF = 2047 * 2 ^ 29 by decide,
        show FloatFormat.half.unitExponent = -24 by decide]
      norm_num
    rw [← bound, ← FloatFormat.absolute_magnitude,
      FloatFormat.absolute_le_absolute FloatFormat.magnitude_lt (by decide)]
    have exponent : half / 2 ^ 10 % 2 ^ 5 ≠ 2 ^ 5 - 1 := bne_iff_ne.mp halfFinite
    change half % 2 ^ 15 ≤ 0x7BFF
    omega
  have truncates := truncates_packedHalf ((packedExponent_iff bits).mpr ⟨finite, same ▸ largest⟩)
  have equal : FloatFormat.half.magnitude (packedHalf bits) = FloatFormat.half.magnitude half := by
    apply Nat.le_antisymm
    · rw [← FloatFormat.absolute_le_absolute FloatFormat.magnitude_lt FloatFormat.magnitude_lt,
        FloatFormat.absolute_magnitude, FloatFormat.absolute_magnitude, same]
      exact truncates.below
    · rw [← FloatFormat.absolute_le_absolute FloatFormat.magnitude_lt FloatFormat.magnitude_lt,
        FloatFormat.absolute_magnitude, FloatFormat.absolute_magnitude]
      exact truncates.greatest half halfFinite same.le
  exact @FloatFormat.eq_of_parts .half _ _ (packedHalf_lt bits) fits equal
    ((negative_packedHalf bits).trans sign.symm)

/-- Larger numbers are not packed as smaller ones. -/
theorem packedHalf_monotone {bits other : Nat}
    (order : FloatFormat.single.magnitude bits ≤ FloatFormat.single.magnitude other) :
    FloatFormat.half.magnitude (packedHalf bits) ≤ FloatFormat.half.magnitude (packedHalf other) := by
  by_cases number : packedExponent other = 0xFF
  · rw [magnitude_packedHalf other, packedMagnitude, if_pos number]
    exact Nat.le_of_lt_succ FloatFormat.magnitude_lt
  · have smaller : packedExponent bits ≠ 0xFF := by
      have bound := number
      unfold packedExponent at bound ⊢
      change bits % 2 ^ 31 ≤ other % 2 ^ 31 at order
      split at bound
      · exact absurd rfl bound
      · rw [if_neg (by omega)]
        omega
    rw [← FloatFormat.absolute_le_absolute FloatFormat.magnitude_lt FloatFormat.magnitude_lt,
      FloatFormat.absolute_magnitude, FloatFormat.absolute_magnitude]
    have first := truncates_packedHalf smaller
    apply (truncates_packedHalf number).greatest _ first.finite
    apply first.below.trans
    rw [← @FloatFormat.absolute_magnitude .single bits,
      ← @FloatFormat.absolute_magnitude .single other]
    exact (FloatFormat.absolute_le_absolute FloatFormat.magnitude_lt FloatFormat.magnitude_lt).mpr
      order

/-- The sign of a number only changes the sign of what is packed. -/
theorem packedHalf_odd (bits : Nat) :
    packedHalf (bits ^^^ 0x80000000) = packedHalf bits ^^^ 0x8000 := by
  have low : (bits ^^^ 0x80000000) % 2 ^ 31 = bits % 2 ^ 31 := by
    rw [Nat.xor_mod_two_pow]
    exact Nat.xor_zero _
  have high : (bits ^^^ 0x80000000) / 2 ^ 31 = bits / 2 ^ 31 ^^^ 1 := Nat.xor_div_two_pow
  have magnitude : packedMagnitude (bits ^^^ 0x80000000) = packedMagnitude bits := by
    have fraction : (bits ^^^ 0x80000000) / 2 ^ 13 % 2 ^ 10 = bits / 2 ^ 13 % 2 ^ 10 := by omega
    have exponent : packedExponent (bits ^^^ 0x80000000) = packedExponent bits := by
      rw [packedExponent, packedExponent, low, show (bits ^^^ 0x80000000) / 2 ^ 23 % 2 ^ 8 =
        bits / 2 ^ 23 % 2 ^ 8 by omega]
    rw [packedMagnitude, packedMagnitude, exponent, fraction]
  have small := packedMagnitude_lt bits
  apply @FloatFormat.eq_of_parts .half _ _ (packedHalf_lt _)
  · exact Nat.xor_lt_two_pow (packedHalf_lt bits) (by decide)
  · rw [magnitude_packedHalf, magnitude, ← magnitude_packedHalf]
    exact ((Nat.xor_mod_two_pow).trans (Nat.xor_zero _)).symm
  · rw [negative_packedHalf]
    have sign : (packedHalf bits ^^^ 0x8000) / 2 ^ 15 = packedHalf bits / 2 ^ 15 ^^^ 1 :=
      Nat.xor_div_two_pow
    have kept : packedHalf bits / 2 ^ 15 % 2 = bits / 2 ^ 31 % 2 := by
      unfold packedHalf
      omega
    have flipped : ∀ left right : Nat, left % 2 = right % 2 → (left ^^^ 1) % 2 = (right ^^^ 1) % 2 := by
      intro left right same
      rw [show 2 = 2 ^ 1 by rfl] at *
      rw [Nat.xor_mod_two_pow, same, ← Nat.xor_mod_two_pow]
    change ((bits ^^^ 0x80000000) / 2 ^ 31 % 2 == 1) = ((packedHalf bits ^^^ 0x8000) / 2 ^ 15 % 2 == 1)
    rw [high, sign, flipped _ _ kept]

/-! ## The instruction -/

/-- `vpkd3d128` with the format `float16_4`. -/
structure PacksFloat16 (exp2f log2f : Nat → Nat) (record : Bool) : Prop where
  /-- Four lanes of the destination are made, whichever registers are the same, and the other four
  stay as they were. -/
  run : ∀ (operand : Nat → Word) (before : Store Object), (operand 2).toNat = 5 →
    (operand 4).toNat ≤ 2 →
    ∃ after, VStatement.run before (VectorInst.vpkd3d128.statements (vectorNames operand) operand
        (FloatOps.host exp2f log2f) record) = some after ∧
      (∀ lane < 4, Vec.lane 2 (vec after operand 0) (lane + 2 * (operand 4).toNat) =
        packedHalf (Vec.lane 4 (vec before operand 1) lane)) ∧
      ∀ other, other < 2 * (operand 4).toNat ∨ 2 * (operand 4).toNat + 4 ≤ other →
        Vec.lane 2 (vec after operand 0) other = Vec.lane 2 (vec before operand 0) other
  packs : ∀ bits, PacksHalf bits (packedHalf bits)
  representable : ∀ bits half, half < 2 ^ 16 → FloatFormat.single.finite bits = true →
    FloatFormat.half.finite half = true →
    FloatFormat.half.negative half = FloatFormat.single.negative bits →
    FloatFormat.half.absolute half = FloatFormat.single.absolute bits → packedHalf bits = half
  odd : ∀ bits, packedHalf (bits ^^^ 0x80000000) = packedHalf bits ^^^ 0x8000
  monotone : ∀ bits other, FloatFormat.single.magnitude bits ≤ FloatFormat.single.magnitude other →
    FloatFormat.half.magnitude (packedHalf bits) ≤ FloatFormat.half.magnitude (packedHalf other)

/-- The emitted pack. -/
theorem packsFloat16 (exp2f log2f : Nat → Nat) (record : Bool) :
    PacksFloat16 exp2f log2f record where
  run := by
    intro operand before format half
    have copied : VStatement.step (contents before operand)
        (.scalar (.copy roleNames.vTemp (roleNames.v 1)) : VStatement VectorRole) =
        some (Function.update (contents before operand) .vTemp (vec before operand 1)) := rfl
    obtain ⟨made, ran, -, lanes, kept⟩ := @run_packHalves
      (Function.update (contents before operand) .vTemp (vec before operand 1)) operand exp2f log2f
      half (vec before operand 1) 4 (Nat.le_refl 4) fun _ => rfl
    have run : VStatement.run (contents before operand) (VectorInst.vpkd3d128.statements roleNames
        operand (FloatOps.host exp2f log2f) record) = some made := by
      rw [VectorInst.statements, format, VectorInst.packD3D, VStatement.run_cons, copied,
        Option.bind_some, ran]
    obtain ⟨after, ran, destination⟩ := exists_run_of_roles
      (by simp [VectorInst.packs]) run
    exact ⟨after, ran, fun lane inside => by rw [destination, lanes lane inside],
      fun other outside => by rw [destination, kept other outside]; rfl⟩
  packs := packsHalf_packedHalf
  representable _ _ := packedHalf_exact
  odd := packedHalf_odd
  monotone _ _ := packedHalf_monotone

end UfcRecomp.Recompiler
