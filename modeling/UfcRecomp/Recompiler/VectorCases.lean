import UfcRecomp.Recompiler.VectorOrder

/-!
# Cases that keep vectors in reverse

From sources that hold the guest's vectors in reverse, the statements of an instruction leave the
guest's result in reverse behind.
-/

namespace UfcRecomp.Recompiler

open UfcRecomp.Lib UfcRecomp.Lib.Simd UfcRecomp.Ppc

section Cases

variable {operand : Nat → Word} {before : Store Object} {v : Nat → BigVec}

/-- Statements run and leave a vector in reverse in the destination. -/
def LeavesReversed (statements : List (VStatement Object)) (operand : Nat → Word)
    (before : Store Object) (expected : BigVec) : Prop :=
  ∃ after, VStatement.run before statements = some after ∧
    Reversed (vec after operand 0) expected

/-- A vector is stored as a whole. -/
theorem leavesReversed_store {value : VExpr Object} {expected : BigVec}
    (reversed : Reversed (value.eval before) expected) :
    LeavesReversed [.store (.v (operand 0).toNat) value] operand before expected :=
  ⟨_, rfl, reversed.congr fun _ inside => Store.storeVec_of_lt _ _ _ inside⟩

/-! ## Packs -/

/-- A lane of one of the sources, which is chosen by an index. -/
theorem eval_sourceLane (type : IntType) (first : Prop) [Decidable first] (lane : Nat) :
    (Expr.read (VectorInst.elem roleNames type (if first then 1 else 2) lane)).eval
        (contents before operand) =
      some (Vec.typed type (if first then vec before operand 1 else vec before operand 2)
        lane) := by
  split <;> rfl

theorem avoids_sourceLane (type : IntType) (first : Prop) [Decidable first] (lane : Nat) :
    (Expr.read (VectorInst.elem roleNames type (if first then 1 else 2) lane)).avoids (.v 0)
      [.temp] = true := by
  split <;> rfl

/-- A loop whose blocks assign the lanes of a result, the first one at the top. -/
theorem leavesReversed_fromTop {inst : VectorInst} {float : FloatOps} {size : Nat}
    {values assigned : Nat → Int} {body : Nat → List (CStatement VectorRole)}
    (free : inst.packs = true → (operand 2).toNat ≠ (operand 0).toNat) (lanes : size ∣ 16)
    (printed : inst.statements roleNames operand float false =
      VectorInst.forLanes (16 / size) body)
    (same : ∀ index < 16 / size, assigned index % 256 ^ size = values index % 256 ^ size)
    (blocks : ∀ index < 16 / size, AssignsLane (contents before operand) (.v 0) [.temp] size
      (16 / size - 1 - index) (assigned index) (body index)) :
    LeavesReversed (inst.statements (vectorNames operand) operand float false) operand before
      (BigVec.ofLanes size values) := by
  obtain ⟨after, ran, known⟩ := exists_run_forLanes free printed
    (fun i below j bound same => by omega) blocks
  refine ⟨after, ran, Reversed.of_lanes lanes fun index inside => ?_⟩
  rw [known index inside, same index inside]

/-- A pack through the temporary. -/
theorem leavesReversed_packLanes {inst : VectorInst} {float : FloatOps}
    {wide middle narrow : IntType} {value : Expr VectorRole}
    (free : inst.packs = true → (operand 2).toNat ≠ (operand 0).toNat)
    (printed : inst.statements roleNames operand float false =
      VectorInst.packLanes roleNames wide middle narrow value)
    (lanes : wide.size ∣ 16) (narrowLanes : narrow.size ∣ 16)
    (half : 16 / narrow.size = 16 / wide.size + 16 / wide.size)
    (evaluated : ∀ (store : Store VectorRole) (number : Int), wide.Holds number →
      value.eval (store.write ⟨.temp, 0, middle⟩ number) =
        some (clamp narrow.min narrow.max number))
    (sources : ∀ index, Reversed (vec before operand index) (v index)) :
    LeavesReversed (inst.statements (vectorNames operand) operand float false) operand before
      (VmxInst.pack wide narrow (v 1) (v 2)) := by
  apply leavesReversed_fromTop free narrowLanes printed fun _ _ => rfl
  intro index inside
  rw [lanePair_of_reversed lanes (sources 1) (sources 2) (half ▸ inside)]
  apply assignsLane_assign₂ (List.mem_singleton_self _) (by decide) (avoids_sourceLane _ _ _)
    (eval_sourceLane _ _ _)
  intro store
  exact evaluated store _ (wide.holds_wrap _)

/-- A number with a sign that is bounded by the range of the result's type. -/
theorem eval_bounded_temp (store : Store VectorRole) {wide middle narrow : IntType}
    {number high low : Int} (large : middle = .s32 ∨ middle = .s64)
    (signed : wide = .s16 ∨ wide = .s32) (limits : narrow.min = low ∧ narrow.max = high)
    (order : low ≤ high) (highFits : IntType.s32.Holds high) (lowFits : IntType.s32.Holds low)
    (fits : wide.Holds number) :
    (VectorInst.bounded (VectorInst.temp roleNames middle) high low).eval
        (store.write ⟨.temp, 0, middle⟩ number) =
      some (clamp narrow.min narrow.max number) := by
  have range : -2 ^ 31 ≤ number ∧ number < 2 ^ 31 := by
    obtain rfl | rfl := signed
    · rw [IntType.holds_iff (by decide), show IntType.min .s16 = -32768 by decide,
        show IntType.max .s16 = 32767 by decide] at fits
      omega
    · exact (IntType.holds_s32_iff number).mp fits
  have held : middle.wrap number = number := by
    obtain rfl | rfl := large
    · exact (IntType.holds_s32_iff number).mpr range
    · exact (IntType.holds_s64_iff number).mpr (by omega)
  have known : (store.write ⟨.temp, 0, middle⟩ number).read (VectorInst.temp roleNames middle) =
      number := by
    rw [VectorInst.temp, show roleNames.temp = .temp from rfl, Store.read_write, held]
  rw [eval_bounded large order highFits lowFits, known, limits.1, limits.2]

theorem eval_boundedAbove (store : Store VectorRole) {number : Int}
    (fits : IntType.u16.Holds number) :
    (VectorInst.boundedAbove (VectorInst.temp roleNames .u32) 255).eval
        (store.write ⟨.temp, 0, .u32⟩ number) =
      some (clamp (IntType.min .u8) (IntType.max .u8) number) := by
  have range := (IntType.holds_iff (by decide) number).mp fits
  have limits : IntType.min .u16 = 0 ∧ IntType.max .u16 = 65535 := by decide
  have bounds : IntType.min .u8 = 0 ∧ IntType.max .u8 = 255 := by decide
  have known : (store.write ⟨.temp, 0, .u32⟩ number).read (VectorInst.temp roleNames .u32) =
      number := by
    rw [VectorInst.temp, show roleNames.temp = .temp from rfl, Store.read_write,
      IntType.wrap_unsigned, Int.emod_eq_of_lt (by omega) (by omega)]
  have temp := @Expr.Is.read _ (store.write ⟨.temp, 0, .u32⟩ number)
    (VectorInst.temp roleNames .u32)
  have wide : IntType.u32.Holds number := by
    rw [IntType.Holds, IntType.wrap_unsigned, Int.emod_eq_of_lt (by omega) (by omega)]
  rw [known] at temp
  have high := @Expr.Is.literal _ (store.write ⟨.temp, 0, .u32⟩ number) .s32 255
  have chosen := (temp.gt high rfl wide (by decide)).choose high temp rfl (by decide) wide
  rw [VectorInst.boundedAbove, chosen.eval_eq, bounds.1, bounds.2, clamp]
  simp only [decide_eq_true_eq, Option.some.injEq]
  omega

/-- The low halves of words. -/
theorem leavesReversed_vpkuwum {float : FloatOps} (free : (operand 2).toNat ≠ (operand 0).toNat)
    (sources : ∀ index, Reversed (vec before operand index) (v index)) :
    LeavesReversed (VectorInst.vpkuwum.statements (vectorNames operand) operand float false)
      operand before (BigVec.ofLanes 2 (VmxInst.lanePair .u32 (v 1) (v 2))) := by
  let source (index : Nat) : Vec := if index < 4 then vec before operand 1 else vec before operand 2
  apply @leavesReversed_fromTop operand before .vpkuwum float 2 _
    (fun index => (Vec.lane 4 (source index) (3 - index % 4) &&& 0xFFFF : Nat)) _ (fun _ => free)
    (by decide) rfl
  · intro index inside
    rw [lanePair_of_reversed (by decide) (sources 1) (sources 2) (by exact inside),
      Vec.typed_unsigned, show 0xFFFF = 2 ^ 16 - 1 from rfl, Nat.and_two_pow_sub_one_eq_mod]
    push_cast
    exact Int.emod_emod_of_dvd _ (by decide)
  · intro index inside
    have bound := Vec.lane_lt 4 (source index) (3 - index % 4)
    have word := @Expr.Is.read _ (contents before operand)
      (VectorInst.elem roleNames .u32 (if index < 4 then 1 else 2) (3 - index % 4))
    have known : (contents before operand).read
        (VectorInst.elem roleNames .u32 (if index < 4 then 1 else 2) (3 - index % 4)) =
        (Vec.lane 4 (source index) (3 - index % 4) : Int) := by
      rw [read_elem]
      simp only [source]
      split <;> rfl
    rw [known] at word
    have masked := word.and (Expr.Is.hex 0xFFFF rfl) (show IntType.common .u32 .s32 = .u32 from rfl)
      (by decide) (holds_u32 bound) (holds_u32 (by decide))
    apply assignsLane_assign _ masked.eval_eq
    split <;> rfl

/-! ## Shifts of lanes -/

/-- A loop whose blocks assign the lanes where they are. -/
theorem leavesReversed_inPlace {inst : VectorInst} {float : FloatOps} {size : Nat}
    {values mirrored : Nat → Int} {body : Nat → List (CStatement VectorRole)}
    (free : inst.packs = false) (lanes : size ∣ 16)
    (printed : inst.statements roleNames operand float false =
      VectorInst.forLanes (16 / size) body)
    (same : ∀ index < 16 / size,
      mirrored (16 / size - 1 - index) % 256 ^ size = values index % 256 ^ size)
    (blocks : ∀ lane < 16 / size, AssignsLane (contents before operand) (.v 0) [.temp] size lane
      (mirrored lane) (body lane)) :
    LeavesReversed (inst.statements (vectorNames operand) operand float false) operand before
      (BigVec.ofLanes size values) := by
  obtain ⟨after, ran, known⟩ := exists_run_forLanes
    (fun packs => absurd packs (by rw [free]; decide)) printed (fun _ _ _ _ equal => equal) blocks
  refine ⟨after, ran, Reversed.of_lanes lanes fun index inside => ?_⟩
  rw [known _ (by omega), same index inside]

/-- The count of a shift, from the lowest byte of a lane. -/
theorem count_is {size bits : Nat} (lane : Nat) (width : 2 ^ bits = 8 * size) (few : bits ≤ 5) :
    Expr.Is (contents before operand)
      (.read (VectorInst.elem roleNames .u8 2 (lane * size)) &&& .hex (2 ^ bits - 1)) .s32
      ((Vec.lane size (vec before operand 2) lane % 2 ^ bits : Nat) : Int) := by
  have small : 2 ^ bits ≤ 2 ^ 5 := Nat.pow_le_pow_right (by decide) few
  obtain ⟨factor, divides⟩ : 2 ^ bits ∣ 256 :=
    pow_dvd_pow 2 (Nat.le_trans few (show 5 ≤ 8 by decide))
  obtain ⟨rest, rfl⟩ : ∃ rest, size = rest + 1 :=
    Nat.exists_eq_succ_of_ne_zero fun zero => by
      have pos := Nat.two_pow_pos bits
      omega
  have byte := @Expr.Is.read _ (contents before operand)
    (VectorInst.elem roleNames .u8 2 (lane * (rest + 1)))
  have bound := Vec.lane_lt 1 (vec before operand 2) (lane * (rest + 1))
  rw [read_elem] at byte
  have masked := byte.and (Expr.Is.hex (2 ^ bits - 1) (if_pos (by omega)))
    (show IntType.common .u8 .s32 = .s32 from rfl) (by decide)
    (holds_s32 (Nat.lt_trans bound (by decide))) (holds_s32 (by omega))
  apply masked.congr
  rw [Nat.and_two_pow_sub_one_eq_mod, Vec.lane_one, Vec.lane, littleEndian, Nat.mul_comm lane,
    divides, Nat.mul_assoc, Nat.add_mul_mod_self_left]
  rfl

/-- A shift of every lane, from what the operation makes of a lane and a count. -/
theorem leavesReversed_shiftLanes {inst : VectorInst} {float : FloatOps} {type : IntType}
    {op : Binary} {bits : Nat} {shift number : Int → Nat → Int}
    (free : inst.packs = false) (lanes : type.size ∣ 16)
    (printed : inst.statements roleNames operand float false =
      VectorInst.shiftLanes roleNames type op (2 ^ bits - 1))
    (width : 2 ^ bits = 8 * type.size) (few : bits ≤ 5)
    (applied : ∀ {left right : Expr VectorRole} {x : Int} {count : Nat},
      Expr.Is (contents before operand) left type x →
      Expr.Is (contents before operand) right .s32 count → count < 2 ^ bits →
        (Expr.binary op left right).eval (contents before operand) = some (number x count))
    (same : ∀ x count, number x count % 256 ^ type.size = shift x count % 256 ^ type.size)
    (sources : ∀ index, Reversed (vec before operand index) (v index)) :
    LeavesReversed (inst.statements (vectorNames operand) operand float false) operand before
      (VmxInst.shiftEach type shift (v 1) (v 2)) := by
  apply @leavesReversed_inPlace operand before inst float type.size _
    (fun lane => number (Vec.typed type (vec before operand 1) lane)
      (Vec.lane type.size (vec before operand 2) lane % 2 ^ bits)) _ free lanes printed
  · intro index inside
    rw [same, (sources 1).typed lanes inside, (sources 2).lane lanes inside, width]
  · intro lane inside
    have value := @Expr.Is.read _ (contents before operand)
      (VectorInst.elem roleNames type 1 lane)
    exact assignsLane_assign rfl
      (applied value (count_is lane width few) (Nat.mod_lt _ (Nat.two_pow_pos bits)))

/-- Shifts to the left. -/
theorem leavesReversed_shiftLeft {inst : VectorInst} {float : FloatOps} {size bits : Nat}
    (free : inst.packs = false) (lanes : size ∣ 16)
    (printed : inst.statements roleNames operand float false =
      VectorInst.shiftLanes roleNames ⟨size, false⟩ .shiftLeft (2 ^ bits - 1))
    (width : 2 ^ bits = 8 * size) (few : bits ≤ 5)
    (sources : ∀ index, Reversed (vec before operand index) (v index)) :
    LeavesReversed (inst.statements (vectorNames operand) operand float false) operand before
      (VmxInst.shiftEach ⟨size, false⟩ (fun a count => a * 2 ^ count) (v 1) (v 2)) := by
  have larger : size ≤ (IntType.promote ⟨size, false⟩).size ∧
      4 ≤ (IntType.promote ⟨size, false⟩).size := by
    rw [IntType.promote_mk]
    split
    · exact ⟨by simp only; omega, Nat.le_refl 4⟩
    · exact ⟨Nat.le_refl size, by simp only; omega⟩
  have small : 2 ^ bits ≤ 2 ^ 5 := Nat.pow_le_pow_right (by decide) few
  apply @leavesReversed_shiftLanes operand before v inst float ⟨size, false⟩ .shiftLeft bits _
    (fun x count => (IntType.promote ⟨size, false⟩).wrap (x * 2 ^ count)) free lanes printed width
    few
  · intro left right x count leftIs rightIs below
    exact (leftIs.shiftLeft rightIs rfl (by rw [IntType.width]; omega)).eval_eq
  · intro x count
    have divides : (256 : Int) ^ size ∣ 2 ^ (IntType.promote ⟨size, false⟩).width := by
      rw [IntType.width, pow_mul]
      exact pow_dvd_pow 256 larger.1
    rw [← Int.emod_emod_of_dvd _ divides, IntType.wrap_emod, Int.emod_emod_of_dvd _ divides]
  · exact sources

/-- Shifts to the right. -/
theorem leavesReversed_shiftRight {inst : VectorInst} {float : FloatOps} {type : IntType}
    {bits : Nat} (free : inst.packs = false) (lanes : type.size ∣ 16)
    (printed : inst.statements roleNames operand float false =
      VectorInst.shiftLanes roleNames type .shiftRight (2 ^ bits - 1))
    (width : 2 ^ bits = 8 * type.size) (few : bits ≤ 5)
    (sources : ∀ index, Reversed (vec before operand index) (v index)) :
    LeavesReversed (inst.statements (vectorNames operand) operand float false) operand before
      (VmxInst.shiftEach type (fun a count => a / 2 ^ count) (v 1) (v 2)) := by
  have larger : 4 ≤ type.promote.size := by
    rw [IntType.promote]
    split
    · exact Nat.le_refl 4
    · omega
  have small : 2 ^ bits ≤ 2 ^ 5 := Nat.pow_le_pow_right (by decide) few
  apply leavesReversed_shiftLanes free lanes printed width few _ (fun _ _ => rfl) sources
  intro left right x count leftIs rightIs below
  exact (leftIs.shiftRight rightIs rfl (by rw [IntType.width]; omega)).eval_eq

/-- A rotation of 16 bits, from two shifts. -/
theorem rotate_sixteen {x count : Nat} (small : x < 2 ^ 16) (short : count < 16) :
    (((x * 2 ^ count ||| x / 2 ^ ((16 - count) % 16) : Nat) : Int)) % 2 ^ 16 =
      VmxInst.rotate 16 x count := by
  have number : (x * 2 ^ count ||| x / 2 ^ ((16 - count) % 16)) % 2 ^ 16 =
      ((BitVec.ofNat 16 x).rotateLeft count).toNat := by
    rw [BitVec.toNat_rotateLeft, BitVec.toNat_ofNat, Nat.mod_eq_of_lt small,
      Nat.mod_eq_of_lt short, Nat.or_mod_two_pow, Nat.shiftLeft_eq, Nat.shiftRight_eq_div_pow]
    by_cases none : count = 0
    · subst none
      rw [Nat.sub_zero, Nat.mod_self, pow_zero, Nat.mul_one, Nat.div_one, Nat.mod_eq_of_lt small,
        Nat.or_self, Nat.div_eq_of_lt small, Nat.or_zero]
    · have fits : x / 2 ^ (16 - count) < 2 ^ 16 := Nat.lt_of_le_of_lt (Nat.div_le_self _ _) small
      rw [Nat.mod_eq_of_lt (show 16 - count < 16 by omega), Nat.mod_eq_of_lt fits]
  rw [VmxInst.rotate, BitVec.ofInt_natCast, ← number]
  push_cast
  rfl

/-- The rotation of halfwords. -/
theorem leavesReversed_vrlh {float : FloatOps}
    (sources : ∀ index, Reversed (vec before operand index) (v index)) :
    LeavesReversed (VectorInst.vrlh.statements (vectorNames operand) operand float false) operand
      before (VmxInst.shiftEach .u16 (VmxInst.rotate 16) (v 1) (v 2)) := by
  let value (lane : Nat) : Nat := Vec.lane 2 (vec before operand 1) lane
  let count (lane : Nat) : Nat := Vec.lane 2 (vec before operand 2) lane % 2 ^ 4
  have bounds : ∀ lane, value lane < 2 ^ 16 ∧ count lane < 16 := fun lane =>
    ⟨Vec.lane_lt 2 _ lane, Nat.mod_lt _ (by decide)⟩
  apply @leavesReversed_inPlace operand before .vrlh float 2 _
    (fun lane => IntType.u16.wrap
      (value lane * 2 ^ count lane ||| value lane / 2 ^ ((16 - count lane) % 16) : Nat))
    _ rfl (by decide) rfl
  · intro index inside
    obtain ⟨small, short⟩ := bounds (16 / 2 - 1 - index)
    have first := @Reversed.typed _ _ (sources 1) .u16 (by decide) index inside
    have second := @Reversed.lane _ _ 2 (sources 2) (by decide) index inside
    have known : (value (16 / 2 - 1 - index) : Int) = BigVec.typed .u16 (v 1) index := by
      rw [← first, Vec.typed_unsigned]
    rw [IntType.wrap_unsigned, rotate_sixteen small short, known]
    simp only [count, second]
    rfl
  · intro lane inside
    obtain ⟨small, short⟩ := bounds lane
    have same : IntType.common .s32 .s32 = .s32 := rfl
    have number : Expr.Is (contents before operand) _ .u16 (value lane : Nat) :=
      (@Expr.Is.read _ (contents before operand) (VectorInst.elem roleNames .u16 1 lane)).congr
        (read_elem 2 1 lane)
    have few : Expr.Is (contents before operand) _ .s32 (count lane : Nat) :=
      @count_is operand before 2 4 lane rfl (by decide)
    have shifted : value lane * 2 ^ count lane < 2 ^ 31 := by
      calc value lane * 2 ^ count lane < 2 ^ 16 * 2 ^ count lane :=
            Nat.mul_lt_mul_of_pos_right small (Nat.two_pow_pos _)
        _ ≤ 2 ^ 16 * 2 ^ 15 := Nat.mul_le_mul_left _ (Nat.pow_le_pow_right (by decide) (by omega))
    have left : Expr.Is (contents before operand) _ .s32 (value lane * 2 ^ count lane : Nat) :=
      (number.shiftLeft few (show IntType.u16.promote = .s32 from rfl)
        (Nat.lt_trans short (by decide))).congr (by
          have fits := holds_s32 shifted
          rw [IntType.Holds] at fits
          push_cast at fits ⊢
          exact fits)
    have difference : Expr.Is (contents before operand) _ .s32 (16 - count lane : Nat) :=
      ((Expr.Is.decimal (show 16 < 2 ^ 31 by decide)).sub few same (by decide)
        (holds_s32 (Nat.lt_trans short (by decide)))
        ((IntType.holds_s32_iff _).mpr (by omega))).congr (by omega)
    have rest : Expr.Is (contents before operand) _ .s32 ((16 - count lane) % 16 : Nat) :=
      (difference.and (Expr.Is.hex 0xF rfl) same (by decide) (holds_s32 (by omega))
        (by decide)).congr (congrArg _ (Nat.and_two_pow_sub_one_eq_mod _ 4))
    have right : Expr.Is (contents before operand) _ .s32
        (value lane / 2 ^ ((16 - count lane) % 16) : Nat) :=
      (number.shiftRight rest (show IntType.u16.promote = .s32 from rfl)
        (Nat.lt_trans (Nat.mod_lt _ (by decide)) (by decide))).congr (by push_cast; rfl)
    have below : value lane / 2 ^ ((16 - count lane) % 16) < 2 ^ 31 :=
      Nat.lt_trans (Nat.lt_of_le_of_lt (Nat.div_le_self _ _) small) (by decide)
    have both := left.or right (show IntType.common .s32 .s32 = .s32 from rfl) (by decide)
      (holds_s32 shifted) (holds_s32 below)
    exact assignsLane_assign rfl (both.convert .u16).eval_eq

/-! ## Permutations with an immediate -/

/-- The words that the control of `vpermwi128` selects. -/
theorem permwi_selects (immediate : Word) :
    let x := 3 - (immediate &&& 0x3)
    let y := 3 - ((immediate >>> 2) &&& 0x3)
    let z := 3 - ((immediate >>> 4) &&& 0x3)
    let w := 3 - ((immediate >>> 6) &&& 0x3)
    ∀ index < 4, (x ||| (y <<< 2) ||| (z <<< 4) ||| (w <<< 6)).toNat / 4 ^ index % 4 =
      3 - immediate.toNat / 4 ^ index % 4 := by
  have fields : ∀ x < 4, ∀ y < 4, ∀ z < 4, ∀ w < 4, ∀ index < 4,
      ((3 - BitVec.ofNat 32 x) ||| ((3 - BitVec.ofNat 32 y) <<< 2) |||
        ((3 - BitVec.ofNat 32 z) <<< 4) ||| ((3 - BitVec.ofNat 32 w) <<< 6)).toNat /
          4 ^ index % 4 =
        3 - (if index = 0 then x else if index = 1 then y else if index = 2 then z else w) := by
    decide +kernel
  have field : ∀ count, (immediate >>> count) &&& 0x3 =
      BitVec.ofNat 32 (immediate.toNat / 2 ^ count % 4) := by
    intro count
    apply BitVec.eq_of_toNat_eq
    rw [BitVec.toNat_and, BitVec.toNat_ushiftRight, Nat.shiftRight_eq_div_pow, BitVec.toNat_ofNat,
      show (0x3 : Word).toNat = 2 ^ 2 - 1 from rfl, Nat.and_two_pow_sub_one_eq_mod]
    omega
  have first := field 0
  rw [BitVec.ushiftRight_zero] at first
  intro x y z w index below
  have selected := fields (immediate.toNat / 2 ^ 0 % 4) (Nat.mod_lt _ (by decide))
    (immediate.toNat / 2 ^ 2 % 4) (Nat.mod_lt _ (by decide))
    (immediate.toNat / 2 ^ 4 % 4) (Nat.mod_lt _ (by decide))
    (immediate.toNat / 2 ^ 6 % 4) (Nat.mod_lt _ (by decide)) index below
  rw [← first, ← field, ← field, ← field] at selected
  refine Eq.trans selected ?_
  obtain rfl | rfl | rfl | rfl : index = 0 ∨ index = 1 ∨ index = 2 ∨ index = 3 := by omega
  all_goals rfl

/-- The words that a rotation of words selects. -/
theorem shuffles_selects : ∀ count < 4, ∀ index < 4,
    VectorInst.shuffles count / 4 ^ index % 4 = 3 - (3 - index + count) % 4 := by
  decide

/-- The bytes that the mask of `vsplth` selects. -/
theorem splth_selects (index : Word) (few : index.toNat < 8) :
    let perm := 7 - index
    ∀ offset < 2, ((perm * 2) ||| ((perm * 2 + 1) <<< 8)).toNat / 256 ^ offset % 256 =
      2 * (16 / 2 - 1 - index.toNat) + offset := by
  have all : ∀ number < 8, ∀ offset < 2,
      (((7 - BitVec.ofNat 32 number) * 2) |||
        (((7 - BitVec.ofNat 32 number) * 2 + 1) <<< 8)).toNat / 256 ^ offset % 256 =
      2 * (16 / 2 - 1 - number) + offset := by decide
  have selected := all index.toNat few
  rw [BitVec.ofNat_toNat, BitVec.setWidth_eq] at selected
  exact selected

/-- The words that the control of `vspltw` selects. -/
theorem spltw_selects (index : Word) (few : index.toNat < 4) :
    let perm := 3 - index
    ∀ word < 4, (perm ||| (perm <<< 2) ||| (perm <<< 4) ||| (perm <<< 6)).toNat / 4 ^ word % 4 =
      3 - index.toNat := by
  have all : ∀ number < 4, ∀ word < 4,
      ((3 - BitVec.ofNat 32 number) ||| ((3 - BitVec.ofNat 32 number) <<< 2) |||
        ((3 - BitVec.ofNat 32 number) <<< 4) ||| ((3 - BitVec.ofNat 32 number) <<< 6)).toNat /
          4 ^ word % 4 = 3 - number := by decide
  have selected := all index.toNat few
  rw [BitVec.ofNat_toNat, BitVec.setWidth_eq] at selected
  exact selected

/-- One lane in all places, from a mask with the indices of its bytes. -/
theorem reversed_splat {size index mask : Nat} {a : Vec} {a' : BigVec}
    (known : size = 1 ∨ size = 2) (inside : index < 16 / size)
    (bytes : ∀ offset < size, mask / 256 ^ offset % 256 = size * (16 / size - 1 - index) + offset)
    (ha : Reversed a a') :
    Reversed (shuffleEpi8 a (set1 size mask)) (VmxInst.splat size index a') := by
  apply reversed_shuffleEpi8 _ _ ha
  · intro position below
    have byte := bytes ((15 - position) % size) (Nat.mod_lt _ (by omega))
    have cast : (mask : Int) / 256 ^ ((15 - position) % size) =
        ((mask / 256 ^ ((15 - position) % size) : Nat) : Int) := by push_cast; rfl
    rw [set1, Vec.ofLanes, byteOf, cast, BitVec.ofInt_natCast, BitVec.toNat_ofNat, byte]
    obtain rfl | rfl := known
    · omega
    · omega
  · intro position below
    obtain rfl | rfl := known
    · omega
    · omega

/-! ## All instructions -/

/-- From sources in reverse, each case leaves the result in reverse. -/
theorem leavesReversed_vmx (inst : VmxInst) (float : FloatOps) (encodes : inst.Encodes operand)
    (separate : vmxPacks inst = true → (operand 2).toNat ≠ (operand 0).toNat)
    (sources : ∀ index, Reversed (vec before operand index) (v index)) :
    LeavesReversed (vmxStatements (vectorNames operand) operand float inst) operand before
      (inst.result operand v) := by
  cases inst
  case vaddubm => exact leavesReversed_store (reversed_bytes₂ (· + ·) (sources 1) (sources 2))
  case vadduhm =>
    exact leavesReversed_store
      (reversed_map₂ (show 2 ∣ 16 by decide) (· + ·) (sources 1) (sources 2))
  case vadduwm =>
    exact leavesReversed_store
      (reversed_map₂ (show 4 ∣ 16 by decide) (· + ·) (sources 1) (sources 2))
  case vand => exact leavesReversed_store (reversed_bytes₂ (· &&& ·) (sources 1) (sources 2))
  case vandc128 => exact leavesReversed_store (reversed_andnotSi128 (sources 1) (sources 2))
  case vnor => exact leavesReversed_store (reversed_nor (sources 1) (sources 2))
  case vor =>
    rw [vmxStatements]
    split
    next => exact leavesReversed_store (reversed_bytes₂ (· ||| ·) (sources 1) (sources 2))
    next same =>
      -- Equal operands are loaded once.
      apply leavesReversed_store
      intro position inside
      have second := sources 2 position inside
      rw [vec, ← not_not.mp same] at second
      exact (sources 1 position inside).trans
        ((BitVec.or_self).symm.trans (congrArg _ ((sources 1 position inside).symm.trans second)))
  case vsel =>
    exact leavesReversed_store (reversed_sel (sources 1) (sources 2) (sources 3))
  case vxor =>
    rw [vmxStatements]
    split
    next => exact leavesReversed_store (reversed_bytes₂ (· ^^^ ·) (sources 1) (sources 2))
    next same =>
      apply leavesReversed_store
      intro position inside
      have second := sources 2 position inside
      rw [vec, ← not_not.mp same] at second
      exact (BitVec.xor_self).symm.trans
        (congrArg _ ((sources 1 position inside).symm.trans second))
  case vmaxsh =>
    exact leavesReversed_store
      (reversed_signedMap₂ (show 2 ∣ 16 by decide) max (sources 1) (sources 2))
  case vmaxsw =>
    exact leavesReversed_store
      (reversed_signedMap₂ (show 4 ∣ 16 by decide) max (sources 1) (sources 2))
  case vminsh =>
    exact leavesReversed_store
      (reversed_signedMap₂ (show 2 ∣ 16 by decide) min (sources 1) (sources 2))
  case vmrghb =>
    exact leavesReversed_store (reversed_interleave (.inl rfl) (by decide) (sources 1) (sources 2))
  case vmrghh =>
    exact leavesReversed_store
      (reversed_interleave (.inr (.inl rfl)) (by decide) (sources 1) (sources 2))
  case vmrghw =>
    exact leavesReversed_store
      (reversed_interleave (.inr (.inr rfl)) (by decide) (sources 1) (sources 2))
  case vmrglb =>
    exact leavesReversed_store (reversed_interleave (.inl rfl) (by decide) (sources 1) (sources 2))
  case vmrglh =>
    exact leavesReversed_store
      (reversed_interleave (.inr (.inl rfl)) (by decide) (sources 1) (sources 2))
  case vmrglw =>
    exact leavesReversed_store
      (reversed_interleave (.inr (.inr rfl)) (by decide) (sources 1) (sources 2))
  case vperm =>
    exact leavesReversed_store (reversed_permEpi8 (sources 1) (sources 2) (sources 3))
  case vpermwi128 =>
    have selects := permwi_selects (operand 2)
    exact leavesReversed_store (@reversed_shuffleEpi32 _ _ _
      (fun word => (operand 2).toNat / 4 ^ (3 - word) % 4)
      (fun index below => (selects index below).trans (by
        simp only [show 3 - (3 - index) = index by omega]))
      (fun _ _ => Nat.mod_lt _ (by decide)) (sources 1))
  case vpkshss =>
    exact @leavesReversed_packLanes operand before v .vpkshss float .s16 .s32 .s8 _
      (fun _ => separate rfl) rfl (by decide) (by decide) rfl
      (fun store _ fits => eval_bounded_temp store (.inl rfl) (.inl rfl) (by decide) (by decide)
        (by decide) (by decide) fits) sources
  case vpkshus => exact leavesReversed_store (reversed_packusEpi16 (sources 1) (sources 2))
  case vpkswss =>
    exact @leavesReversed_packLanes operand before v .vpkswss float .s32 .s64 .s16 _
      (fun _ => separate rfl) rfl (by decide) (by decide) rfl
      (fun store _ fits => eval_bounded_temp store (.inr rfl) (.inr rfl) (by decide) (by decide)
        (by decide) (by decide) fits) sources
  case vpkswus =>
    exact @leavesReversed_packLanes operand before v .vpkswus float .s32 .s64 .u16 _
      (fun _ => separate rfl) rfl (by decide) (by decide) rfl
      (fun store _ fits => eval_bounded_temp store (.inr rfl) (.inr rfl) (by decide) (by decide)
        (by decide) (by decide) fits) sources
  case vpkuhus128 =>
    exact @leavesReversed_packLanes operand before v .vpkuhus128 float .u16 .u32 .u8 _
      (fun _ => separate rfl) rfl (by decide) (by decide) rfl
      (fun store _ fits => eval_boundedAbove store fits) sources
  case vpkuwum => exact @leavesReversed_vpkuwum operand before v float (separate rfl) sources
  case vrlh => exact @leavesReversed_vrlh operand before v float sources
  case vrlimi128 =>
    have few : (operand 3).toNat < 4 := encodes
    exact leavesReversed_store (reversed_blendPs (sources 0)
      (@reversed_shuffleEpi32 _ _ _ (fun word => (word + (operand 3).toNat) % 4)
        (shuffles_selects _ few) (fun _ _ => Nat.mod_lt _ (by decide)) (sources 1)))
  case vsl => exact leavesReversed_store (reversed_vsl (sources 1) (sources 2))
  case vslb =>
    exact @leavesReversed_shiftLeft operand before v .vslb float 1 3 rfl (by decide) rfl rfl
      (by decide) sources
  case vslh =>
    exact @leavesReversed_shiftLeft operand before v .vslh float 2 4 rfl (by decide) rfl rfl
      (by decide) sources
  case vslw =>
    exact @leavesReversed_shiftLeft operand before v .vslw float 4 5 rfl (by decide) rfl rfl
      (by decide) sources
  case vsldoi =>
    have few : (operand 3).toNat < 16 := encodes
    have shift : (16 - operand 3).toNat = 16 - (operand 3).toNat := by bv_omega
    have reversed := reversed_alignrEpi8 (Nat.le_of_lt few) (sources 1) (sources 2)
    rw [← shift] at reversed
    exact leavesReversed_store reversed
  case vspltb =>
    have few : (operand 2).toNat < 16 := encodes
    have index : (15 - operand 2).toNat = 15 - (operand 2).toNat := by bv_omega
    have reversed := @reversed_splat 1 (operand 2).toNat (15 - operand 2).toNat _ _ (.inl rfl) few
      (fun offset below => by
        obtain rfl : offset = 0 := by omega
        rw [index]
        omega) (sources 1)
    exact leavesReversed_store reversed
  case vsplth =>
    have few : (operand 2).toNat < 8 := encodes
    have reversed := @reversed_splat 2 (operand 2).toNat _ _ _ (.inr rfl) few
      (splth_selects (operand 2) few) (sources 1)
    exact leavesReversed_store reversed
  case vspltisb => exact leavesReversed_store (reversed_set1 (show 1 ∣ 16 by decide) (by decide) _)
  case vspltish => exact leavesReversed_store (reversed_set1 (show 2 ∣ 16 by decide) (by decide) _)
  case vspltisw => exact leavesReversed_store (reversed_set1 (show 4 ∣ 16 by decide) (by decide) _)
  case vspltw =>
    have few : (operand 2).toNat < 4 := encodes
    have selects := spltw_selects (operand 2) few
    exact leavesReversed_store (@reversed_shuffleEpi32 _ _ _ (fun _ => (operand 2).toNat)
      selects (fun _ _ => few) (sources 1))
  case vsr => exact leavesReversed_store (reversed_vsr (sources 1) (sources 2))
  case vsrab =>
    exact @leavesReversed_shiftRight operand before v .vsrab float .s8 3 rfl (by decide) rfl rfl
      (by decide) sources
  case vsrah =>
    exact @leavesReversed_shiftRight operand before v .vsrah float .s16 4 rfl (by decide) rfl rfl
      (by decide) sources
  case vsraw =>
    exact @leavesReversed_shiftRight operand before v .vsraw float .s32 5 rfl (by decide) rfl rfl
      (by decide) sources
  case vsrh =>
    exact @leavesReversed_shiftRight operand before v .vsrh float .u16 4 rfl (by decide) rfl rfl
      (by decide) sources
  case vsrw =>
    exact @leavesReversed_shiftRight operand before v .vsrw float .u32 5 rfl (by decide) rfl rfl
      (by decide) sources
  case vsububm => exact leavesReversed_store (reversed_bytes₂ (· - ·) (sources 1) (sources 2))
  case vsubuhm =>
    exact leavesReversed_store
      (reversed_map₂ (show 2 ∣ 16 by decide) (· - ·) (sources 1) (sources 2))
  case vsubuwm =>
    exact leavesReversed_store
      (reversed_map₂ (show 4 ∣ 16 by decide) (· - ·) (sources 1) (sources 2))
  case vupkhsb => exact leavesReversed_store (reversed_cvtepi8Epi16_high (sources 1))
  case vupkhsh => exact leavesReversed_store (reversed_cvtepi16Epi32_high (sources 1))
  case vupklsb => exact leavesReversed_store (reversed_cvtepi8Epi16_low (sources 1))
  case vupklsh => exact leavesReversed_store (reversed_cvtepi16Epi32_low (sources 1))

/-- The case of an instruction changes its destination and the temporary. -/
theorem vmx_frame {inst : VmxInst} {float : FloatOps} {before after : Store Object}
    (ran : VStatement.run before (vmxStatements (vectorNames operand) operand float inst) =
      some after) {object : Object} (notDestination : object ≠ .v (operand 0).toNat)
    (notTemp : object ≠ .temp) (notVTemp : object ≠ .vTemp) : after object = before object := by
  have stored {value : VExpr Object}
      (ran : VStatement.run before [.store (.v (operand 0).toNat) value] = some after) :
      after object = before object := by
    cases ran
    exact Store.storeVec_of_ne _ _ _ notDestination
  cases known : vectorInst inst with
  | some other =>
      rw [vmxStatements_eq _ _ known] at ran
      exact run_frame ran notDestination notTemp notVTemp fun record => absurd record (by decide)
  | none =>
      cases inst
      case vor | vxor =>
        rw [vmxStatements] at ran
        split at ran
        · exact stored ran
        · exact stored ran
      case vaddubm | vadduhm | vadduwm | vand | vandc128 | vmaxsh | vmaxsw | vminsh | vnor | vsel
        | vspltisb | vspltish | vspltisw | vsububm | vsubuhm | vsubuwm => exact stored ran
      all_goals cases known

end Cases

end UfcRecomp.Recompiler
