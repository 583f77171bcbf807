import UfcRecomp.Lib.CEval
import UfcRecomp.Recompiler.VectorRuns

/-!
# Formats of Direct3D

`vpkd3d128` packs the lanes of a vector into a word, and `vupkd3d128` makes lanes of a word. A lane
stands for a component by the last bits of a number of type `float`.
-/

namespace UfcRecomp.Recompiler

open UfcRecomp.Lib UfcRecomp.Lib.Simd UfcRecomp.Ppc

/-! ## Components -/

/-- The bits of something that is not a number. -/
def isNaN (bits : Nat) : Bool := bits &&& 0x7F800000 = 0x7F800000 && bits &&& 0x007FFFFF ≠ 0

/-- A component of `UINT_2101010` from the bits of a lane. -/
def component (nan high highest low lowest mask bits : Nat) : Nat :=
  if isNaN bits then nan
  else if (high : Int) < IntType.s32.wrap bits then highest
  else if IntType.s32.wrap bits < low then lowest
  else bits &&& mask

section Expressions

variable {κ : Type} {store : Store κ} {names : VectorNames κ} {bits : Nat}

theorem is_isNaN {place : Place κ} (type : place.type = .u32) (known : store.read place = bits)
    (fits : bits < 2 ^ 32) : Expr.Is store (VectorInst.isNaN place) .s32 (truth (isNaN bits)) := by
  have source : Expr.Is store (.read place) .u32 (bits : Int) :=
    known ▸ type ▸ Expr.Is.read place
  have masked : ∀ mask < 2 ^ 31, Expr.Is store (.read place &&& .hex mask) .u32
      ((bits &&& mask : Nat) : Int) := by
    intro mask small
    have large : mask < 2 ^ 32 := by omega
    exact source.and (Expr.Is.hex mask (if_pos small)) rfl (by decide) (holds_u32 fits)
      (holds_u32 large)
  have below : ∀ mask < 2 ^ 31, bits &&& mask < 2 ^ 32 := by
    intro mask small
    have under : bits &&& mask ≤ mask := Nat.and_le_right
    omega
  have exponent := (masked 0x7F800000 (by decide)).eq (Expr.Is.hex 0x7F800000 rfl) rfl
    (holds_u32 (below _ (by decide))) (holds_u32 (by decide))
  have fraction := (masked 0x007FFFFF (by decide)).ne (Expr.Is.decimal (by decide)) rfl
    (holds_u32 (below _ (by decide))) (holds_u32 (show 0 < 2 ^ 32 by decide))
  apply (exponent.both fraction).congr
  rw [isNaN]
  congr 2
  · exact decide_eq_decide.mpr Int.ofNat_inj
  · exact decide_eq_decide.mpr (not_congr Int.ofNat_inj)

theorem is_packComponent {nan high highest low lowest mask : Nat}
    (known : store.read (VectorInst.temp names .u32) = bits) (fits : bits < 2 ^ 32)
    (small : nan < 2 ^ 31 ∧ high < 2 ^ 31 ∧ highest < 2 ^ 31 ∧ low < 2 ^ 31 ∧ lowest < 2 ^ 31 ∧
      mask < 2 ^ 31) :
    Expr.Is store (VectorInst.packComponent names nan high highest low lowest mask) .u32
      (component nan high highest low lowest mask bits : Nat) := by
  obtain ⟨nanSmall, highSmall, highestSmall, lowSmall, lowestSmall, maskSmall⟩ := small
  have widen : ∀ number < 2 ^ 31, IntType.u32.Holds ((number : Nat) : Int) :=
    fun number below => holds_u32 (by omega)
  have constant : ∀ number < 2 ^ 31, Expr.Is store (.hex number : Expr κ) .s32 (number : Int) :=
    fun number below => Expr.Is.hex number (if_pos below)
  have word : Expr.Is store (.read (VectorInst.temp names .u32)) .u32 (bits : Int) :=
    known ▸ Expr.Is.read _
  have signed : Expr.Is store (.read (VectorInst.temp names .s32)) .s32
      (IntType.s32.wrap (bits : Int)) := by
    apply (Expr.Is.read (VectorInst.temp names .s32)).congr
    rw [← known]
    exact Store.read_narrow (Nat.le_refl _)
  have within : IntType.s32.Holds (IntType.s32.wrap (bits : Int)) := IntType.holds_wrap _ _
  have masked := word.and (constant mask maskSmall) rfl (by decide) (holds_u32 fits)
    (widen mask maskSmall)
  have maskedFits : IntType.u32.Holds ((bits &&& mask : Nat) : Int) :=
    holds_u32 (Nat.lt_of_le_of_lt Nat.and_le_left fits)
  have lower := (signed.lt (constant low lowSmall) rfl within (holds_s32 lowSmall)).choose
    (constant lowest lowestSmall) masked rfl (widen _ lowestSmall) maskedFits
  have lowerFits : IntType.u32.Holds (if decide (IntType.s32.wrap (bits : Int) < (low : Int))
      then (lowest : Int) else ((bits &&& mask : Nat) : Int)) := by
    split
    · exact widen _ lowestSmall
    · exact maskedFits
  have upper := (signed.gt (constant high highSmall) rfl within (holds_s32 highSmall)).choose
    (constant highest highestSmall) lower rfl (widen _ highestSmall) lowerFits
  have upperFits : IntType.u32.Holds (if decide ((high : Int) < IntType.s32.wrap (bits : Int))
      then (highest : Int) else if decide (IntType.s32.wrap (bits : Int) < (low : Int))
      then (lowest : Int) else ((bits &&& mask : Nat) : Int)) := by
    split
    · exact widen _ highestSmall
    · exact lowerFits
  have whole := (is_isNaN rfl known fits).choose (constant nan nanSmall) upper rfl
    (widen _ nanSmall) upperFits
  apply whole.congr
  rw [component]
  split_ifs <;> simp_all

end Expressions

/-! ## Packing `UINT_2101010` -/

/-- What `UINT_2101010` makes of the bits of a lane: the first three components have ten bits, and
the last one has two. -/
def uintComponent (index bits : Nat) : Nat :=
  if index < 3 then component 0x200 0x404001FF 0x1FF 0x403FFE01 0x201 0x3FF bits
  else component 0 0x40400003 3 0x40400000 0 3 bits

theorem component_lt {nan high highest low lowest mask bits bound : Nat}
    (small : nan < bound ∧ highest < bound ∧ lowest < bound ∧ mask < bound) :
    component nan high highest low lowest mask bits < bound := by
  have masked : bits &&& mask ≤ mask := Nat.and_le_right
  unfold component
  split_ifs <;> omega

/-- The word with some components. -/
def wordOf (part : Nat → Nat) : Nat :=
  part 0 + part 1 * 2 ^ 10 + part 2 * 2 ^ 20 + part 3 * 2 ^ 30

/-- The last component has two bits, and the others have ten. -/
def Fits (part : Nat → Nat) : Prop := ∀ index, part index < if index < 3 then 2 ^ 10 else 2 ^ 2

theorem Fits.bounds {part : Nat → Nat} (fits : Fits part) :
    part 0 < 2 ^ 10 ∧ part 1 < 2 ^ 10 ∧ part 2 < 2 ^ 10 ∧ part 3 < 2 ^ 2 :=
  ⟨fits 0, fits 1, fits 2, fits 3⟩

/-- The components of a vector; the first one is in its last lane. -/
def uintComponents (source : Vec) (index : Nat) : Nat :=
  uintComponent index (Vec.lane 4 source (3 - index))

theorem fits_uintComponents (source : Vec) : Fits (uintComponents source) := by
  intro index
  unfold uintComponents uintComponent
  split
  · exact component_lt (by decide)
  · exact component_lt (by decide)

/-- The statements for a component. -/
def componentBlock (i : Nat) : List (CStatement VectorRole) :=
  [ .assign (VectorInst.temp roleNames .u32) (.read (VectorInst.elem roleNames .u32 1 (3 - i))),
    .assign (VectorInst.vTemp roleNames .u32 i)
      (if i < 3 then VectorInst.packComponent roleNames 0x200 0x404001FF 0x1FF 0x403FFE01 0x201 0x3FF
      else VectorInst.packComponent roleNames 0 0x40400003 3 0x40400000 0 3) ]

theorem assignsLane_component (store : Store VectorRole) (i : Nat) :
    AssignsLane store .vTemp [.temp] 4 i (uintComponents (store (.v 1)) i) (componentBlock i) := by
  have bound := Vec.lane_lt 4 (store (.v 1)) (3 - i)
  apply assignsLane_assign₂ (List.mem_singleton_self _) (by decide) rfl
  · exact congrArg some (read_elem 4 1 (3 - i))
  · intro before
    have known : (before.write ⟨.temp, 0, .u32⟩ (Vec.lane 4 (store (.v 1)) (3 - i) : Int)).read
        (VectorInst.temp roleNames .u32) = Vec.lane 4 (store (.v 1)) (3 - i) :=
      (Store.read_write _).trans (holds_u32 bound)
    unfold uintComponents uintComponent
    split
    · exact (is_packComponent known bound (by decide)).eval_eq
    · exact (is_packComponent known bound (by decide)).eval_eq

/-- The components in the temporary make a word. -/
theorem is_wordOf {store : Store VectorRole} {part : Nat → Nat}
    (lanes : ∀ i < 4, Vec.lane 4 (store .vTemp) i = part i)
    (fits : Fits part) :
    Expr.Is store (.read (VectorInst.vTemp roleNames .u32 0) |||
      (.read (VectorInst.vTemp roleNames .u32 1) <<< .decimal 10) |||
      (.read (VectorInst.vTemp roleNames .u32 2) <<< .decimal 20) |||
      (.read (VectorInst.vTemp roleNames .u32 3) <<< .decimal 30)) .u32 (wordOf part : Nat) := by
  have bounds := fits.bounds
  have value : ∀ i < 4, Expr.Is store (.read (VectorInst.vTemp roleNames .u32 i)) .u32
      (part i : Int) := by
    intro i below
    apply (Expr.Is.read (VectorInst.vTemp roleNames .u32 i)).congr
    rw [← lanes i below]
    exact Vec.typed_unsigned 4 _ i
  have shifted : ∀ i < 4, ∀ count < 32, part i * 2 ^ count < 2 ^ 32 →
      Expr.Is store (.read (VectorInst.vTemp roleNames .u32 i) <<< .decimal count) .u32
        ((part i * 2 ^ count : Nat) : Int) := by
    intro i below count few fits
    apply ((value i below).shiftLeft (Expr.Is.decimal (by omega)) rfl few).congr
    exact_mod_cast holds_u32 fits
  have low := (value 0 (by decide)).or (shifted 1 (by decide) 10 (by decide) (by omega)) rfl
    (by decide) (holds_u32 (by omega)) (holds_u32 (by omega))
  rw [or_shifted (by omega)] at low
  have middle := low.or (shifted 2 (by decide) 20 (by decide) (by omega)) rfl (by decide)
    (holds_u32 (by omega)) (holds_u32 (by omega))
  rw [or_shifted (by omega)] at middle
  have whole := middle.or (shifted 3 (by decide) 30 (by decide) (by omega)) rfl (by decide)
    (holds_u32 (by omega)) (holds_u32 (by omega))
  rw [or_shifted (by omega)] at whole
  exact whole

theorem wordOf_lt {part : Nat → Nat} (fits : Fits part) : wordOf part < 2 ^ 32 := by
  have bounds := fits.bounds
  unfold wordOf
  omega

section Runs

variable {operand : Nat → Word} {float : FloatOps} {record : Bool} {before : Store Object}

theorem exists_run_packInt2101010 (format : (operand 2).toNat = 3)
    (inside : (operand 4).toNat < 4) :
    ∃ after, VStatement.run before
        (VectorInst.vpkd3d128.statements (vectorNames operand) operand float record) = some after ∧
      Vec.lane 4 (vec after operand 0) (operand 4).toNat =
        wordOf (uintComponents (vec before operand 1)) := by
  have fits := fits_uintComponents (vec before operand 1)
  obtain ⟨middle, ran, -, lanes⟩ := run_blocks_of_lt (fun _ _ _ _ same => same)
    (fun i (_ : i < 4) => assignsLane_component (contents before operand) i) fun i _ => by
      have bound := fits i
      split at bound <;> exact Nat.lt_trans bound (by decide)
  obtain ⟨made, assigned, -, lane⟩ := @run_assignElem _ .u32 (operand 4).toNat _ _ (by
    simp only; omega) (is_wordOf lanes fits).eval_eq (wordOf_lt fits)
  have whole : VStatement.run (contents before operand)
      (VectorInst.vpkd3d128.statements roleNames operand float record) = some made := by
    have printed : VectorInst.packInt2101010 roleNames operand =
        ((List.range 4).flatMap componentBlock).map .scalar ++ [VectorInst.assignElem roleNames .u32
          (operand 4).toNat _] := rfl
    rw [VectorInst.statements, format, VectorInst.packD3D, printed, VStatement.run_append,
      VStatement.run_map_scalar, ran]
    exact assigned
  obtain ⟨after, run, destination⟩ := exists_run_of_roles (by simp [VectorInst.packs]) whole
  exact ⟨after, run, by rw [destination, lane, if_pos rfl]; rfl⟩

end Runs

/-! ## Unpacking `UINT_2101010` -/

/-- The components of a word. -/
def componentsOf (word index : Nat) : Nat :=
  word / 2 ^ (10 * index) % if index < 3 then 2 ^ 10 else 2 ^ 2

/-- A component of ten bits, with a sign. -/
def signedComponent (part : Nat) : Int := if part < 512 then part else part - 1024

/-- What is added to the bits of three for a component. -/
def unpackedComponent (word index : Nat) : Int :=
  if index < 3 then max (-511) (signedComponent (componentsOf word index))
  else componentsOf word index

theorem componentsOf_lt (word index : Nat) :
    componentsOf word index < if index < 3 then 2 ^ 10 else 2 ^ 2 := by
  unfold componentsOf
  split <;> exact Nat.mod_lt _ (by decide)

theorem unpackedComponent_bounds (word index : Nat) :
    -511 ≤ unpackedComponent word index ∧ unpackedComponent word index ≤ 511 := by
  have bound := componentsOf_lt word index
  unfold unpackedComponent signedComponent
  split_ifs at * <;> omega

/-- The statements for a lane. -/
def unpackBlock (i : Nat) : List (CStatement VectorRole) :=
  let component : Expr VectorRole := .read (VectorInst.vTemp roleNames .s32 (3 - i))
  if i < 3 then
    [ .assign (VectorInst.vTemp roleNames .s32 (3 - i))
        (.convert .s32 (.read (VectorInst.temp roleNames .u32) <<< .decimal (22 - i * 10)) >>>
          .decimal 22),
      .assign (VectorInst.vTemp roleNames .u32 (3 - i)) (.literal .u32 0x40400000 + .convert .u32
        (.choose (.binary .lt component (.signedDecimal (-511))) (.signedDecimal (-511))
          component)) ]
  else
    [ .assign (VectorInst.vTemp roleNames .u32 (3 - i))
        (.literal .u32 0x40400000 + (.read (VectorInst.temp roleNames .u32) >>> .decimal 30)) ]

/-- The bits of a component, moved to the top of a word and down again. -/
theorem wrap_shifted {word index : Nat} (first : index < 3) :
    IntType.s32.wrap (IntType.u32.wrap ((word : Int) * 2 ^ (22 - index * 10))) / 2 ^ 22 =
      signedComponent (componentsOf word index) := by
  rw [IntType.wrap_signed, IntType.wrap_unsigned, componentsOf, signedComponent, if_pos first]
  have cases : index = 0 ∨ index = 1 ∨ index = 2 := by omega
  rcases cases with rfl | rfl | rfl <;> simp <;> split_ifs <;> omega

theorem assignsLane_unpack {store : Store VectorRole} {word i : Nat}
    (known : store.read (VectorInst.temp roleNames .u32) = word) (fits : word < 2 ^ 32)
    (inside : i < 4) :
    AssignsLane store .vTemp [] 4 (3 - i) (0x40400000 + unpackedComponent word i)
      (unpackBlock i) := by
  have source : Expr.Is store (.read (VectorInst.temp roleNames .u32)) .u32 (word : Int) :=
    known ▸ Expr.Is.read _
  have bounds := unpackedComponent_bounds word i
  unfold unpackBlock
  split
  next first =>
    have part := componentsOf_lt word i
    rw [if_pos first] at part
    have shifted : Expr.Is store _ .u32 (IntType.u32.wrap ((word : Int) * 2 ^ (22 - i * 10))) :=
      source.shiftLeft (Expr.Is.decimal (by omega)) rfl (show 22 - i * 10 < 32 by omega)
    have signed : Expr.Is store _ .s32
        (IntType.s32.wrap (IntType.u32.wrap ((word : Int) * 2 ^ (22 - i * 10))) / 2 ^ 22) :=
      (shifted.convert .s32).shiftRight (Expr.Is.decimal (by decide)) rfl (by decide)
    rw [wrap_shifted first] at signed
    apply assignsLane_update rfl signed.eval_eq
    intro before
    have component : Expr.Is (before.write ⟨.vTemp, 4 * (3 - i), ⟨4, true⟩⟩
        (signedComponent (componentsOf word i)))
        (.read (VectorInst.vTemp roleNames .s32 (3 - i))) .s32
        (signedComponent (componentsOf word i)) := by
      apply (Expr.Is.read _).congr
      apply (Store.read_write _).trans
      unfold signedComponent
      exact (IntType.holds_s32_iff _).mpr (by split_ifs <;> omega)
    have low : IntType.s32.Holds (-511) := by decide
    have held : IntType.s32.Holds (signedComponent (componentsOf word i)) := by
      unfold signedComponent
      exact (IntType.holds_s32_iff _).mpr (by split_ifs <;> omega)
    have bounded := (component.lt (Expr.Is.signedDecimal (by decide) (by decide)) rfl held
      low).choose (Expr.Is.signedDecimal (by decide) (by decide)) component rfl low held
    have converted := bounded.convert .u32
    have sum : Expr.Is _ _ ⟨4, false⟩ ((0x40400000 + IntType.u32.wrap _) % 2 ^ (8 * 4)) :=
      (Expr.Is.literal .u32 0x40400000).add_unsigned converted rfl (by decide)
        (IntType.holds_wrap _ _)
    refine sum.eval_eq.trans (congrArg some ?_)
    have chosen : (if decide (signedComponent (componentsOf word i) < -511) = true then -511
        else signedComponent (componentsOf word i)) = unpackedComponent word i := by
      rw [unpackedComponent, if_pos first]
      simp only [decide_eq_true_eq]
      omega
    rw [chosen, IntType.wrap_unsigned]
    omega
  next last =>
    have shifted := source.shiftRight (Expr.Is.decimal (show 30 < 2 ^ 31 by decide)) rfl (by decide)
    have value : (word : Int) / 2 ^ 30 = unpackedComponent word i := by
      have same : i = 3 := by omega
      subst same
      unfold unpackedComponent componentsOf
      norm_num
      omega
    rw [value] at shifted
    have nonneg : 0 ≤ unpackedComponent word i := by
      rw [← value]
      omega
    have sum := (Expr.Is.literal .u32 0x40400000).add shifted rfl (by decide)
      ((IntType.holds_iff (by decide) _).mpr ⟨nonneg, by
        show unpackedComponent word i ≤ 2 ^ 32 - 1
        omega⟩)
      ((IntType.holds_iff (by decide) _).mpr ⟨by
        show 0 ≤ _
        omega, by
        show _ ≤ (2 : Int) ^ 32 - 1
        omega⟩)
    exact assignsLane_assign rfl sum.eval_eq

section Runs

variable {operand : Nat → Word} {float : FloatOps} {record : Bool} {before : Store Object}

/-- The lanes of a copy. -/
theorem run_copy (store : Store VectorRole) :
    ∃ after, CStatement.run store [.copy (.v 0) .vTemp] = some after ∧
      after (.v 0) = store .vTemp :=
  ⟨_, rfl, Function.update_self _ _ _⟩

theorem exists_run_unpackInt2101010 (format : (operand 2 >>> 2).toNat = 3) :
    ∃ after, VStatement.run before
        (VectorInst.vupkd3d128.statements (vectorNames operand) operand float record) = some after ∧
      ∀ i < 4, (Vec.lane 4 (vec after operand 0) (3 - i) : Int) =
        0x40400000 + unpackedComponent (Vec.lane 4 (vec before operand 1) 0) i := by
  have small := Vec.lane_lt 4 (vec before operand 1) 0
  let loaded := (contents before operand).write (VectorInst.temp roleNames .u32)
    (Vec.lane 4 (vec before operand 1) 0)
  have known : loaded.read (VectorInst.temp roleNames .u32) = Vec.lane 4 (vec before operand 1) 0 :=
    (Store.read_write _).trans (holds_u32 small)
  obtain ⟨middle, ran, -, lanes, -⟩ := run_blocks (by omega)
    fun i (inside : i < 4) => assignsLane_unpack known small inside
  obtain ⟨made, copied, destination⟩ := run_copy middle
  have whole : VStatement.run (contents before operand)
      (VectorInst.vupkd3d128.statements roleNames operand float record) = some made := by
    have printed : VectorInst.unpackInt2101010 roleNames =
        .assign (VectorInst.temp roleNames .u32) (.read (VectorInst.elem roleNames .u32 1 0)) ::
          ((List.range 4).flatMap unpackBlock ++ [.copy (.v 0) .vTemp]) := rfl
    have first : (Expr.read (VectorInst.elem roleNames .u32 1 0)).eval (contents before operand) =
        some (Vec.lane 4 (vec before operand 1) 0 : Int) := congrArg some (read_elem 4 1 0)
    rw [VectorInst.statements, format, VectorInst.unpackD3D, VStatement.run_map_scalar, printed,
      CStatement.run_cons, CStatement.step, first, Option.map_some, Option.bind_some,
      CStatement.run_append, ran, Option.bind_some, copied]
  obtain ⟨after, run, same⟩ := exists_run_of_roles (by simp [VectorInst.packs]) whole
  refine ⟨after, run, fun i inside => ?_⟩
  have bounds := unpackedComponent_bounds (Vec.lane 4 (vec before operand 1) 0) i
  have lane := lanes i inside
  rw [Int.emod_eq_of_lt (by omega) (by omega)] at lane
  rw [same, destination, lane]

/-! ## Colors -/

/-- The byte of a color that goes into a lane. -/
def colorByte (i : Nat) : Nat := (i + 3) % 4

theorem assignsLane_color (store : Store VectorRole) (i : Nat) :
    AssignsLane store .vTemp [] 4 i (0x3F800000 + (store (.v 1) (colorByte i)).toNat : Nat)
      [.assign (VectorInst.vTemp roleNames .u32 i)
        (.read (VectorInst.elem roleNames .u8 1 (colorByte i)) ||| .hex 0x3F800000)] := by
  have byte : Expr.Is store (.read (VectorInst.elem roleNames .u8 1 (colorByte i))) .u8
      ((store (.v 1) (colorByte i)).toNat : Int) := by
    apply (Expr.Is.read _).congr
    exact (read_elem 1 1 (colorByte i)).trans (congrArg Nat.cast (Vec.lane_one _ _))
  have bound := (store (.v 1) (colorByte i)).isLt
  have either : Expr.Is store _ .s32 _ := byte.or (Expr.Is.hex 0x3F800000 rfl) rfl (by decide)
    (holds_s32 (by omega)) (holds_s32 (by decide))
  rw [Nat.or_comm, show 0x3F800000 = 2 ^ 8 * 0x3F8000 by decide,
    ← Nat.two_pow_add_eq_or_of_lt bound] at either
  exact assignsLane_assign rfl either.eval_eq

theorem exists_run_unpackColor (format : (operand 2 >>> 2).toNat = 0) :
    ∃ after, VStatement.run before
        (VectorInst.vupkd3d128.statements (vectorNames operand) operand float record) = some after ∧
      ∀ i < 4, Vec.lane 4 (vec after operand 0) i =
        0x3F800000 + (vec before operand 1 (colorByte i)).toNat := by
  obtain ⟨middle, ran, -, lanes⟩ := run_blocks_of_lt (fun _ _ _ _ same => same)
    (fun i (_ : i < 4) => assignsLane_color (contents before operand) i) fun i _ => by
      have bound := (contents before operand (.v 1) (colorByte i)).isLt
      omega
  obtain ⟨made, copied, destination⟩ := run_copy middle
  have whole : VStatement.run (contents before operand)
      (VectorInst.vupkd3d128.statements roleNames operand float record) = some made := by
    have printed : VectorInst.unpackColor roleNames =
        ((List.range 4).flatMap fun i => [.assign (VectorInst.vTemp roleNames .u32 i)
          (.read (VectorInst.elem roleNames .u8 1 (colorByte i)) ||| .hex 0x3F800000)]) ++
          [.copy (.v 0) .vTemp] := rfl
    rw [VectorInst.statements, format, VectorInst.unpackD3D, VStatement.run_map_scalar, printed,
      CStatement.run_append, ran, Option.bind_some, copied]
  obtain ⟨after, run, same⟩ := exists_run_of_roles (by simp [VectorInst.packs]) whole
  refine ⟨after, run, fun i inside => ?_⟩
  rw [same, destination, lanes i inside]
  rfl

/-- The color that the lowest bytes of the lanes make. -/
def packedColor (source : Vec) : Nat :=
  (source 4).toNat + (source 8).toNat * 2 ^ 8 + (source 12).toNat * 2 ^ 16 +
    (source 0).toNat * 2 ^ 24

theorem packedColor_lt (source : Vec) : packedColor source < 2 ^ 32 := by
  have bound := fun position => (source position).isLt
  have first := bound 0
  have second := bound 4
  have third := bound 8
  have fourth := bound 12
  unfold packedColor
  omega

theorem movedByte_lt (byte : Byte) {shift : Nat} (few : shift ≤ 24) :
    byte.toNat * 2 ^ shift < 2 ^ 32 :=
  calc byte.toNat * 2 ^ shift < 2 ^ 8 * 2 ^ shift :=
        Nat.mul_lt_mul_of_pos_right byte.isLt (Nat.two_pow_pos shift)
    _ = 2 ^ (8 + shift) := (Nat.pow_add 2 8 shift).symm
    _ ≤ 2 ^ 32 := Nat.pow_le_pow_right (by decide) (by omega)

/-- A byte that is moved to its place in a color. -/
def movedByte (i shift : Nat) : Expr VectorRole :=
  .convert .u32 (.read (VectorInst.elem roleNames .u8 1 (i * 4))) <<< .decimal shift

theorem is_movedByte {store : Store VectorRole} (i : Nat) {shift : Nat} (few : shift ≤ 24) :
    Expr.Is store (movedByte i shift) .u32 ((store (.v 1) (i * 4)).toNat * 2 ^ shift : Nat) := by
  have bound := (store (.v 1) (i * 4)).isLt
  have byte : Expr.Is store (.read (VectorInst.elem roleNames .u8 1 (i * 4))) .u8
      ((store (.v 1) (i * 4)).toNat : Int) := by
    apply (Expr.Is.read _).congr
    exact (read_elem 1 1 (i * 4)).trans (congrArg Nat.cast (Vec.lane_one _ _))
  have moved : Expr.Is store (movedByte i shift) .u32
      (IntType.u32.wrap (IntType.u32.wrap (store (.v 1) (i * 4)).toNat * 2 ^ shift)) :=
    (byte.convert .u32).shiftLeft (Expr.Is.decimal (by omega)) rfl (show shift < 32 by omega)
  apply moved.congr
  rw [show IntType.u32.wrap _ = _ from holds_u32 (show (store (.v 1) (i * 4)).toNat < 2 ^ 32 by
    omega)]
  exact_mod_cast holds_u32 (movedByte_lt (store (.v 1) (i * 4)) few)

/-- A byte that is added to the color in the temporary. -/
theorem step_addByte {store : Store VectorRole} {source : Vec} {color : Nat} (i : Nat) {shift : Nat}
    (few : shift ≤ 24) (holds : store (.v 1) = source)
    (known : store.read (VectorInst.temp roleNames .u32) = color) (fits : color < 2 ^ 32) :
    ∃ after, CStatement.step store (.assign (VectorInst.temp roleNames .u32)
        (.read (VectorInst.temp roleNames .u32) ||| movedByte i shift)) = some after ∧
      after (.v 1) = source ∧
      after.read (VectorInst.temp roleNames .u32) =
        (color ||| (source (i * 4)).toNat * 2 ^ shift : Nat) ∧
      color ||| (source (i * 4)).toNat * 2 ^ shift < 2 ^ 32 := by
  subst holds
  have small := movedByte_lt (store (.v 1) (i * 4)) few
  have whole := Nat.or_lt_two_pow fits small
  have current : Expr.Is store (.read (VectorInst.temp roleNames .u32)) .u32 (color : Int) :=
    known ▸ Expr.Is.read _
  have either := current.or (is_movedByte i few) rfl (by decide) (holds_u32 fits) (holds_u32 small)
  refine ⟨_, by rw [CStatement.step, either.eval_eq, Option.map_some], ?_, ?_, whole⟩
  · exact Store.write_of_ne (by decide)
  · exact (Store.read_write _).trans (holds_u32 whole)

/-- The bits of the bytes are apart. -/
theorem or_movedBytes (source : Vec) :
    (source (0 * 4)).toNat * 2 ^ 24 ||| (source (1 * 4)).toNat * 2 ^ 0 |||
      (source (2 * 4)).toNat * 2 ^ 8 ||| (source (3 * 4)).toNat * 2 ^ 16 = packedColor source := by
  have first := (source 4).isLt
  have second := (source 8).isLt
  have third := (source 12).isLt
  have low := or_shifted first (source 8).toNat
  have middle := or_shifted (show (source 4).toNat + (source 8).toNat * 2 ^ 8 < 2 ^ 16 by omega)
    (source 12).toNat
  have whole := or_shifted (show (source 4).toNat + (source 8).toNat * 2 ^ 8 +
    (source 12).toNat * 2 ^ 16 < 2 ^ 24 by omega) (source 0).toNat
  calc (source (0 * 4)).toNat * 2 ^ 24 ||| (source (1 * 4)).toNat * 2 ^ 0 |||
        (source (2 * 4)).toNat * 2 ^ 8 ||| (source (3 * 4)).toNat * 2 ^ 16
      = (source 4).toNat ||| (source 8).toNat * 2 ^ 8 ||| (source 12).toNat * 2 ^ 16 |||
        (source 0).toNat * 2 ^ 24 := by
        rw [pow_zero, Nat.mul_one]
        ac_rfl
    _ = packedColor source := by rw [low, middle, whole, packedColor]

theorem exists_run_packColor (format : (operand 2).toNat = 0) (inside : (operand 4).toNat < 4) :
    ∃ after, VStatement.run before
        (VectorInst.vpkd3d128.statements (vectorNames operand) operand float record) = some after ∧
      Vec.lane 4 (vec after operand 0) (operand 4).toNat =
        packedColor (vec before operand 1) := by
  have small := movedByte_lt (vec before operand 1 (0 * 4)) (Nat.le_refl 24)
  have first : (movedByte 0 24).eval (contents before operand) =
      some (((vec before operand 1 (0 * 4)).toNat * 2 ^ 24 : Nat) : Int) :=
    (is_movedByte 0 (Nat.le_refl 24)).eval_eq
  obtain ⟨store₀, loaded, holds₀, known₀⟩ : ∃ after, CStatement.step (contents before operand)
      (.assign (VectorInst.temp roleNames .u32) (movedByte 0 24)) = some after ∧
      after (.v 1) = vec before operand 1 ∧ after.read (VectorInst.temp roleNames .u32) =
        ((vec before operand 1 (0 * 4)).toNat * 2 ^ 24 : Nat) :=
    ⟨_, by rw [CStatement.step, first, Option.map_some],
      Store.write_of_ne (show VectorRole.v 1 ≠ .temp by decide),
      (Store.read_write _).trans (holds_u32 small)⟩
  obtain ⟨store₁, step₁, holds₁, known₁, fits₁⟩ := step_addByte 1 (by decide : 0 ≤ 24) holds₀ known₀
    small
  obtain ⟨store₂, step₂, holds₂, known₂, fits₂⟩ := step_addByte 2 (by decide : 8 ≤ 24) holds₁ known₁
    fits₁
  obtain ⟨store₃, step₃, -, known₃, -⟩ := step_addByte 3 (by decide : 16 ≤ 24) holds₂ known₂ fits₂
  rw [or_movedBytes] at known₃
  have last : (Expr.read (VectorInst.temp roleNames .u32)).eval store₃ =
      some (packedColor (vec before operand 1) : Int) := congrArg some known₃
  obtain ⟨made, assigned, -, lane⟩ := @run_assignElem _ .u32 (operand 4).toNat _ _ (by
    simp only; omega) last (packedColor_lt _)
  have whole : VStatement.run (contents before operand)
      (VectorInst.vpkd3d128.statements roleNames operand float record) = some made := by
    have printed : VectorInst.packColor roleNames operand =
        .scalar (.assign (VectorInst.temp roleNames .u32) (movedByte 0 24)) ::
        .scalar (.assign (VectorInst.temp roleNames .u32)
          (.read (VectorInst.temp roleNames .u32) ||| movedByte 1 0)) ::
        .scalar (.assign (VectorInst.temp roleNames .u32)
          (.read (VectorInst.temp roleNames .u32) ||| movedByte 2 8)) ::
        .scalar (.assign (VectorInst.temp roleNames .u32)
          (.read (VectorInst.temp roleNames .u32) ||| movedByte 3 16)) ::
        [VectorInst.assignElem roleNames .u32 (operand 4).toNat
          (.read (VectorInst.temp roleNames .u32))] := rfl
    rw [VectorInst.statements, format, VectorInst.packD3D, printed, VStatement.run_cons,
      VStatement.step, loaded, Option.bind_some, VStatement.run_cons, VStatement.step, step₁,
      Option.bind_some, VStatement.run_cons, VStatement.step, step₂, Option.bind_some,
      VStatement.run_cons, VStatement.step, step₃, Option.bind_some, assigned]
  obtain ⟨after, run, destination⟩ := exists_run_of_roles (by simp [VectorInst.packs]) whole
  exact ⟨after, run, by rw [destination, lane, if_pos rfl]⟩

end Runs

/-! ## Numbers and components -/

theorem isNaN_iff (bits : Nat) :
    isNaN bits = true ↔ bits / 2 ^ 23 % 2 ^ 8 = 255 ∧ bits % 2 ^ 23 ≠ 0 := by
  have exponent := and_field bits 23 8
  have fraction := and_field bits 0 23
  norm_num at exponent fraction
  rw [isNaN, exponent, fraction]
  simp only [Bool.and_eq_true, decide_eq_true_eq]
  omega

/-- How far the bits of a lane are from those of three. -/
def encoded (bits : Nat) : Int := IntType.s32.wrap bits - 0x40400000

/-- The number of a component. -/
def componentValue (index part : Nat) : Int := if index < 3 then signedComponent part else part

/-- The smallest and the largest number of a component. -/
def lowest (index : Nat) : Int := if index < 3 then -511 else 0
def highest (index : Nat) : Int := if index < 3 then 511 else 3

theorem componentValue_uintComponent (index : Nat) {bits : Nat} (below : bits < 2 ^ 32)
    (number : isNaN bits = false) :
    componentValue index (uintComponent index bits) =
      clamp (lowest index) (highest index) (encoded bits) := by
  have tens := Nat.and_two_pow_sub_one_eq_mod bits 10
  have twos := Nat.and_two_pow_sub_one_eq_mod bits 2
  norm_num at tens twos
  unfold componentValue uintComponent component lowest highest encoded
  rw [number, IntType.wrap_signed, tens, twos]
  simp only [signedComponent, clamp, Bool.false_eq_true, if_false]
  split_ifs <;> omega

theorem uintComponent_nan (index : Nat) {bits : Nat} (nan : isNaN bits = true) :
    uintComponent index bits = if index < 3 then 0x200 else 0 := by
  simp only [uintComponent, component, nan, if_true]

/-! ## Words and components -/

theorem componentsOf_wordOf {part : Nat → Nat} (fits : Fits part) {index : Nat}
    (inside : index < 4) : componentsOf (wordOf part) index = part index := by
  have bounds := fits.bounds
  have cases : index = 0 ∨ index = 1 ∨ index = 2 ∨ index = 3 := by omega
  unfold componentsOf wordOf
  rcases cases with rfl | rfl | rfl | rfl <;> norm_num <;> omega

theorem wordOf_congr {part other : Nat → Nat} (same : ∀ index < 4, part index = other index) :
    wordOf part = wordOf other := by
  rw [wordOf, wordOf, same 0 (by decide), same 1 (by decide), same 2 (by decide),
    same 3 (by decide)]

/-- A component that is unpacked and packed again: the smallest one becomes the next one. -/
def repacked (word index : Nat) : Nat :=
  if index < 3 ∧ componentsOf word index = 0x200 then 0x201 else componentsOf word index

theorem isNaN_unpacked {word index bits : Nat}
    (unpacked : (bits : Int) = 0x40400000 + unpackedComponent word index) : isNaN bits = false := by
  have bounds := unpackedComponent_bounds word index
  rw [← Bool.not_eq_true, isNaN_iff]
  omega

theorem encoded_unpacked {word index bits : Nat}
    (unpacked : (bits : Int) = 0x40400000 + unpackedComponent word index) :
    encoded bits = unpackedComponent word index := by
  have bounds := unpackedComponent_bounds word index
  rw [encoded, IntType.wrap_signed]
  omega

theorem uintComponent_unpacked {word index bits : Nat} (inside : index < 4)
    (unpacked : (bits : Int) = 0x40400000 + unpackedComponent word index) :
    uintComponent index bits = repacked word index := by
  have bounds := unpackedComponent_bounds word index
  have part := componentsOf_lt word index
  have fits : uintComponent index bits < if index < 3 then 2 ^ 10 else 2 ^ 2 := by
    unfold uintComponent
    split <;> exact component_lt (by decide)
  have value := componentValue_uintComponent index (show bits < 2 ^ 32 by omega)
    (isNaN_unpacked unpacked)
  rw [encoded_unpacked unpacked] at value
  unfold repacked
  simp only [componentValue, lowest, highest, clamp, unpackedComponent, signedComponent] at value
  split_ifs at * <;> omega

/-! ## Packs and unpacks -/

/-- The operands of a pack: the word goes into one lane of the destination. -/
def PackOperands (format : Nat) (operand : Nat → Word) : Prop :=
  (operand 2).toNat = format ∧ (operand 4).toNat < 4

def UnpackOperands (format : Nat) (operand : Nat → Word) : Prop :=
  (operand 2 >>> 2).toNat = format

section Formats

variable (float : FloatOps) (record : Bool)

def runPack (operand : Nat → Word) (before : Store Object) : Option (Store Object) :=
  VStatement.run before
    (VectorInst.vpkd3d128.statements (vectorNames operand) operand float record)

def runUnpack (operand : Nat → Word) (before : Store Object) : Option (Store Object) :=
  VStatement.run before
    (VectorInst.vupkd3d128.statements (vectorNames operand) operand float record)

/-- The word that a pack has made. -/
def packedWord (operand : Nat → Word) (after : Store Object) : Nat :=
  Vec.lane 4 (vec after operand 0) (operand 4).toNat

/-- The lane that a component of the source of a pack is in. -/
def sourceLane (operand : Nat → Word) (before : Store Object) (index : Nat) : Nat :=
  Vec.lane 4 (vec before operand 1) (3 - index)

/-- Packs and unpacks undo each other, up to the numbers that one of them bounds. -/
structure Direct3DFormats : Prop where
  color : ∀ unpack pack before, UnpackOperands 0 unpack → PackOperands 0 pack →
    (pack 1).toNat = (unpack 0).toNat →
    ∃ middle after, runUnpack float record unpack before = some middle ∧
      runPack float record pack middle = some after ∧
      packedWord pack after = Vec.lane 4 (vec before unpack 1) 0
  word : ∀ unpack pack before, UnpackOperands 3 unpack → PackOperands 3 pack →
    (pack 1).toNat = (unpack 0).toNat →
    ∃ middle after, runUnpack float record unpack before = some middle ∧
      runPack float record pack middle = some after ∧
      packedWord pack after = wordOf (repacked (Vec.lane 4 (vec before unpack 1) 0))
  lanes : ∀ pack unpack before, ∀ number : Nat → Int, PackOperands 3 pack → (pack 4).toNat = 0 →
    UnpackOperands 3 unpack → (unpack 1).toNat = (pack 0).toNat →
    (∀ index < 4, isNaN (sourceLane pack before index) = false ∧
      IntType.s32.wrap (sourceLane pack before index) = 0x40400000 + number index) →
    ∃ middle after, runPack float record pack before = some middle ∧
      runUnpack float record unpack middle = some after ∧
      ∀ index < 4, (Vec.lane 4 (vec after unpack 0) (3 - index) : Int) =
        0x40400000 + clamp (lowest index) (highest index) (number index)
  monotone : ∀ pack other before before', PackOperands 3 pack → PackOperands 3 other →
    ∃ after after', runPack float record pack before = some after ∧
      runPack float record other before' = some after' ∧
      ∀ index < 4, isNaN (sourceLane pack before index) = false →
        isNaN (sourceLane other before' index) = false →
        IntType.s32.wrap (sourceLane pack before index) ≤
          IntType.s32.wrap (sourceLane other before' index) →
        componentValue index (componentsOf (packedWord pack after) index) ≤
          componentValue index (componentsOf (packedWord other after') index)
  nan : ∀ pack before, PackOperands 3 pack →
    ∃ after, runPack float record pack before = some after ∧
      ∀ index < 4, isNaN (sourceLane pack before index) = true →
        componentsOf (packedWord pack after) index = if index < 3 then 0x200 else 0

theorem vec_congr {store : Store Object} {operand other : Nat → Word} {index position : Nat}
    (same : (operand index).toNat = (other position).toNat) :
    vec store operand index = vec store other position := by
  rw [vec, vec, same]

/-- The lowest byte of a lane. -/
theorem lane_four_mod (bytes : Vec) (index : Nat) :
    (bytes (4 * index)).toNat = Vec.lane 4 bytes index % 256 := by
  have bound := (bytes (4 * index)).isLt
  simp only [Vec.lane, littleEndian]
  omega

theorem packedColor_unpacked {bytes source : Vec}
    (lanes : ∀ i < 4, Vec.lane 4 bytes i = 0x3F800000 + (source (colorByte i)).toNat) :
    packedColor bytes = Vec.lane 4 source 0 := by
  have byte : ∀ i < 4, (bytes (4 * i)).toNat = (source (colorByte i)).toNat := by
    intro i below
    have bound := (source (colorByte i)).isLt
    rw [lane_four_mod, lanes i below]
    omega
  have first : (bytes 0).toNat = (source 3).toNat := byte 0 (by decide)
  have second : (bytes 4).toNat = (source 0).toNat := byte 1 (by decide)
  have third : (bytes 8).toNat = (source 1).toNat := byte 2 (by decide)
  have fourth : (bytes 12).toNat = (source 2).toNat := byte 3 (by decide)
  rw [packedColor, first, second, third, fourth]
  simp only [Vec.lane, littleEndian, Nat.mul_zero, Nat.zero_add, Nat.reduceAdd]
  omega

/-- The emitted packs and unpacks. -/
theorem direct3DFormats : Direct3DFormats float record where
  color := by
    intro unpack pack before unpacks packs same
    obtain ⟨middle, unpacked, lanes⟩ := @exists_run_unpackColor unpack float record before unpacks
    obtain ⟨after, packed, word⟩ := @exists_run_packColor pack float record middle packs.1 packs.2
    refine ⟨middle, after, unpacked, packed, ?_⟩
    rw [packedWord, word, vec_congr same]
    exact packedColor_unpacked lanes
  word := by
    intro unpack pack before unpacks packs same
    obtain ⟨middle, unpacked, lanes⟩ :=
      @exists_run_unpackInt2101010 unpack float record before unpacks
    obtain ⟨after, packed, word⟩ :=
      @exists_run_packInt2101010 pack float record middle packs.1 packs.2
    refine ⟨middle, after, unpacked, packed, ?_⟩
    rw [packedWord, word, vec_congr same]
    apply wordOf_congr
    intro index inside
    exact uintComponent_unpacked inside (lanes index inside)
  lanes := by
    intro pack unpack before number packs zero unpacks same known
    obtain ⟨middle, packed, word⟩ :=
      @exists_run_packInt2101010 pack float record before packs.1 packs.2
    obtain ⟨after, unpacked, lanes⟩ :=
      @exists_run_unpackInt2101010 unpack float record middle unpacks
    refine ⟨middle, after, packed, unpacked, fun index inside => ?_⟩
    obtain ⟨isNumber, known⟩ := known index inside
    have lane : Vec.lane 4 (vec middle unpack 1) 0 = wordOf (uintComponents (vec before pack 1)) := by
      rw [vec_congr same, ← word, zero]
    have value := componentValue_uintComponent index (Vec.lane_lt 4 _ _) isNumber
    have offset : encoded (Vec.lane 4 (vec before pack 1) (3 - index)) = number index := by
      rw [encoded]
      exact sub_eq_of_eq_add' known
    rw [offset] at value
    rw [lanes index inside, lane, ← value, unpackedComponent,
      componentsOf_wordOf (fits_uintComponents _) inside, componentValue, uintComponents]
    split
    next ten =>
      have above : -511 ≤ signedComponent
          (uintComponent index (Vec.lane 4 (vec before pack 1) (3 - index))) := by
        rw [componentValue, if_pos ten, lowest, if_pos ten] at value
        rw [value]
        exact Int.le_max_left _ _
      rw [Int.max_eq_right above]
    next two =>
      rfl
  monotone := by
    intro pack other before before' packs others
    obtain ⟨after, packed, word⟩ :=
      @exists_run_packInt2101010 pack float record before packs.1 packs.2
    obtain ⟨after', packed', word'⟩ :=
      @exists_run_packInt2101010 other float record before' others.1 others.2
    refine ⟨after, after', packed, packed', fun index inside number number' order => ?_⟩
    rw [packedWord, word, packedWord, word', componentsOf_wordOf (fits_uintComponents _) inside,
      componentsOf_wordOf (fits_uintComponents _) inside, uintComponents, uintComponents,
      componentValue_uintComponent index (Vec.lane_lt 4 _ _) number,
      componentValue_uintComponent index (Vec.lane_lt 4 _ _) number']
    exact clamp_mono (Int.sub_le_sub_right order 0x40400000)
  nan := by
    intro pack before packs
    obtain ⟨after, packed, word⟩ :=
      @exists_run_packInt2101010 pack float record before packs.1 packs.2
    refine ⟨after, packed, fun index inside nan => ?_⟩
    rw [packedWord, word, componentsOf_wordOf (fits_uintComponents _) inside]
    exact uintComponent_nan index nan

/-- What the clause on lanes says when the bits of a lane may be those of a NaN as well. -/
def ClampsEveryLane : Prop :=
  ∀ pack unpack before, ∀ number : Nat → Int, PackOperands 3 pack → (pack 4).toNat = 0 →
    UnpackOperands 3 unpack → (unpack 1).toNat = (pack 0).toNat →
    (∀ index < 4, IntType.s32.wrap (sourceLane pack before index) = 0x40400000 + number index) →
    ∃ middle after, runPack float record pack before = some middle ∧
      runUnpack float record unpack middle = some after ∧
      ∀ index < 4, (Vec.lane 4 (vec after unpack 0) (3 - index) : Int) =
        0x40400000 + clamp (lowest index) (highest index) (number index)

end Formats

/-- A vector of four NaNs. -/
def nanLanes : Vec := fun position =>
  if position % 4 = 3 then 0x7F else if position % 4 = 2 then 0xC0 else 0

/-- Lanes of NaNs become the smallest number, not the largest one. -/
theorem not_clampsEveryLane :
    ¬∀ (float : FloatOps) (record : Bool), ClampsEveryLane float record := by
  intro clamps
  let pack : Nat → Word := fun position => if position = 2 then 3 else 0
  let unpack : Nat → Word := fun position => if position = 2 then 12 else 0
  have twelve : UnpackOperands 3 unpack := (by decide : ((12 : Word) >>> 2).toNat = 3)
  have bits : ∀ index < 4, sourceLane pack (fun _ => nanLanes) index = 0x7FC00000 := by
    decide
  obtain ⟨middle, after, packed, unpacked, lanes⟩ := clamps noComparison false pack unpack
    (fun _ => nanLanes) (fun _ => 0x3F800000) ⟨rfl, by decide⟩ rfl twelve rfl fun index inside => by
      rw [bits index inside]
      decide
  obtain ⟨middle', packed', word⟩ := @exists_run_packInt2101010 pack noComparison false
    (fun _ => nanLanes) rfl (by decide)
  obtain rfl := Option.some.inj (packed.symm.trans packed')
  obtain ⟨after', unpacked', lanes'⟩ := @exists_run_unpackInt2101010 unpack noComparison false
    middle twelve
  obtain rfl := Option.some.inj (unpacked.symm.trans unpacked')
  have lane : Vec.lane 4 (vec middle unpack 1) 0 = wordOf (uintComponents nanLanes) := word
  have smallest := (lanes 0 (by decide)).symm.trans (lanes' 0 (by decide))
  rw [lane, unpackedComponent, componentsOf_wordOf (fits_uintComponents _) (by decide),
    uintComponents, uintComponent_nan 0 (by decide)] at smallest
  exact absurd smallest (by decide)

end UfcRecomp.Recompiler
