import UfcRecomp.Recompiler.Integer
import UfcRecomp.Ppc.Integer

/-!
# Registers that integer statements leave behind

The guest's registers and its carry, as the objects of the emitted code hold them.
-/

namespace UfcRecomp.Recompiler

open UfcRecomp.Lib UfcRecomp.Ppc

/-- The guest state that the objects hold. -/
@[irreducible]
def view (store : Store Object) : IntegerState where
  r index := BitVec.ofInt 64 (store.read ⟨.r index, 0, .u64⟩)
  ca := store .xer 2

/-- The guest state behind some statements, unless they have no meaning. -/
def outcome (store : Store Object) (statements : List (CStatement Object)) :
    Option IntegerState :=
  (CStatement.run store statements).map view

@[simp] theorem type_r (type : IntType) (index : Word) : (r type index).type = type := rfl

@[simp] theorem type_temp (type : IntType) : (temp type).type = type := rfl

@[simp] theorem type_ca : PpcXerRegister.ca.type = .u8 := rfl

@[simp] theorem ofInt_truth (value : Bool) :
    BitVec.ofInt 8 (truth value) = if value then 1 else 0 := by
  cases value <;> rfl

/-! ## Reading -/

variable (store : Store Object)

theorem read_r {type : IntType} (fits : type.size ≤ 8) (index : Word) :
    store.read (r type index) = type.wrap ((view store).r index.toNat).toNat := by
  rw [r, @Store.read_narrow _ store _ _ _ .u64 fits]
  have held := store.holds_read ⟨.r index.toNat, 0, .u64⟩
  rw [IntType.Holds, IntType.wrap_unsigned] at held
  have number : (((view store).r index.toNat).toNat : Int) =
      store.read ⟨.r index.toNat, 0, .u64⟩ := by
    rw [view, BitVec.toNat_ofInt]
    omega
  rw [number]

@[simp] theorem read_u8 (index : Word) :
    store.read (r .u8 index) = (((view store).r index.toNat).toNat : Int) % 2 ^ 8 := by
  rw [read_r store (by decide), IntType.wrap_unsigned]

@[simp] theorem read_u32 (index : Word) :
    store.read (r .u32 index) = (((view store).r index.toNat).toNat : Int) % 2 ^ 32 := by
  rw [read_r store (by decide), IntType.wrap_unsigned]

@[simp] theorem read_u64 (index : Word) :
    store.read (r .u64 index) = ((view store).r index.toNat).toNat := by
  have bound := ((view store).r index.toNat).isLt
  rw [read_r store (by decide), IntType.wrap_unsigned]
  omega

@[simp] theorem read_s32 (index : Word) :
    store.read (r .s32 index) = (((view store).r index.toNat).setWidth 32).toInt := by
  rw [read_r store (by decide), IntType.wrap_signed, BitVec.toInt_eq_toNat_cond,
    BitVec.toNat_setWidth]
  omega

@[simp] theorem read_s64 (index : Word) :
    store.read (r .s64 index) = ((view store).r index.toNat).toInt := by
  have bound := ((view store).r index.toNat).isLt
  rw [read_r store (by decide), IntType.wrap_signed, BitVec.toInt_eq_toNat_cond]
  omega

@[simp] theorem read_ca : store.read PpcXerRegister.ca = ((view store).ca.toNat : Int) := by
  have bound := (store .xer 2).isLt
  simp only [Store.read, PpcXerRegister.ca, IntType.wrap_unsigned, littleEndian, view]
  omega

/-- A signed number keeps its value in an operation. -/
@[simp] theorem wrap_s64_toInt (value : BitVec 64) :
    IntType.s64.wrap value.toInt = value.toInt := by
  have bound := value.isLt
  rw [IntType.wrap_signed, BitVec.toInt_eq_toNat_cond]
  omega

@[simp] theorem wrap_s64_zero : IntType.s64.wrap 0 = 0 := wrap_s64_toInt 0

@[simp] theorem wrap_s64_one : IntType.s64.wrap 1 = 1 := wrap_s64_toInt 1

@[simp] theorem result_toInt (value : BitVec 64) :
    IntType.s64.result value.toInt = some value.toInt :=
  IntType.result_of_holds (wrap_s64_toInt value)

@[simp] theorem wrap_s64_byte (value : Byte) :
    IntType.s64.wrap (value.toNat : Int) = value.toNat := by
  have bound := value.isLt
  rw [IntType.wrap_signed]
  omega

@[simp] theorem eval_simm (operand : Nat → Word) (index : Nat) :
    (IntegerInst.simm operand index).eval store = some (operand index).toInt := by
  have bound := (operand index).isLt
  apply Expr.eval_signedDecimal
  rw [BitVec.toInt_eq_toNat_cond]
  omega

@[simp] theorem common_s64_simm (operand : Nat → Word) (index : Nat) :
    IntType.common .s64 (IntegerInst.simm operand index).type = .s64 :=
  Expr.common_s64_signedDecimal _

@[simp] theorem common_simm_s64 (operand : Nat → Word) (index : Nat) :
    IntType.common (IntegerInst.simm operand index).type .s64 = .s64 :=
  Expr.common_signedDecimal_s64 _

@[simp] theorem wrap_s64_word (value : Word) :
    IntType.s64.wrap value.toInt = value.toInt := by
  have bound := value.isLt
  rw [IntType.wrap_signed, BitVec.toInt_eq_toNat_cond]
  omega

/-! ## Writing -/

/-- Neither the registers nor the carry are written. -/
theorem view_write_of_ne {place : Place Object} (notR : ∀ index, Object.r index ≠ place.object)
    (notXer : Object.xer ≠ place.object) (number : Int) :
    view (store.write place number) = view store := by
  ext1
  · funext index
    simp only [view]
    rw [Store.read_write_of_ne (notR index)]
  · simp only [view]
    rw [Store.write_of_ne notXer]

@[simp] theorem view_write_ca (number : Int) :
    view (store.write PpcXerRegister.ca number) = (view store).setCa (BitVec.ofInt 8 number) := by
  ext1
  · funext index
    simp only [view, IntegerState.setCa]
    rw [Store.read_write_of_ne (by simp [PpcXerRegister.ca])]
  · simp [view, IntegerState.setCa, Store.write, PpcXerRegister.ca, Place.Covers, byteOf]

@[simp] theorem view_write_temp (type : IntType) (number : Int) :
    view (store.write (temp type) number) = view store :=
  view_write_of_ne store (by simp [temp]) (by simp [temp]) number

theorem view_write_r {type : IntType} (whole : type.size = 8) (index : Word) (number : Int) :
    view (store.write (r type index) number) = (view store).set index (BitVec.ofInt 64 number) := by
  ext1
  · funext other
    simp only [view, IntegerState.set]
    by_cases same : other = index.toNat
    · subst same
      rw [Function.update_self, r, Store.read_write_of_le (Nat.le_of_eq whole.symm)]
      apply BitVec.eq_of_toNat_eq
      rw [BitVec.toNat_ofInt, BitVec.toNat_ofInt, IntType.wrap_unsigned]
      omega
    · rw [Function.update_of_ne same, Store.read_write_of_ne (by simpa [r] using same)]
  · simp only [view, IntegerState.set]
    rw [Store.write_of_ne (by simp [r])]

@[simp] theorem view_write_u64 (index : Word) (number : Int) :
    view (store.write (r .u64 index) number) = (view store).set index (BitVec.ofInt 64 number) :=
  view_write_r store rfl index number

@[simp] theorem view_write_s64 (index : Word) (number : Int) :
    view (store.write (r .s64 index) number) = (view store).set index (BitVec.ofInt 64 number) :=
  view_write_r store rfl index number

/-- The temporary keeps a number until it is assigned to again. -/
@[simp] theorem read_temp_write_r (type other : IntType) (index : Word) (number : Int) :
    (store.write (r other index) number).read (temp type) = store.read (temp type) :=
  Store.read_write_of_ne (by simp [temp, r])

@[simp] theorem read_temp_write_ca (type : IntType) (number : Int) :
    (store.write PpcXerRegister.ca number).read (temp type) = store.read (temp type) :=
  Store.read_write_of_ne (by simp [temp, PpcXerRegister.ca])

@[simp] theorem read_temp_write_temp {narrow wide : IntType} (order : narrow.size ≤ wide.size)
    (number : Int) :
    (store.write (temp wide) number).read (temp narrow) = narrow.wrap number :=
  Store.read_write_of_le order

/-- A comparison leaves the registers alone. -/
theorem outcome_recordForm (record : Bool) (operand : Nat → Word)
    (statements : List (CStatement Object)) :
    outcome store (statements ++ IntegerInst.recordForm record operand) =
      outcome store statements := by
  cases record with
  | false => simp [IntegerInst.recordForm]
  | true =>
      have compared : ∀ middle : Store Object,
          outcome middle (IntegerInst.recordForm true operand) = some (view middle) := by
        intro middle
        simp [outcome, IntegerInst.recordForm, PpcCrRegister.compare, CStatement.run_cons,
          CStatement.step, Expr.eval, Expr.decimal, Binary.apply, Binary.applyCommon,
          view_write_of_ne, PpcCrRegister.lt, PpcCrRegister.gt, PpcCrRegister.eq, PpcCrRegister.so,
          IntegerInst.reg]
      rw [outcome, CStatement.run_append, outcome]
      cases CStatement.run store statements with
      | none => rfl
      | some middle => exact compared middle

/-! ## Operands -/

section

variable (operand : Nat → Word)

/-- The register that an operand names. -/
def source (index : Nat) : BitVec 64 := (view store).r (operand index).toNat

theorem eval_u64 (index : Nat) :
    (IntegerInst.reg operand .u64 index).eval store = some ((source store operand index).toNat : Int) :=
  congrArg some (read_u64 store _)

theorem eval_u32 (index : Nat) :
    (IntegerInst.reg operand .u32 index).eval store =
      some (((source store operand index).setWidth 32).toNat : Int) := by
  rw [IntegerInst.reg, Expr.eval, read_u32, BitVec.toNat_setWidth]
  norm_cast

theorem eval_imm (index : Nat) :
    (IntegerInst.imm operand index).eval store = some ((operand index).toNat : Int) := rfl

/-- A number that is assigned to a whole register. -/
theorem outcome_setReg {type : IntType} (whole : type.size = 8) {value : Expr Object} {number : Int}
    (evaluated : value.eval store = some number) :
    outcome store [IntegerInst.setReg operand type value] =
      some ((view store).set (operand 0) (BitVec.ofInt 64 number)) := by
  rw [outcome, CStatement.run_cons, IntegerInst.setReg, CStatement.step, evaluated]
  simp only [Option.map_some, Option.bind_some, CStatement.run_nil]
  rw [view_write_r store whole]

/-- A byte under a small mask. -/
theorem eval_byte_and {place : Place Object} {byte mask : Nat} (type : place.type = .u8)
    (read : store.read place = byte) (below : byte < 2 ^ 8) (small : mask < 2 ^ 31) :
    (.read place &&& .hex mask : Expr Object).eval store = some ((byte &&& mask : Nat) : Int) := by
  have byteFits : IntType.s32.Holds (byte : Int) := by
    rw [IntType.holds_s32_iff]
    omega
  have maskFits : IntType.s32.Holds (mask : Int) := by
    rw [IntType.holds_s32_iff]
    omega
  simp only [Expr.and_eq, Expr.eval, read, Expr.hex, if_pos small, Option.bind_some, Binary.apply,
    Binary.applyCommon, Expr.type, type, IntType.common_small_left, Nat.reduceLT,
    IntType.common_mk, Nat.le_refl, Nat.lt_irrefl, if_false, Bool.and_self,
    show IntType.s32.wrap _ = _ from byteFits, show IntType.s32.wrap _ = _ from maskFits,
    IntType.bitwise_and (show 0 < IntType.s32.size by decide) byteFits maskFits]

end

end UfcRecomp.Recompiler
