import UfcRecomp.Recompiler.VectorAliases

/-!
# Registers that vector statements leave behind

Lanes of the destination, from the lanes that the sources had, for any assignment of registers that
the statements allow.
-/

namespace UfcRecomp.Recompiler

open UfcRecomp.Lib UfcRecomp.Lib.Simd UfcRecomp.Ppc

/-- The register that an operand of a vector instruction names. -/
def vec (store : Store Object) (operand : Nat → Word) (index : Nat) : Vec :=
  store (.v (operand index).toNat)

/-! ## Lanes of roles -/

section Roles

variable {store : Store VectorRole}

/-- A lane without a sign. -/
theorem read_elem (size index lane : Nat) :
    store.read (VectorInst.elem roleNames ⟨size, false⟩ index lane) =
      Vec.lane size (store (.v index)) lane :=
  Vec.typed_unsigned size _ lane

/-- A number that is assigned to a lane of the destination. -/
theorem run_assignElem {type : IntType} {lane : Nat}
    {value : Expr VectorRole} {number : Nat} (inside : type.size * lane < 16)
    (evaluated : value.eval store = some (number : Int)) (small : number < 256 ^ type.size) :
    ∃ after, VStatement.run store [VectorInst.assignElem roleNames type lane value] = some after ∧
      (∀ role, role ≠ .v 0 → after role = store role) ∧
      ∀ other, Vec.lane type.size (after (.v 0)) other =
        if other = lane then number else Vec.lane type.size (store (.v 0)) other := by
  refine ⟨store.write (VectorInst.elem roleNames type 0 lane) number, ?_, ?_, ?_⟩
  · rw [VectorInst.assignElem, if_pos inside, VStatement.run_cons, VStatement.step, CStatement.step,
      evaluated]
    rfl
  · exact fun role apart => Store.write_of_ne apart
  · intro other
    have fits : (number : Int) < 256 ^ type.size := by exact_mod_cast small
    have written := Store.lane_write store (.v 0) type lane number other
    rw [Int.emod_eq_of_lt (Int.natCast_nonneg _) fits] at written
    exact_mod_cast written

end Roles

/-! ## Destinations -/

section Destinations

variable {inst : VectorInst} {operand : Nat → Word} {float : FloatOps} {record : Bool}
  {before : Store Object}

/-- The contents that the roles have before an instruction. -/
def contents (before : Store Object) (operand : Nat → Word) : Store VectorRole :=
  fun role => before (roleObject operand role)

/-- A run for the roles gives one for the registers. -/
theorem exists_run_of_roles (free : inst.packs = true → (operand 2).toNat ≠ (operand 0).toNat)
    {made : Store VectorRole}
    (ran : VStatement.run (contents before operand)
      (inst.statements roleNames operand float record) = some made) :
    ∃ after, VStatement.run before (inst.statements (vectorNames operand) operand float record) =
        some after ∧
      vec after operand 0 = made (.v 0) := by
  have same := @run_destination operand float record inst free before
  rw [show VStatement.run (fun role => before (roleObject operand role))
    (inst.statements roleNames operand float record) = some made from ran, Option.map_some] at same
  obtain ⟨after, ran, destination⟩ := Option.map_eq_some_iff.mp same
  exact ⟨after, ran, destination⟩

/-- A loop whose blocks assign to one lane each. -/
theorem exists_run_forLanes (free : inst.packs = true → (operand 2).toNat ≠ (operand 0).toNat)
    {count size : Nat} {body : Nat → List (CStatement VectorRole)} {lane : Nat → Nat}
    {number : Nat → Int}
    (printed : inst.statements roleNames operand float record = VectorInst.forLanes count body)
    (injective : ∀ i < count, ∀ j < count, lane i = lane j → i = j)
    (blocks : ∀ i < count, AssignsLane (contents before operand) (.v 0) [.temp] size (lane i)
      (number i) (body i)) :
    ∃ after, VStatement.run before (inst.statements (vectorNames operand) operand float record) =
        some after ∧
      ∀ i < count, (Vec.lane size (vec after operand 0) (lane i) : Int) =
        number i % 256 ^ size := by
  obtain ⟨made, ran, -, lanes, -⟩ := run_blocks injective blocks
  have run : VStatement.run (contents before operand)
      (inst.statements roleNames operand float record) = some made := by
    rw [printed, VectorInst.forLanes, VStatement.run_map_scalar, ran]
  obtain ⟨after, ran, destination⟩ := exists_run_of_roles free run
  exact ⟨after, ran, fun i below => by rw [destination, lanes i below]⟩

end Destinations

/-! ## Stores -/

section Stores

variable {operand : Nat → Word} {before : Store Object}

/-- A whole vector is stored. -/
theorem exists_run_store₂ (op : Vec → Vec → Vec) :
    ∃ after, VStatement.run before (VectorInst.store₂ (vectorNames operand) op 1 2) = some after ∧
      ∀ position < 16, vec after operand 0 position =
        op (vec before operand 1) (vec before operand 2) position :=
  ⟨_, rfl, fun _ inside => Store.storeVec_of_lt _ _ _ inside⟩

/-- A comparison stores it too, whether its record form is meant or not. -/
theorem exists_run_compareVec (record : Bool) (op : Vec → Vec → Vec) (size imm : Nat) :
    ∃ after, VStatement.run before
        (VectorInst.compareVec (vectorNames operand) record op size imm) = some after ∧
      ∀ position < 16, vec after operand 0 position =
        op (vec before operand 1) (vec before operand 2) position := by
  obtain ⟨middle, stored, bytes⟩ := @exists_run_store₂ operand before op
  cases record with
  | false =>
      refine ⟨middle, ?_, bytes⟩
      rw [VectorInst.compareVec, VStatement.run_append, stored]
      rfl
  | true =>
      obtain ⟨after, set⟩ : ∃ after, VStatement.run middle (VectorInst.setFromMask
          (vectorNames operand) size (VectorInst.load (vectorNames operand) 0) imm) = some after :=
        ⟨_, rfl⟩
      have kept : after (.v (operand 0).toNat) = middle (.v (operand 0).toNat) :=
        VStatement.run_of_ne set (by
          simp [VectorInst.setFromMask, VStatement.target, CStatement.target, VectorInst.cr6,
            vectorNames, roleObject])
      refine ⟨after, ?_, fun position inside => (congrFun kept position).trans (bytes position inside)⟩
      rw [VectorInst.compareVec, VStatement.run_append, stored, if_pos rfl, Option.bind_some, set]

end Stores

theorem typed_of_bytes {type : IntType} {left right : Vec} {index : Nat}
    (inside : index < 16 / type.size) (same : ∀ position < 16, left position = right position) :
    Vec.typed type left index = Vec.typed type right index := by
  rw [Vec.typed, Vec.typed, Vec.lane_congr fun position _ below =>
    same position (Nat.lt_of_lt_of_le below (Vec.lane_end inside))]

/-! ## Bounds -/

/-- A number that is bounded from above and below. -/
theorem eval_bounded {κ : Type} {store : Store κ} {place : Place κ} {high low : Int}
    (wide : place.type = .s32 ∨ place.type = .s64) (order : low ≤ high)
    (highFits : IntType.s32.Holds high) (lowFits : IntType.s32.Holds low) :
    (VectorInst.bounded place high low).eval store = some (clamp low high (store.read place)) := by
  have held : place.type.wrap (store.read place) = store.read place := store.holds_read place
  have bounds : ∀ bound : Int, IntType.s32.Holds bound → place.type.wrap bound = bound := by
    intro bound fits
    rcases wide with known | known <;> rw [known]
    · exact fits
    · rw [IntType.holds_s32_iff] at fits
      exact (IntType.holds_s64_iff bound).mpr (by omega)
  have same : IntType.common .s32 place.type = place.type ∧
      IntType.common place.type .s32 = place.type := by
    rcases wide with known | known <;> rw [known] <;> decide
  simp only [VectorInst.bounded, Expr.eval, Expr.type, Option.bind_some, Binary.apply,
    Binary.applyCommon, same.1, same.2, held, bounds high highFits, bounds low lowFits,
    Option.map_some]
  simp only [truth, clamp]
  split_ifs <;> simp_all <;> omega

end UfcRecomp.Recompiler
