import UfcRecomp.Lib.CAlias
import UfcRecomp.Recompiler.Vector

/-!
# Vector instructions with one register in several operands

The statements of a vector instruction write the lanes of the destination one after the other. When
the destination is also a source, they do what they do with registers that are all different, except
for the packs whose destination is their second source: these read lanes that they have already
overwritten.
-/

namespace UfcRecomp.Recompiler

open UfcRecomp.Lib UfcRecomp.Ppc

/-! ## Names -/

/-- What the statements name, with a register for each operand. -/
inductive VectorRole where
  | v (index : Nat)
  | cr6
  | temp
  | vTemp
  deriving DecidableEq

def roleNames : VectorNames VectorRole := ⟨.v, .cr6, .temp, .vTemp⟩

/-- The objects that an instruction names. -/
def roleObject (operand : Nat → Word) : VectorRole → Object
  | .v index => .v (operand index).toNat
  | .cr6 => .cr 6
  | .temp => .temp
  | .vTemp => .vTemp

/-- The names of the registers of an instruction. -/
def vectorNames (operand : Nat → Word) : VectorNames Object where
  v index := roleObject operand (.v index)
  cr6 := roleObject operand .cr6
  temp := roleObject operand .temp
  vTemp := roleObject operand .vTemp

/-- Names for other objects. -/
def VectorNames.map {ρ κ : Type} (naming : ρ → κ) (names : VectorNames ρ) : VectorNames κ where
  v index := naming (names.v index)
  cr6 := naming names.cr6
  temp := naming names.temp
  vTemp := naming names.vTemp

section Rename

variable {ρ κ : Type} (naming : ρ → κ) (names : VectorNames ρ) (operand : Nat → Word)

theorem map_assignElem (type : IntType) (lane : Nat) (value : Expr ρ) :
    (VectorInst.assignElem names type lane value).rename naming =
      VectorInst.assignElem (names.map naming) type lane (value.rename naming) := by
  unfold VectorInst.assignElem
  split <;> rfl

/-- The statements do not look at the names. -/
theorem statements_map (float : FloatOps) (record : Bool) (inst : VectorInst) :
    inst.statements (names.map naming) operand float record =
      (inst.statements names operand float record).map (VStatement.rename naming) := by
  have half : ∀ i, VectorInst.packHalf (names.map naming) operand float i =
      (VectorInst.packHalf names operand float i).map (VStatement.rename naming) := by
    intro i
    simp only [VectorInst.packHalf, List.map_cons, List.map_nil, map_assignElem]
    rfl
  cases inst
  case vpkd3d128 =>
    simp only [VectorInst.statements, VectorInst.packD3D]
    split
    · simp only [VectorInst.packColor, List.map_cons, List.map_nil, map_assignElem]
      rfl
    · simp only [VectorInst.packInt2101010, List.map_append, List.map_cons, List.map_nil,
        map_assignElem]
      rfl
    · simp only [List.map_cons, List.map_flatMap, ← half]
      rfl
    · rfl
  case vupkd3d128 =>
    simp only [VectorInst.statements, VectorInst.unpackD3D]
    split <;> rfl
  case vcmpbfp | vcmpeqfp | vcmpequb | vcmpequh | vcmpequw | vcmpgefp | vcmpgtfp | vcmpgtsh
    | vcmpgtsw | vcmpgtub | vcmpgtuh => cases record <;> rfl
  all_goals rfl

end Rename

/-- The statements for the objects of an instruction are those for its roles. -/
theorem statements_roles (operand : Nat → Word) (float : FloatOps) (record : Bool)
    (inst : VectorInst) :
    inst.statements (vectorNames operand) operand float record =
      (inst.statements roleNames operand float record).map
        (VStatement.rename (roleObject operand)) :=
  statements_map (roleObject operand) roleNames operand float record inst

/-! ## Reads behind writes -/

/-- The packs that write lanes of their destination before they read their second source. -/
def VectorInst.packs : VectorInst → Bool
  | .vpkshss | .vpkswss | .vpkswus | .vpkuhus128 | .vpkuwum => true
  | _ => false

/-- The sources that may be the destination, unless it is the second source of a pack. -/
def mayAlias (packs : Bool) : VectorRole → Bool
  | .v 0 => false
  | .v 2 => !packs
  | .v _ => true
  | _ => false

/-- Whether a statement assigns to the destination, to a temporary, or to the condition register of
a record form. -/
def writesOwn (record : Bool) (statement : VStatement VectorRole) : Bool :=
  match statement.target with
  | none | some (.v 0) | some .temp | some .vTemp => true
  | some .cr6 => record
  | some (.v _) => false

/-- No statement reads a source behind a write to the destination, and none writes a source. -/
theorem statements_check (operand : Nat → Word) (float : FloatOps) (record : Bool)
    (inst : VectorInst) :
    (VStatement.safe (mayAlias inst.packs) (.v 0) (some [])
        (inst.statements roleNames operand float record) &&
      (inst.statements roleNames operand float record).all (writesOwn record)) = true := by
  cases inst
  case vpkd3d128 =>
    simp only [VectorInst.statements, VectorInst.packD3D]
    split
    · simp only [VectorInst.packColor, VectorInst.assignElem]
      split <;> rfl
    · simp only [VectorInst.packInt2101010, VectorInst.assignElem]
      split <;> rfl
    · simp only [VectorInst.packHalf, VectorInst.assignElem,
        show List.range 4 = [0, 1, 2, 3] from rfl, List.flatMap_cons, List.flatMap_nil]
      split_ifs <;> rfl
    · rfl
  case vupkd3d128 =>
    simp only [VectorInst.statements, VectorInst.unpackD3D]
    split <;> rfl
  case vcmpbfp | vcmpeqfp | vcmpequb | vcmpequh | vcmpequw | vcmpgefp | vcmpgtfp | vcmpgtsh
    | vcmpgtsw | vcmpgtub | vcmpgtuh => cases record <;> rfl
  all_goals rfl

variable (operand : Nat → Word)

/-- The roles of an instruction, and which of the sources are the destination. -/
def vectorNaming : Naming VectorRole Object where
  object := roleObject operand
  destination := .v 0
  aliased role := role ≠ .v 0 ∧ roleObject operand role = roleObject operand (.v 0)
  aliased_iff _ := decide_eq_true_iff

/-- What a statement assigns to is the destination, or has one role only. -/
theorem owns_of_writesOwn {record : Bool} {statement : VStatement VectorRole}
    (own : writesOwn record statement = true) (target : VectorRole)
    (assigned : statement.target = some target) :
    target = (vectorNaming operand).destination ∨ (vectorNaming operand).Owns target := by
  unfold writesOwn at own
  rw [assigned] at own
  match target with
  | .v 0 => exact .inl rfl
  | .v (index + 1) => cases own
  | .temp | .vTemp | .cr6 =>
      right
      intro other shared
      cases other <;> simp_all [vectorNaming, roleObject]

variable {operand} {float : FloatOps} {record : Bool} {inst : VectorInst}

/-- With roles that may be one register, the statements do what they do with all of them apart. -/
theorem run_roles (free : inst.packs = true → (operand 2).toNat ≠ (operand 0).toNat)
    (before : Store Object) :
    Option.Rel (fun left right => ∃ written, (vectorNaming operand).Agree written left right)
      (VStatement.run before (inst.statements (vectorNames operand) operand float record))
      (VStatement.run (fun role => before (roleObject operand role))
        (inst.statements roleNames operand float record)) := by
  obtain ⟨safe, own⟩ := Bool.and_eq_true_iff.mp (statements_check operand float record inst)
  rw [statements_roles]
  apply ((vectorNaming operand).agree_init before).run
  · apply VStatement.safe_mono _ safe
    intro role aliased
    obtain ⟨other, shared⟩ := ((vectorNaming operand).aliased_iff role).mp aliased
    match role with
    | .v 0 => exact absurd rfl other
    | .v 1 => rfl
    | .v 2 =>
        have registers : (operand 2).toNat = (operand 0).toNat := Object.v.inj shared
        cases known : inst.packs with
        | false => rfl
        | true => exact absurd registers (free known)
    | .v (index + 3) => rfl
    | .cr6 | .temp | .vTemp => cases shared
  · intro statement member
    exact owns_of_writesOwn operand (List.all_eq_true.mp own statement member)

/-- So they make the same destination. -/
theorem run_destination (free : inst.packs = true → (operand 2).toNat ≠ (operand 0).toNat)
    (before : Store Object) :
    ((VStatement.run before (inst.statements (vectorNames operand) operand float record)).map
      fun after => after (.v (operand 0).toNat)) =
      (VStatement.run (fun role => before (roleObject operand role))
        (inst.statements roleNames operand float record)).map fun after => after (.v 0) := by
  apply map_eq_of_rel (run_roles free before)
  rintro concrete abstract ⟨written, agree⟩
  exact agree.destination

/-- The statements change the destination, the temporaries, and the condition register of a record
form. -/
theorem run_frame {before after : Store Object}
    (ran : VStatement.run before (inst.statements (vectorNames operand) operand float record) =
      some after) {object : Object} (notDestination : object ≠ .v (operand 0).toNat)
    (notTemp : object ≠ .temp) (notVTemp : object ≠ .vTemp)
    (notCr : record = true → object ≠ .cr 6) : after object = before object := by
  obtain ⟨-, own⟩ := Bool.and_eq_true_iff.mp (statements_check operand float record inst)
  rw [statements_roles] at ran
  apply VStatement.run_of_ne ran
  intro statement member same
  obtain ⟨source, here, rfl⟩ := List.mem_map.mp member
  have assigned := List.all_eq_true.mp own source here
  rw [VStatement.target_rename] at same
  obtain ⟨role, target, rfl⟩ := Option.map_eq_some_iff.mp same.symm
  unfold writesOwn at assigned
  rw [target] at assigned
  match role with
  | .v 0 => exact notDestination rfl
  | .v (index + 1) => cases assigned
  | .temp => exact notTemp rfl
  | .vTemp => exact notVTemp rfl
  | .cr6 => exact notCr assigned rfl

/-! ## Packs into their second source -/

/-- Names for a pack whose destination is its second source, and its first one too or not. -/
def sharedNames (both : Bool) : VectorNames VectorRole where
  v index := if index = 1 ∧ both = false then .v 1 else .v 0
  cr6 := .cr6
  temp := .temp
  vTemp := .vTemp

/-- The objects for these names. -/
def sharedNaming (operand : Nat → Word) (both : Bool)
    (apart : both = false → (operand 1).toNat ≠ (operand 0).toNat) :
    Naming VectorRole Object where
  object
    | .v 0 => .v (operand 0).toNat
    | .v 1 => if both then .r 1 else .v (operand 1).toNat
    | .v index => .r index
    | .cr6 => .cr 6
    | .temp => .temp
    | .vTemp => .vTemp
  destination := .v 0
  aliased _ := false
  aliased_iff role := by
    match role with
    | .v 0 | .v (index + 2) | .cr6 | .temp | .vTemp => simp
    | .v 1 =>
        cases both
        · simpa using apart rfl
        · simp

/-- Names without those of operands that packs do not have. -/
def VectorNames.three {κ : Type} (names : VectorNames κ) : VectorNames κ where
  v
    | 0 => names.v 0
    | 1 => names.v 1
    | _ => names.v 2
  cr6 := names.cr6
  temp := names.temp
  vTemp := names.vTemp

theorem statements_three {κ : Type} (names : VectorNames κ) (packs : inst.packs = true) :
    inst.statements names operand float record =
      inst.statements names.three operand float record := by
  cases inst <;> first | exact absurd packs (by decide) | rfl

theorem three_vectorNames {both : Bool} (same : (operand 2).toNat = (operand 0).toNat)
    (first : both = true → (operand 1).toNat = (operand 0).toNat)
    (apart : both = false → (operand 1).toNat ≠ (operand 0).toNat) :
    (vectorNames operand).three =
      ((sharedNames both).map (sharedNaming operand both apart).object).three := by
  simp only [VectorNames.three, VectorNames.map, vectorNames, VectorNames.mk.injEq]
  refine ⟨?_, rfl, rfl, rfl⟩
  funext index
  match index with
  | 0 => rfl
  | 1 =>
      cases both
      · rfl
      · exact congrArg Object.v (first rfl)
  | index + 2 => exact congrArg Object.v same

/-- Contents with lanes that differ. -/
def spread : Nat → Byte := fun position =>
  if position % 4 = 0 then BitVec.ofNat 8 position else 0

/-- From these contents a pack into its second source leaves another byte. -/
theorem pack_spread {both : Bool} (packs : inst.packs = true) :
    (VStatement.run (fun _ => spread)
        (inst.statements (sharedNames both) operand float record)).map (fun after => after (.v 0) 6) ≠
      (VStatement.run (fun _ => spread)
        (inst.statements roleNames operand float record)).map fun after => after (.v 0) 6 := by
  cases inst <;> cases packs <;> simp only [VectorInst.statements] <;> cases both <;>
    decide +kernel

/-- What a pack into its second source leaves in the destination, from the same contents of all
registers. -/
theorem run_shared {both : Bool} (packs : inst.packs = true)
    (same : (operand 2).toNat = (operand 0).toNat)
    (first : both = true → (operand 1).toNat = (operand 0).toNat)
    (apart : both = false → (operand 1).toNat ≠ (operand 0).toNat) (contents : Nat → Byte) :
    ((VStatement.run (fun _ => contents)
        (inst.statements (vectorNames operand) operand float record)).map fun after =>
      after (.v (operand 0).toNat)) =
      (VStatement.run (fun _ => contents)
        (inst.statements (sharedNames both) operand float record)).map fun after =>
      after (.v 0) := by
  rw [statements_three _ packs, three_vectorNames same first apart, ← statements_three _ packs,
    statements_map]
  have own : (inst.statements (sharedNames both) operand float record).all (writesOwn record) =
      true := by
    cases inst <;> cases packs <;> cases both <;> rfl
  have agree := (sharedNaming operand both apart).agree_init fun _ => contents
  apply map_eq_of_rel (agree.run VStatement.safe_of_not_aliased ?_)
  · rintro concrete abstract ⟨written, agree⟩
    exact agree.destination
  · intro statement member target assigned
    have known := List.all_eq_true.mp own statement member
    unfold writesOwn at known
    rw [assigned] at known
    match target with
    | .v 0 => exact .inl rfl
    | .v (index + 1) => cases known
    | .temp | .vTemp | .cr6 =>
        right
        intro other shared
        match other with
        | .v 0 | .v (index + 2) => cases shared
        | .v 1 => cases both <;> cases shared
        | .temp | .vTemp | .cr6 => cases shared <;> rfl

/-! ## All registers -/

/-- The destination becomes what it becomes with a register for each operand, and nothing changes
besides the temporaries and, in a record form, the condition register. -/
def VectorInst.Simultaneous (inst : VectorInst) (operand : Nat → Word) (float : FloatOps)
    (record : Bool) (before : Store Object) : Prop :=
  let emitted :=
    VStatement.run before (inst.statements (vectorNames operand) operand float record)
  let separate := VStatement.run (fun role => before (roleObject operand role))
    (inst.statements roleNames operand float record)
  (emitted.map fun after => after (.v (operand 0).toNat)) =
      (separate.map fun after => after (.v 0)) ∧
    ∀ after, emitted = some after → ∀ object, object ≠ .v (operand 0).toNat → object ≠ .temp →
      object ≠ .vTemp → (record = true → object ≠ .cr 6) → after object = before object

/-- That is so for every assignment of registers, except where the second source of a pack is its
destination. -/
theorem simultaneous_iff (inst : VectorInst) (operand : Nat → Word) (float : FloatOps)
    (record : Bool) :
    (∀ before, inst.Simultaneous operand float record before) ↔
      ¬(inst.packs = true ∧ (operand 2).toNat = (operand 0).toNat) := by
  constructor
  · rintro simultaneous ⟨packs, same⟩
    obtain ⟨here, -⟩ := simultaneous fun _ => spread
    obtain ⟨both, first, apart⟩ : ∃ both : Bool,
        (both = true → (operand 1).toNat = (operand 0).toNat) ∧
          (both = false → (operand 1).toNat ≠ (operand 0).toNat) := by
      by_cases shared : (operand 1).toNat = (operand 0).toNat
      · exact ⟨true, fun _ => shared, by simp⟩
      · exact ⟨false, by simp, fun _ => shared⟩
    rw [run_shared packs same first apart] at here
    have sixth := congrArg (Option.map fun bytes => bytes 6) here
    rw [Option.map_map, Option.map_map] at sixth
    exact pack_spread packs sixth
  · intro free before
    constructor
    · exact run_destination (fun packs same => free ⟨packs, same⟩) before
    · intro after ran object notDestination notTemp notVTemp notCr
      exact run_frame ran notDestination notTemp notVTemp notCr

/-- Operations for which no comparison holds. -/
def noComparison : FloatOps where
  eq _ _ := false
  le _ _ := false
  ge _ _ := false
  gt _ _ := false
  neg number := number
  exp2f number := number
  log2f number := number

/-- A `vpkshss` with one register in all its operands. -/
theorem not_simultaneous :
    ¬VectorInst.vpkshss.Simultaneous (fun _ => 0) noComparison false fun _ => spread := by
  rintro ⟨here, -⟩
  have sixth := congrArg (Option.map fun bytes => bytes 6) here
  rw [Option.map_map, Option.map_map] at sixth
  revert sixth
  decide +kernel

end UfcRecomp.Recompiler
