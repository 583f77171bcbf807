import UfcRecomp.Recompiler.IntegerRuns

/-!
# Additions with a carry

The emitted code of the carrying additions forms the guest's sum and finds its carry with a
comparison. Some of the statements add signed numbers, which has a meaning only if the sum fits.
-/

namespace UfcRecomp.Recompiler

open UfcRecomp.Lib UfcRecomp.Ppc IntegerInst

/-- The case of an addition. -/
def integerInst : CarryInst → IntegerInst
  | .addc => .addc
  | .adde => .adde
  | .addic => .addic
  | .addze => .addze
  | .addme => .addme
  | .subfc => .subfc
  | .subfe => .subfe
  | .subfze => .subfze
  | .subfic => .subfic

/-- Whether the statements add signed numbers, so that they have a meaning only if the sum
fits. -/
def addsSigned : CarryInst → Bool
  | .addic | .addze | .addme | .subfc | .subfic => true
  | .addc | .adde | .subfe | .subfze => false

/-! ## Instructions -/

section

variable (store : Store Object) (record : Bool) (operand : Nat → Word)

/-- The register and the carry that an addition leaves behind. -/
theorem exec_eq {state : IntegerState} {inst : CarryInst} {value : BitVec 64} {out : Prop}
    [Decidable out] (sum : value = (inst.addition operand state).sum)
    (carry : out ↔ 2 ^ 32 ≤ (inst.addition operand state).low) :
    (state.set (operand 0) value).setCa (if out then 1 else 0) = inst.exec operand state := by
  simp only [sum, carry, CarryInst.exec, IntegerState.setCarry, Addition.carryOut,
    decide_eq_true_eq]

theorem outcome_addc :
    outcome store (IntegerInst.addc.statements record operand) =
      some (CarryInst.addc.exec operand (view store)) := by
  refine (outcome_recordForm store record operand _).trans ?_
  simp [outcome, setReg, IntegerInst.setCarry, reg]
  apply exec_eq
  · apply Addition.ofInt_eq_sum
    simp only [CarryInst.addition, CarryInst.addition.a, CarryInst.addition.b]
    push_cast
    omega
  · simp only [CarryInst.addition, CarryInst.addition.a, CarryInst.addition.b, Addition.low]
    omega

theorem outcome_adde (bit : (view store).ca.toNat ≤ 1) :
    outcome store (IntegerInst.adde.statements record operand) =
      some (CarryInst.adde.exec operand (view store)) := by
  refine (outcome_recordForm store record operand _).trans ?_
  simp [outcome, setReg, IntegerInst.setCarry, reg, carry]
  apply exec_eq
  · apply Addition.ofInt_eq_sum
    simp only [CarryInst.addition, CarryInst.addition.a, CarryInst.addition.b]
    push_cast
    omega
  · simp only [CarryInst.addition, CarryInst.addition.a, CarryInst.addition.b, Addition.low]
    omega

theorem outcome_subfe (bit : (view store).ca.toNat ≤ 1) :
    outcome store (IntegerInst.subfe.statements record operand) =
      some (CarryInst.subfe.exec operand (view store)) := by
  refine (outcome_recordForm store record operand _).trans ?_
  simp [outcome, setReg, IntegerInst.setCarry, reg, carry]
  apply exec_eq
  · apply Addition.ofInt_eq_sum
    simp only [CarryInst.addition, CarryInst.addition.a, CarryInst.addition.b, BitVec.toNat_not]
    omega
  · simp only [CarryInst.addition, CarryInst.addition.a, CarryInst.addition.b, BitVec.toNat_not,
      Addition.low]
    omega

theorem outcome_subfze (bit : (view store).ca.toNat ≤ 1) :
    outcome store (IntegerInst.subfze.statements record operand) =
      some (CarryInst.subfze.exec operand (view store)) := by
  refine (outcome_recordForm store record operand _).trans ?_
  simp [outcome, setReg, IntegerInst.setCarry, reg, carry]
  apply exec_eq
  · apply Addition.ofInt_eq_sum
    simp only [CarryInst.addition, CarryInst.addition.a, BitVec.toNat_not, BitVec.toNat_ofNat]
    omega
  · simp only [CarryInst.addition, CarryInst.addition.a, BitVec.toNat_not, Addition.low,
      BitVec.toNat_ofNat]
    omega

/-! ## Signed sums -/

theorem outcome_addic :
    outcome store (IntegerInst.addic.statements record operand) =
      (IntType.s64.result (CarryInst.addic.addition operand (view store)).signedSum).map
        fun _ => CarryInst.addic.exec operand (view store) := by
  have sum : (CarryInst.addic.addition operand (view store)).signedSum =
      ((view store).r (operand 1).toNat).toInt + (operand 2).toInt := by
    simp [Addition.signedSum, CarryInst.addition, CarryInst.addition.a, CarryInst.toInt_immediate]
  rw [sum]
  refine (outcome_recordForm store record operand _).trans ?_
  rcases IntType.result_cases 8 _ with ⟨result, -⟩ | ⟨result, -⟩
  · rw [result]
    simp [outcome, setReg, IntegerInst.setCarry, reg, result]
    apply exec_eq
    · rw [← sum, Addition.ofInt_signedSum]
    · rw [Expr.wrap_common_decimal (by omega) (by omega),
        Expr.wrap_common_decimal (by omega) (by omega)]
      simp only [CarryInst.addition, CarryInst.addition.a, Addition.low, CarryInst.low_immediate]
      omega
  · rw [result]
    simp [outcome, setReg, IntegerInst.setCarry, reg, result]

theorem outcome_addze :
    outcome store (IntegerInst.addze.statements record operand) =
      (IntType.s64.result (CarryInst.addze.addition operand (view store)).signedSum).map
        fun _ => CarryInst.addze.exec operand (view store) := by
  have sum : (CarryInst.addze.addition operand (view store)).signedSum =
      ((view store).r (operand 1).toNat).toInt + (view store).ca.toNat := by
    simp [Addition.signedSum, CarryInst.addition, CarryInst.addition.a]
  rw [sum]
  refine (outcome_recordForm store record operand _).trans ?_
  rcases IntType.result_cases 8 _ with ⟨result, fits⟩ | ⟨result, -⟩
  · rw [result]
    simp [outcome, setReg, IntegerInst.setCarry, reg, carry, result, show _ = _ from fits]
    apply exec_eq
    · rw [← sum, Addition.ofInt_signedSum]
    · simp only [CarryInst.addition, CarryInst.addition.a, Addition.low, BitVec.toNat_ofNat,
        BitVec.toInt_eq_toNat_cond]
      omega
  · rw [result]
    simp [outcome, setReg, IntegerInst.setCarry, reg, carry, result]

theorem outcome_addme (clear : (view store).ca = 0#8) :
    outcome store (IntegerInst.addme.statements record operand) =
      (IntType.s64.result (CarryInst.addme.addition operand (view store)).signedSum).map
        fun _ => CarryInst.addme.exec operand (view store) := by
  have sum : (CarryInst.addme.addition operand (view store)).signedSum =
      ((view store).r (operand 1).toNat).toInt - 1 := by
    have ones : (BitVec.allOnes 64).toInt = -1 := by decide
    simp only [Addition.signedSum, CarryInst.addition, CarryInst.addition.a, clear, ones]
    simp
    omega
  rw [sum]
  refine (outcome_recordForm store record operand _).trans ?_
  rcases IntType.result_cases 8 _ with ⟨result, fits⟩ | ⟨result, -⟩
  · rw [result]
    simp [outcome, setReg, IntegerInst.setCarry, reg, carry, result, show _ = _ from fits, clear]
    apply exec_eq
    · rw [← sum, Addition.ofInt_signedSum]
    · simp only [CarryInst.addition, CarryInst.addition.a, Addition.low, BitVec.toNat_ofNat,
        BitVec.toNat_allOnes, BitVec.toInt_eq_toNat_cond, clear]
      omega
  · rw [result]
    simp [outcome, setReg, IntegerInst.setCarry, reg, carry, result, clear]

/-- With a carry the sum is the source itself, and the comparison finds no carry. -/
theorem outcome_addme_ne (carried : (view store).ca = 1#8) :
    outcome store (IntegerInst.addme.statements record operand) ≠
      some (CarryInst.addme.exec operand (view store)) := by
  have out : (CarryInst.addme.exec operand (view store)).ca = 1 := by
    simp only [CarryInst.exec, CarryInst.addition, IntegerState.setCarry, Addition.carryOut,
      Addition.low, BitVec.toNat_allOnes, carried, IntegerState.ca_setCa]
    rw [if_pos (decide_eq_true (by simp))]
  intro same
  have same := (outcome_recordForm store record operand _).symm.trans same
  rcases IntType.result_cases 8 (((view store).r (operand 1).toNat).toInt + 1) with
    ⟨result, fits⟩ | ⟨result, -⟩
  · simp [outcome, setReg, IntegerInst.setCarry, reg, carry, result, show _ = _ from fits,
      carried] at same
    have none := congrArg IntegerState.ca same
    rw [out, IntegerState.ca_setCa, if_neg (by rw [BitVec.toInt_eq_toNat_cond]; omega)] at none
    exact absurd none (by decide)
  · simp [outcome, setReg, IntegerInst.setCarry, reg, carry, result, carried] at same

theorem outcome_subfc :
    outcome store (IntegerInst.subfc.statements record operand) =
      (IntType.s64.result (CarryInst.subfc.addition operand (view store)).signedSum).map
        fun _ => CarryInst.subfc.exec operand (view store) := by
  have sum : (CarryInst.subfc.addition operand (view store)).signedSum =
      ((view store).r (operand 2).toNat).toInt - ((view store).r (operand 1).toNat).toInt := by
    simp only [Addition.signedSum, CarryInst.addition, CarryInst.addition.a, CarryInst.addition.b,
      CarryInst.toInt_complement]
    omega
  rw [sum]
  refine (outcome_recordForm store record operand _).trans ?_
  rcases IntType.result_cases 8 _ with ⟨result, -⟩ | ⟨result, -⟩
  · rw [result]
    simp [outcome, setReg, IntegerInst.setCarry, reg, result]
    apply exec_eq
    · rw [← sum, Addition.ofInt_signedSum]
    · simp only [CarryInst.addition, CarryInst.addition.a, CarryInst.addition.b, Addition.low,
        BitVec.toNat_not]
      omega
  · rw [result]
    simp [outcome, setReg, IntegerInst.setCarry, reg, result]

theorem outcome_subfic :
    outcome store (IntegerInst.subfic.statements record operand) =
      (IntType.s64.result (CarryInst.subfic.addition operand (view store)).signedSum).map
        fun _ => CarryInst.subfic.exec operand (view store) := by
  have sum : (CarryInst.subfic.addition operand (view store)).signedSum =
      (operand 2).toInt - ((view store).r (operand 1).toNat).toInt := by
    simp only [Addition.signedSum, CarryInst.addition, CarryInst.addition.a,
      CarryInst.toInt_immediate, CarryInst.toInt_complement]
    omega
  rw [IntegerInst.statements, sum]
  rcases IntType.result_cases 8 _ with ⟨result, -⟩ | ⟨result, -⟩
  · rw [result]
    simp [outcome, setReg, IntegerInst.setCarry, reg, imm, result]
    apply exec_eq
    · rw [← sum, Addition.ofInt_signedSum]
    · rw [Expr.wrap_common_decimal (by omega) (by omega),
        Expr.wrap_common_decimal (by omega) (by omega)]
      simp only [CarryInst.addition, CarryInst.addition.a, Addition.low, CarryInst.low_immediate,
        BitVec.toNat_not]
      omega
  · rw [result]
    simp [outcome, setReg, IntegerInst.setCarry, reg, imm, result]

/-! ## All of them -/

/-- The condition under which an addition is right: `addme` does not find the carry that a carry
leaves behind, and signed sums must fit. -/
def Exact (inst : CarryInst) (operand : Nat → Word) (state : IntegerState) : Prop :=
  ¬(inst = .addme ∧ state.ca = 1#8) ∧
    (addsSigned inst → IntType.s64.Holds (inst.addition operand state).signedSum)

/-- An addition is exact under its condition and only there. -/
theorem outcome_eq_iff (bit : (view store).ca.toNat ≤ 1) (inst : CarryInst) :
    outcome store ((integerInst inst).statements record operand) =
        some (inst.exec operand (view store)) ↔ Exact inst operand (view store) := by
  have checked : ∀ number : Int, (IntType.s64.result number).map
      (fun _ => inst.exec operand (view store)) = some (inst.exec operand (view store)) ↔
        IntType.s64.Holds number := by
    intro number
    rcases IntType.result_cases 8 number with ⟨result, fits⟩ | ⟨result, fits⟩
    · simp only [result, fits, Option.map_some]
    · simp only [result, fits, Option.map_none, reduceCtorEq]
  cases inst with
  | addc => simp [integerInst, Exact, addsSigned, outcome_addc]
  | adde => simp [integerInst, Exact, addsSigned, outcome_adde store record operand bit]
  | addic => simp [integerInst, Exact, addsSigned, outcome_addic, checked]
  | addze => simp [integerInst, Exact, addsSigned, outcome_addze, checked]
  | addme =>
      have either : (view store).ca = 0#8 ∨ (view store).ca = 1#8 := by
        simp only [← BitVec.toNat_inj, BitVec.toNat_ofNat]
        omega
      rcases either with clear | carried
      · simp [integerInst, Exact, addsSigned, outcome_addme store record operand clear, checked,
          clear]
      · simp [integerInst, Exact, carried, outcome_addme_ne store record operand carried]
  | subfc => simp [integerInst, Exact, addsSigned, outcome_subfc, checked]
  | subfe => simp [integerInst, Exact, addsSigned, outcome_subfe store record operand bit]
  | subfze => simp [integerInst, Exact, addsSigned, outcome_subfze store record operand bit]
  | subfic => simp [integerInst, Exact, addsSigned, outcome_subfic, checked]

end

/-! ## Chains -/

/-- The code of a chain of additions. -/
def chainStatements (record : CarryStep → Bool) (steps : List CarryStep) :
    List (CStatement Object) :=
  steps.flatMap fun step => (integerInst step.inst).statements (record step) step.operand

/-- Every step of a chain meets its condition in the state in front of it. -/
def ChainExact (steps : List CarryStep) (state : IntegerState) : Prop :=
  ∀ front step back, steps = front ++ step :: back →
    Exact step.inst step.operand (CarryStep.execAll front state)

theorem chainExact_cons {step : CarryStep} {rest : List CarryStep} {state : IntegerState} :
    ChainExact (step :: rest) state ↔
      Exact step.inst step.operand state ∧ ChainExact rest (step.exec state) := by
  constructor
  · intro exact_
    refine ⟨exact_ [] step rest rfl, fun front other back split => ?_⟩
    exact exact_ (step :: front) other back (by rw [split, List.cons_append])
  · rintro ⟨first, later⟩ front other back split
    cases front with
    | nil =>
        obtain ⟨rfl, rfl⟩ := List.cons.inj split
        exact first
    | cons earlier front =>
        obtain ⟨rfl, rfl⟩ := List.cons.inj split
        exact later front other back rfl

/-- Statements behind others run on what those left behind. -/
theorem outcome_append {store : Store Object} {front back : List (CStatement Object)}
    {state : IntegerState} (ran : outcome store front = some state) :
    ∃ middle, view middle = state ∧ outcome store (front ++ back) = outcome middle back := by
  obtain ⟨middle, ran, same⟩ := Option.map_eq_some_iff.mp ran
  refine ⟨middle, same, ?_⟩
  rw [outcome, CStatement.run_append, ran, Option.bind_some, outcome]

/-- The code of a chain does what the additions do. -/
theorem outcome_chain (record : CarryStep → Bool) {steps : List CarryStep} {store : Store Object}
    (bit : (view store).ca.toNat ≤ 1) (exact_ : ChainExact steps (view store)) :
    outcome store (chainStatements record steps) = some (CarryStep.execAll steps (view store)) := by
  induction steps generalizing store with
  | nil => rfl
  | cons step rest ih =>
      obtain ⟨here, later⟩ := chainExact_cons.mp exact_
      have first : outcome store ((integerInst step.inst).statements (record step) step.operand) =
          some (step.exec (view store)) :=
        (outcome_eq_iff store (record step) step.operand bit step.inst).mpr here
      obtain ⟨middle, same, joined⟩ := @outcome_append store _ (chainStatements record rest) _ first
      have next : (view middle).ca.toNat ≤ 1 := by
        rw [same]
        exact CarryInst.ca_exec_le_one
      rw [chainStatements, List.flatMap_cons, ← chainStatements, joined, ih next (same ▸ later),
        same, CarryStep.execAll_cons]

/-- The emitted additions give the guest's register and carry exactly under the condition, and
chains of them add and subtract numbers of any length. -/
theorem carry_right (store : Store Object) (bit : (view store).ca.toNat ≤ 1) :
    (∀ (inst : CarryInst) (record : Bool) (operand : Nat → Word),
      outcome store ((integerInst inst).statements record operand) =
        some (inst.exec operand (view store)) ↔ Exact inst operand (view store)) ∧
    ∀ (record : CarryStep → Bool) (first : CarryStep) (rest : List CarryStep),
      (first :: rest).Pairwise CarryStep.Follows → ChainExact (first :: rest) (view store) →
      ∃ final, outcome store (chainStatements record (first :: rest)) = some final ∧
        CarryStep.targetNumber (first :: rest) final +
            2 ^ (32 * (first :: rest).length) * final.ca.toNat =
          CarryStep.leftNumber (first :: rest) (view store) +
            CarryStep.rightNumber (first :: rest) (view store) +
            (first.addition (view store)).carry ∧
        ((∀ step ∈ first :: rest, step.inst.subtracts) →
          CarryStep.targetNumber (first :: rest) final +
              2 ^ (32 * (first :: rest).length) * final.ca.toNat +
              CarryStep.subtrahend (first :: rest) (view store) + 1 =
            CarryStep.rightNumber (first :: rest) (view store) +
              2 ^ (32 * (first :: rest).length) + (first.addition (view store)).carry) := by
  constructor
  · intro inst record operand
    exact outcome_eq_iff store record operand bit inst
  · intro record first rest chain exact_
    have sum := CarryStep.execAll_sum chain
      (CarryInst.carry_le_one bit : (first.addition _).carry ≤ 1)
    refine ⟨_, outcome_chain record bit exact_, sum, ?_⟩
    intro subtracts
    have complement := CarryStep.leftNumber_subtracts subtracts (view store)
    have difference : ∀ target left right carry subtrahend modulus : Nat,
        target = left + right + carry → left + subtrahend + 1 = modulus →
          target + subtrahend + 1 = right + modulus + carry := by
      omega
    exact difference _ _ _ _ _ _ sum complement

/-- Two numbers of two words each: `0x2FFFFFFFF` in `r5` and `r4`, and `0x300000001` in `r7` and
`r6`. -/
def limbStore : Store Object := fun object position =>
  if object = .r 4 ∧ position < 4 then 255
  else if object = .r 5 ∧ position = 0 then 2
  else if object = .r 6 ∧ position = 0 then 1
  else if object = .r 7 ∧ position = 0 then 3
  else 0

/-- `subfc r8, r4, r6` -/
def lowStep : CarryStep := ⟨.subfc, fun index => [8, 4, 6].getD index 0⟩

/-- `subfe r9, r5, r7` -/
def highStep : CarryStep := ⟨.subfe, fun index => [9, 5, 7].getD index 0⟩

/-- The difference is 2. -/
theorem carry_right_limbStore :
    ∃ final, outcome limbStore (chainStatements (fun _ => true) [lowStep, highStep]) = some final ∧
      CarryStep.targetNumber [lowStep, highStep] final + 2 ^ 64 * final.ca.toNat = 2 + 2 ^ 64 := by
  have chain : [lowStep, highStep].Pairwise CarryStep.Follows :=
    List.pairwise_pair.mpr ⟨by decide, by decide, by decide⟩
  have exact_ : ChainExact [lowStep, highStep] (view limbStore) :=
    chainExact_cons.mpr ⟨⟨by decide, fun _ => by decide +kernel⟩,
      chainExact_cons.mpr ⟨⟨by decide, fun signed => absurd signed (by decide)⟩,
        fun front _ _ split => by cases front <;> cases split⟩⟩
  have subtracts : ∀ step ∈ [lowStep, highStep], step.inst.subtracts :=
    List.forall_mem_cons.mpr ⟨rfl, List.forall_mem_singleton.mpr rfl⟩
  obtain ⟨final, ran, -, difference⟩ :=
    (carry_right limbStore (by decide +kernel)).2 (fun _ => true) lowStep [highStep] chain exact_
  have numbers : CarryStep.subtrahend [lowStep, highStep] (view limbStore) = 0x2FFFFFFFF ∧
      CarryStep.rightNumber [lowStep, highStep] (view limbStore) = 0x300000001 ∧
      (lowStep.addition (view limbStore)).carry = 1 := by
    decide +kernel
  obtain ⟨subtrahend, right, carry⟩ := numbers
  have sum := difference subtracts
  rw [subtrahend, right, carry] at sum
  exact ⟨final, ran, by simpa using sum⟩

/-- The registers hold zero except for `r4`, and the carry is set. -/
def carriedStore : Store Object := fun object position =>
  if (object = .r 4 ∧ position = 0) then 5 else if object = .xer ∧ position = 2 then 1 else 0

/-- `addme r3, r4`. -/
def addmeOperand (index : Nat) : Word := [3, 4].getD index 0

/-- Five plus the carry minus one leaves no carry, where the guest sets it. -/
theorem not_carry_right :
    (outcome carriedStore (IntegerInst.addme.statements false addmeOperand)).map
        (fun state => (state.r 3, state.ca)) = some (5, 0) ∧
      ((CarryInst.addme.exec addmeOperand (view carriedStore)).r 3,
        (CarryInst.addme.exec addmeOperand (view carriedStore)).ca) = (5, 1) := by
  decide +kernel

end UfcRecomp.Recompiler
