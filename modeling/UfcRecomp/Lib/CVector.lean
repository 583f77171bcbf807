import UfcRecomp.Lib.Lanes

/-!
# Straight-line programs with vectors

Statements that assign numbers, and statements that assign the result of operations on whole
vectors.
-/

namespace UfcRecomp.Lib

/-- An expression with a vector as its value. -/
inductive VExpr (κ : Type) where
  | load (object : κ)
  | const (vec : Vec)
  | op (function : Vec → Vec) (operand : VExpr κ)
  | op₂ (function : Vec → Vec → Vec) (left right : VExpr κ)
  | op₃ (function : Vec → Vec → Vec → Vec) (first second third : VExpr κ)

namespace VExpr

variable {κ : Type}

@[simp] def eval (store : Store κ) : VExpr κ → Vec
  | load object => store object
  | const vec => vec
  | op function operand => function (operand.eval store)
  | op₂ function left right => function (left.eval store) (right.eval store)
  | op₃ function first second third =>
    function (first.eval store) (second.eval store) (third.eval store)

/-- The objects that an expression names. -/
def objects : VExpr κ → List κ
  | load object => [object]
  | const _ => []
  | op _ operand => operand.objects
  | op₂ _ left right => left.objects ++ right.objects
  | op₃ _ first second third => first.objects ++ second.objects ++ third.objects

/-- An expression depends on the objects that it names. -/
theorem eval_congr {left right : Store κ} {expr : VExpr κ}
    (same : ∀ object ∈ expr.objects, left object = right object) :
    expr.eval left = expr.eval right := by
  induction expr with
  | load object => exact same object (List.mem_singleton_self object)
  | const => rfl
  | op _ _ ih => rw [eval, eval, ih same]
  | op₂ _ _ _ leftIh rightIh =>
      simp only [objects, List.mem_append] at same
      rw [eval, eval, leftIh fun object member => same object (.inl member),
        rightIh fun object member => same object (.inr member)]
  | op₃ _ _ _ _ firstIh secondIh thirdIh =>
      simp only [objects, List.mem_append] at same
      rw [eval, eval, firstIh fun object member => same object (.inl (.inl member)),
        secondIh fun object member => same object (.inl (.inr member)),
        thirdIh fun object member => same object (.inr member)]

end VExpr

/-- The first sixteen bytes of an object. -/
def Store.storeVec {κ : Type} [DecidableEq κ] (store : Store κ) (target : κ) (vec : Vec) :
    Store κ :=
  fun object position =>
    if object = target ∧ position < 16 then vec position else store object position

namespace Store

variable {κ : Type} [DecidableEq κ] (store : Store κ) (target : κ) (vec : Vec)

theorem storeVec_of_lt {position : Nat} (inside : position < 16) :
    store.storeVec target vec target position = vec position :=
  if_pos ⟨rfl, inside⟩

theorem storeVec_of_ne {object : κ} (apart : object ≠ target) :
    store.storeVec target vec object = store object := by
  ext position
  rw [storeVec, if_neg fun covered => apart covered.1]

/-- The lanes of an object behind an assignment to one of them. -/
theorem lane_write (object : κ) (type : IntType) (index : Nat) (number : Int) (other : Nat) :
    (Vec.lane type.size (store.write ⟨object, type.size * index, type⟩ number object) other : Int) =
      if other = index then number % 256 ^ type.size
      else Vec.lane type.size (store object) other := by
  split
  next same =>
    have bytes : Vec.lane type.size (store.write ⟨object, type.size * index, type⟩ number object)
        other = littleEndian (fun position => byteOf number (position - type.size * index))
          (type.size * index) type.size := by
      rw [Vec.lane, same]
      exact littleEndian_congr fun position above below => if_pos ⟨rfl, above, below⟩
    rw [bytes, littleEndian_byteOf]
  next apart =>
    congr 1
    apply Vec.lane_congr
    intro position above below
    apply write_of_not_covers
    rintro ⟨-, low, high⟩
    -- Two lanes with a common byte are one lane.
    have quotient : ∀ lane, type.size * lane ≤ position → position < type.size * lane + type.size →
        position / type.size = lane := by
      intro lane low high
      exact Nat.div_eq_of_lt_le (by rwa [Nat.mul_comm])
        (by rw [Nat.succ_mul, Nat.mul_comm]; exact high)
    exact apart ((quotient other above below).symm.trans (quotient index low high))

theorem movemask_storeVec {size : Nat} (pos : 0 < size) :
    Vec.movemask size (store.storeVec target vec target) = Vec.movemask size vec :=
  Vec.movemask_congr pos fun _ inside => storeVec_of_lt store target vec inside

end Store

inductive VStatement (κ : Type) where
  | scalar (statement : CStatement κ)
  | store (target : κ) (value : VExpr κ)
  /-- Assign a number that is computed from a vector. -/
  | extract (place : Place κ) (function : Vec → Int) (value : VExpr κ)
  /-- The program stops, or has no meaning. -/
  | trap

namespace VStatement

variable {κ : Type} [DecidableEq κ]

instance : Coe (CStatement κ) (VStatement κ) := ⟨scalar⟩

@[simp] def step (before : Store κ) : VStatement κ → Option (Store κ)
  | scalar statement => statement.step before
  | store target value => some (before.storeVec target (value.eval before))
  | extract place function value => some (before.write place (function (value.eval before)))
  | trap => none

/-- Run statements one after the other. -/
def run : Store κ → List (VStatement κ) → Option (Store κ)
  | before, [] => some before
  | before, statement :: rest => (statement.step before).bind fun after => run after rest

@[simp] theorem run_nil (before : Store κ) : run before [] = some before := rfl

@[simp] theorem run_cons (before : Store κ) (statement : VStatement κ)
    (rest : List (VStatement κ)) :
    run before (statement :: rest) = (statement.step before).bind fun after => run after rest := rfl

theorem run_append (before : Store κ) (front back : List (VStatement κ)) :
    run before (front ++ back) = (run before front).bind fun after => run after back := by
  induction front generalizing before with
  | nil => rfl
  | cons statement rest ih =>
      rw [List.cons_append, run_cons, run_cons, Option.bind_assoc]
      congr 1
      funext after
      exact ih after

/-- Statements without vectors run as such. -/
theorem run_map_scalar (before : Store κ) (statements : List (CStatement κ)) :
    run before (statements.map scalar) = CStatement.run before statements := by
  induction statements generalizing before with
  | nil => rfl
  | cons statement rest ih =>
      rw [List.map_cons, run_cons, CStatement.run_cons, step]
      congr 1
      funext after
      exact ih after

/-- The object that a statement assigns to. -/
def target : VStatement κ → Option κ
  | scalar statement => some statement.target
  | store target _ => some target
  | extract place _ _ => some place.object
  | trap => none

/-- A statement changes no other object. -/
theorem step_of_ne {before after : Store κ} {statement : VStatement κ} {object : κ}
    (stepped : statement.step before = some after) (apart : some object ≠ statement.target) :
    after object = before object := by
  cases statement with
  | scalar statement =>
      exact CStatement.step_of_ne stepped fun same => apart (congrArg some same)
  | store target value =>
      cases stepped
      exact Store.storeVec_of_ne _ _ _ fun same => apart (congrArg some same)
  | extract place function value =>
      cases stepped
      exact Store.write_of_ne fun same => apart (congrArg some same)
  | trap => cases stepped

/-- An object that no statement assigns to keeps its bytes. -/
theorem run_of_ne {before after : Store κ} {statements : List (VStatement κ)} {object : κ}
    (ran : run before statements = some after)
    (apart : ∀ statement ∈ statements, some object ≠ statement.target) :
    after object = before object := by
  induction statements generalizing before with
  | nil =>
      cases ran
      rfl
  | cons statement rest ih =>
      obtain ⟨middle, stepped, ran⟩ := Option.bind_eq_some_iff.mp ran
      rw [ih ran fun other member => apart other (List.mem_cons_of_mem _ member),
        step_of_ne stepped (apart statement List.mem_cons_self)]

end VStatement

/-! ## Loops over lanes -/

section Blocks

variable {κ : Type} [DecidableEq κ] {store : Store κ} {target : κ} {scratch : List κ}
  {size count : Nat} {index : Nat → Nat} {number : Nat → Int} {block : Nat → List (CStatement κ)}

/-- Stores that differ in a target and in scratch objects only. -/
def SameBut (target : κ) (scratch : List κ) (left right : Store κ) : Prop :=
  ∀ object, object ≠ target → object ∉ scratch → left object = right object

/-- A block assigns to one lane of the target. -/
def AssignsLane (store : Store κ) (target : κ) (scratch : List κ) (size lane : Nat) (number : Int)
    (block : List (CStatement κ)) : Prop :=
  ∀ before, SameBut target scratch before store →
    ∃ after, CStatement.run before block = some after ∧ SameBut target scratch after store ∧
      ∀ other, (Vec.lane size (after target) other : Int) =
        if other = lane then number % 256 ^ size else Vec.lane size (before target) other

/-- Blocks that assign to different lanes of the target. -/
theorem run_blocks (injective : ∀ i < count, ∀ j < count, index i = index j → i = j)
    (blocks : ∀ i < count, AssignsLane store target scratch size (index i) (number i) (block i)) :
    ∃ after, CStatement.run store ((List.range count).flatMap block) = some after ∧
      SameBut target scratch after store ∧
      (∀ i < count, (Vec.lane size (after target) (index i) : Int) = number i % 256 ^ size) ∧
      ∀ lane, (∀ i < count, index i ≠ lane) →
        Vec.lane size (after target) lane = Vec.lane size (store target) lane := by
  induction count with
  | zero => exact ⟨store, rfl, fun _ _ _ => rfl, fun i below => absurd below (Nat.not_lt_zero i),
      fun _ _ => rfl⟩
  | succ count ih =>
      obtain ⟨middle, ran, same, lanes, others⟩ := ih
        (fun i below j bound => injective i (by omega) j (by omega))
        fun i below => blocks i (by omega)
      obtain ⟨after, last, still, lane⟩ := blocks count (Nat.lt_succ_self count) middle same
      refine ⟨after, ?_, still, ?_, ?_⟩
      · rw [List.range_succ, List.flatMap_append, CStatement.run_append, ran, Option.bind_some,
          List.flatMap_cons, List.flatMap_nil, List.append_nil, last]
      · intro i below
        rw [lane]
        by_cases here : index i = index count
        · rw [if_pos here, injective i below count (Nat.lt_succ_self count) here]
        · have apart : i ≠ count := fun equal => here (congrArg index equal)
          rw [if_neg here, lanes i (by omega)]
      · intro other unwritten
        have kept := lane other
        rw [if_neg (unwritten count (Nat.lt_succ_self count)).symm] at kept
        exact (Int.ofNat_inj.mp kept).trans (others other fun i below => unwritten i (by omega))

/-- Blocks that assign numbers which fit into the lanes. -/
theorem run_blocks_of_lt {number : Nat → Nat}
    (injective : ∀ i < count, ∀ j < count, index i = index j → i = j)
    (blocks : ∀ i < count, AssignsLane store target scratch size (index i) (number i) (block i))
    (small : ∀ i < count, number i < 256 ^ size) :
    ∃ after, CStatement.run store ((List.range count).flatMap block) = some after ∧
      SameBut target scratch after store ∧
      ∀ i < count, Vec.lane size (after target) (index i) = number i := by
  obtain ⟨after, ran, same, lanes, -⟩ := run_blocks injective blocks
  refine ⟨after, ran, same, fun i below => ?_⟩
  have fits : (number i : Int) < 256 ^ size := by exact_mod_cast small i below
  have lane := lanes i below
  rw [Int.emod_eq_of_lt (Int.natCast_nonneg _) fits] at lane
  exact_mod_cast lane

/-- Whether an expression names neither target nor scratch objects. -/
def Expr.avoids (target : κ) (scratch : List κ) (expr : Expr κ) : Bool :=
  expr.places.all fun place => place.object ≠ target && place.object ∉ scratch

/-- Such an expression has the value that it has in the other store. -/
theorem SameBut.eval {before : Store κ} (same : SameBut target scratch before store)
    {expr : Expr κ} (apart : expr.avoids target scratch = true) :
    expr.eval before = expr.eval store := by
  apply Expr.eval_congr
  intro place member
  obtain ⟨notTarget, notScratch⟩ : place.object ≠ target ∧ place.object ∉ scratch := by
    simpa using List.all_eq_true.mp apart place member
  rw [Store.read, Store.read, same place.object notTarget notScratch]

/-- An assignment to a lane, from objects that are neither target nor scratch. -/
theorem assignsLane_assign {type : IntType} {lane : Nat} {value : Expr κ} {result : Int}
    (apart : value.avoids target scratch = true) (evaluated : value.eval store = some result) :
    AssignsLane store target scratch type.size lane result
      [.assign ⟨target, type.size * lane, type⟩ value] := by
  intro before same
  have unchanged : value.eval before = some result := (same.eval apart).trans evaluated
  refine ⟨before.write ⟨target, type.size * lane, type⟩ result, ?_, ?_, ?_⟩
  · rw [CStatement.run_cons, CStatement.step, unchanged]
    rfl
  · intro object notTarget notScratch
    rw [Store.write_of_ne notTarget, same object notTarget notScratch]
  · intro other
    exact Store.lane_write before target type lane result other

/-- An assignment to a scratch object, from which a lane is assigned. -/
theorem assignsLane_assign₂ {type middle : IntType} {temp : κ} {lane : Nat} {first second : Expr κ}
    {between result : Int} (isScratch : temp ∈ scratch) (tempNe : target ≠ temp)
    (apart : first.avoids target scratch = true)
    (evaluated : first.eval store = some between)
    (finished : ∀ before : Store κ, second.eval (before.write ⟨temp, 0, middle⟩ between) =
      some result) :
    AssignsLane store target scratch type.size lane result
      [.assign ⟨temp, 0, middle⟩ first, .assign ⟨target, type.size * lane, type⟩ second] := by
  intro before same
  have unchanged : first.eval before = some between := (same.eval apart).trans evaluated
  refine ⟨(before.write ⟨temp, 0, middle⟩ between).write ⟨target, type.size * lane, type⟩ result,
    ?_, ?_, ?_⟩
  · rw [CStatement.run_cons, CStatement.step, unchanged, Option.map_some, Option.bind_some,
      CStatement.run_cons, CStatement.step, finished]
    rfl
  · intro object notTarget notScratch
    have notTemp : object ≠ temp := fun here => notScratch (here ▸ isScratch)
    rw [Store.write_of_ne notTarget, Store.write_of_ne notTemp, same object notTarget notScratch]
  · intro other
    rw [Store.lane_write, Store.write_of_ne tempNe]

/-- An assignment to a lane that is then assigned to again, from what it has become. -/
theorem assignsLane_update {size : Nat} {sign other : Bool} {lane : Nat} {first second : Expr κ}
    {between result : Int} (apart : first.avoids target scratch = true)
    (evaluated : first.eval store = some between)
    (finished : ∀ before : Store κ,
      second.eval (before.write ⟨target, size * lane, ⟨size, sign⟩⟩ between) = some result) :
    AssignsLane store target scratch size lane result
      [ .assign ⟨target, size * lane, ⟨size, sign⟩⟩ first,
        .assign ⟨target, size * lane, ⟨size, other⟩⟩ second ] := by
  intro before same
  have unchanged : first.eval before = some between := (same.eval apart).trans evaluated
  refine ⟨(before.write ⟨target, size * lane, ⟨size, sign⟩⟩ between).write
    ⟨target, size * lane, ⟨size, other⟩⟩ result, ?_, ?_, ?_⟩
  · rw [CStatement.run_cons, CStatement.step, unchanged, Option.map_some, Option.bind_some,
      CStatement.run_cons, CStatement.step, finished]
    rfl
  · intro object notTarget notScratch
    rw [Store.write_of_ne notTarget, Store.write_of_ne notTarget, same object notTarget notScratch]
  · intro position
    have second := Store.lane_write (before.write ⟨target, size * lane, ⟨size, sign⟩⟩ between) target
      ⟨size, other⟩ lane result position
    have first := Store.lane_write before target ⟨size, sign⟩ lane between position
    simp only at second first
    rw [second, first]
    split <;> rfl

end Blocks

end UfcRecomp.Lib
