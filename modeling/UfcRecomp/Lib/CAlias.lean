import UfcRecomp.Lib.CVector

/-!
# Objects under several names

A program is written for names, and each name stands for an object. Where the name that the program
assigns to stands for the object of a name that it reads, the program may read what it wrote. It
does the same as with an object for each name, if no such read touches a byte that was written
before.
-/

namespace UfcRecomp.Lib

variable {ρ κ : Type}

/-! ## Renaming -/

def Place.rename (naming : ρ → κ) (place : Place ρ) : Place κ :=
  ⟨naming place.object, place.offset, place.type⟩

def Expr.rename (naming : ρ → κ) : Expr ρ → Expr κ
  | literal type number => literal type number
  | read place => read (place.rename naming)
  | convert type operand => convert type (operand.rename naming)
  | unary op operand => unary op (operand.rename naming)
  | binary op left right => binary op (left.rename naming) (right.rename naming)
  | both left right => both (left.rename naming) (right.rename naming)
  | either left right => either (left.rename naming) (right.rename naming)
  | choose condition yes no =>
    choose (condition.rename naming) (yes.rename naming) (no.rename naming)
  | call type function argument => call type function (argument.rename naming)
  | call₂ type function first second =>
    call₂ type function (first.rename naming) (second.rename naming)

def CStatement.rename (naming : ρ → κ) : CStatement ρ → CStatement κ
  | assign place value => assign (place.rename naming) (value.rename naming)
  | assignIf condition place value =>
    assignIf (condition.rename naming) (place.rename naming) (value.rename naming)
  | copy target source => copy (naming target) (naming source)

def VExpr.rename (naming : ρ → κ) : VExpr ρ → VExpr κ
  | load object => load (naming object)
  | const vec => const vec
  | op function operand => op function (operand.rename naming)
  | op₂ function left right => op₂ function (left.rename naming) (right.rename naming)
  | op₃ function first second third =>
    op₃ function (first.rename naming) (second.rename naming) (third.rename naming)

def VStatement.rename (naming : ρ → κ) : VStatement ρ → VStatement κ
  | scalar statement => scalar (statement.rename naming)
  | store target value => store (naming target) (value.rename naming)
  | extract place function value =>
    extract (place.rename naming) function (value.rename naming)
  | trap => trap

theorem Expr.type_rename (naming : ρ → κ) (expr : Expr ρ) :
    (expr.rename naming).type = expr.type := by
  induction expr with
  | literal | read | convert | call | call₂ => rfl
  | unary _ _ ih => rw [rename, type, type, ih]
  | binary _ _ _ leftIh rightIh => rw [rename, type, type, leftIh, rightIh]
  | both | either => rfl
  | choose _ _ _ _ yesIh noIh => rw [rename, type, type, yesIh, noIh]

/-- A renamed expression has the value that the expression has for the named objects. -/
theorem Expr.eval_rename (naming : ρ → κ) (store : Store κ) (expr : Expr ρ) :
    (expr.rename naming).eval store = expr.eval fun name => store (naming name) := by
  induction expr with
  | literal | read => rfl
  | convert _ _ ih | call _ _ _ ih => rw [rename, eval, eval, ih]
  | unary _ _ ih => rw [rename, eval, eval, ih, type_rename]
  | binary _ _ _ leftIh rightIh =>
      rw [rename, eval, eval, leftIh, rightIh, type_rename, type_rename]
  | both _ _ leftIh rightIh | either _ _ leftIh rightIh | call₂ _ _ _ _ leftIh rightIh =>
      rw [rename, eval, eval, leftIh, rightIh]
  | choose _ _ _ conditionIh yesIh noIh =>
      rw [rename, eval, eval, conditionIh, yesIh, noIh, type_rename, type_rename]

theorem VExpr.eval_rename (naming : ρ → κ) (store : Store κ) (expr : VExpr ρ) :
    (expr.rename naming).eval store = expr.eval fun name => store (naming name) := by
  induction expr with
  | load | const => rfl
  | op _ _ ih => rw [rename, eval, eval, ih]
  | op₂ _ _ _ leftIh rightIh => rw [rename, eval, eval, leftIh, rightIh]
  | op₃ _ _ _ _ firstIh secondIh thirdIh =>
      rw [rename, eval, eval, firstIh, secondIh, thirdIh]

theorem VStatement.target_rename (naming : ρ → κ) (statement : VStatement ρ) :
    (statement.rename naming).target = statement.target.map naming := by
  cases statement with
  | scalar statement => cases statement <;> rfl
  | store | extract | trap => rfl

/-! ## Reads behind writes -/

/-- The bytes of the destination that were written; all of them for `none`. -/
abbrev Written := Option (List Nat)

/-- Whether a byte may have been written. -/
def Written.Has : Written → Nat → Prop
  | none, _ => True
  | some positions, position => position ∈ positions

/-- Whether no byte of a place was written. -/
def Written.misses (written : Written) (place : Place ρ) : Bool :=
  match written with
  | none => false
  | some positions =>
    (List.range place.type.size).all fun byte => !positions.contains (place.offset + byte)

/-- The bytes of a place are written. -/
def Written.add (written : Written) (place : Place ρ) : Written :=
  written.map fun positions =>
    (List.range place.type.size).map (place.offset + ·) ++ positions

section Check

variable [DecidableEq ρ] (aliased : ρ → Bool) (destination : ρ)

/-- Whether an expression reads nothing that was written under another name. -/
def Expr.reads (written : Written) (expr : Expr ρ) : Bool :=
  expr.places.all fun place => !aliased place.object || written.misses place

def VExpr.reads (written : Written) (expr : VExpr ρ) : Bool :=
  expr.objects.all fun object => !aliased object || written = some []

def CStatement.reads (written : Written) : CStatement ρ → Bool
  | assign _ value => value.reads aliased written
  | assignIf condition _ value => condition.reads aliased written && value.reads aliased written
  | copy _ source => !aliased source || written = some []

def VStatement.reads (written : Written) : VStatement ρ → Bool
  | scalar statement => statement.reads aliased written
  | store _ value | extract _ _ value => value.reads aliased written
  | trap => true

/-- What is written behind a statement. -/
def VStatement.written (written : Written) : VStatement ρ → Written
  | scalar (.assign place _) | scalar (.assignIf _ place _) | extract place _ _ =>
    if place.object = destination then written.add place else written
  | scalar (.copy target _) | store target _ => if target = destination then none else written
  | trap => written

/-- Whether no statement reads what was written under another name. -/
def VStatement.safe : Written → List (VStatement ρ) → Bool
  | _, [] => true
  | written, statement :: rest =>
    statement.reads aliased written && safe (statement.written destination written) rest

variable {aliased destination} {aliased' : ρ → Bool}

omit [DecidableEq ρ] in
theorem VStatement.reads_mono (fewer : ∀ name, aliased name = true → aliased' name = true)
    {written : Written} {statement : VStatement ρ} (safe : statement.reads aliased' written = true) :
    statement.reads aliased written = true := by
  have weaken : ∀ (name : ρ) (free : Bool), (!aliased' name || free) = true →
      (!aliased name || free) = true := by
    intro name free clear
    cases known : aliased name with
    | false => rfl
    | true => rwa [fewer name known] at clear
  have expr : ∀ {expr : Expr ρ}, expr.reads aliased' written = true →
      expr.reads aliased written = true := fun clear =>
    List.all_eq_true.mpr fun place member => weaken _ _ (List.all_eq_true.mp clear place member)
  have vec : ∀ {expr : VExpr ρ}, expr.reads aliased' written = true →
      expr.reads aliased written = true := fun clear =>
    List.all_eq_true.mpr fun object member => weaken _ _ (List.all_eq_true.mp clear object member)
  cases statement with
  | scalar statement =>
      cases statement with
      | assign place value => exact expr safe
      | assignIf condition place value =>
          obtain ⟨conditionSafe, valueSafe⟩ := Bool.and_eq_true_iff.mp safe
          exact Bool.and_eq_true_iff.mpr ⟨expr conditionSafe, expr valueSafe⟩
      | copy target source => exact weaken _ _ safe
  | store target value => exact vec safe
  | extract place function value => exact vec safe
  | trap => rfl

/-- With fewer aliases there is less to go wrong. -/
theorem VStatement.safe_mono (fewer : ∀ name, aliased name = true → aliased' name = true)
    {written : Written} {statements : List (VStatement ρ)}
    (safe : VStatement.safe aliased' destination written statements = true) :
    VStatement.safe aliased destination written statements = true := by
  induction statements generalizing written with
  | nil => rfl
  | cons statement rest ih =>
      obtain ⟨statementSafe, restSafe⟩ := Bool.and_eq_true_iff.mp safe
      exact Bool.and_eq_true_iff.mpr ⟨reads_mono fewer statementSafe, ih restSafe⟩

/-- Without aliases nothing goes wrong. -/
theorem VStatement.safe_of_not_aliased {written : Written} {statements : List (VStatement ρ)} :
    VStatement.safe (fun _ => false) destination written statements = true := by
  induction statements generalizing written with
  | nil => rfl
  | cons statement rest ih =>
      apply Bool.and_eq_true_iff.mpr ⟨?_, ih⟩
      cases statement with
      | scalar statement =>
          cases statement <;> simp [reads, CStatement.reads, Expr.reads]
      | store | extract | trap => simp [reads, VExpr.reads]

end Check

/-- Results of related outcomes. -/
theorem map_eq_of_rel {α β γ : Type} {relation : α → β → Prop} {left : Option α} {right : Option β}
    (related : Option.Rel relation left right) {f : α → γ} {g : β → γ}
    (same : ∀ x y, relation x y → f x = g y) : left.map f = right.map g := by
  cases related with
  | none => rfl
  | some held => exact congrArg some (same _ _ held)

/-! ## Both programs -/

/-- What the names stand for: some of them for the object of the destination, and those that a
program assigns to beside the destination for objects of their own. -/
structure Naming (ρ κ : Type) where
  object : ρ → κ
  destination : ρ
  aliased : ρ → Bool
  aliased_iff : ∀ name, aliased name = true ↔
    name ≠ destination ∧ object name = object destination

namespace Naming

variable (naming : Naming ρ κ)

/-- Whether an object has one name only. -/
def Owns (name : ρ) : Prop := ∀ other, naming.object other = naming.object name → other = name

/-- The objects agree with those of the names, but for aliases of what was written. -/
def Agree (written : Written) (concrete : Store κ) (abstract : Store ρ) : Prop :=
  ∀ name position, ¬(naming.aliased name = true ∧ written.Has position) →
    concrete (naming.object name) position = abstract name position

variable {naming} {written : Written} {concrete : Store κ} {abstract : Store ρ}

theorem not_aliased_destination : naming.aliased naming.destination = false := by
  by_contra aliased
  exact ((naming.aliased_iff _).mp (Bool.not_eq_false _ ▸ aliased)).1 rfl

theorem not_has_of_misses {place : Place ρ} (misses : written.misses place = true) {position : Nat}
    (above : place.offset ≤ position) (below : position < place.offset + place.type.size) :
    ¬written.Has position := by
  cases written with
  | none => cases misses
  | some positions =>
      intro member
      have byte := List.all_eq_true.mp misses (position - place.offset)
        (List.mem_range.mpr (by omega))
      rw [Nat.add_sub_cancel' above] at byte
      simp only [Bool.not_eq_true', List.contains_eq_mem, decide_eq_false_iff_not] at byte
      exact byte member

/-- A place without written aliases has the same number. -/
theorem Agree.read (agree : naming.Agree written concrete abstract) {place : Place ρ}
    (safe : (!naming.aliased place.object || written.misses place) = true) :
    Store.read (fun name => concrete (naming.object name)) place = abstract.read place := by
  rw [Store.read, Store.read]
  congr 2
  apply littleEndian_congr
  intro position above below
  apply agree
  rintro ⟨aliased, touched⟩
  rw [aliased] at safe
  exact not_has_of_misses safe above below touched

theorem Agree.eval (agree : naming.Agree written concrete abstract) {expr : Expr ρ}
    (safe : expr.reads naming.aliased written = true) :
    (expr.rename naming.object).eval concrete = expr.eval abstract := by
  rw [Expr.eval_rename]
  exact Expr.eval_congr fun place member => agree.read (List.all_eq_true.mp safe place member)

/-- An object without written aliases has the same bytes. -/
theorem Agree.object (agree : naming.Agree written concrete abstract) {name : ρ}
    (safe : (!naming.aliased name || decide (written = some [])) = true) :
    concrete (naming.object name) = abstract name := by
  ext1 position
  apply agree
  rintro ⟨aliased, touched⟩
  rw [aliased, Bool.not_true, Bool.false_or, decide_eq_true_eq] at safe
  subst safe
  cases touched

theorem Agree.evalVec (agree : naming.Agree written concrete abstract) {expr : VExpr ρ}
    (safe : expr.reads naming.aliased written = true) :
    (expr.rename naming.object).eval concrete = expr.eval abstract := by
  rw [VExpr.eval_rename]
  exact VExpr.eval_congr fun object member =>
    agree.object (List.all_eq_true.mp safe object member)

theorem has_add {place : Place ρ} {position : Nat} :
    (written.add place).Has position ↔
      written.Has position ∨ place.offset ≤ position ∧ position < place.offset + place.type.size := by
  cases written with
  | none => simp [Written.add, Written.Has]
  | some positions =>
      simp only [Written.add, Written.Has, Option.map_some, List.mem_append, List.mem_map,
        List.mem_range]
      constructor
      · rintro (⟨byte, below, rfl⟩ | member)
        · exact .inr ⟨by omega, by omega⟩
        · exact .inl member
      · rintro (member | ⟨above, below⟩)
        · exact .inr member
        · exact .inl ⟨position - place.offset, by omega, by omega⟩

theorem Agree.mono (agree : naming.Agree written concrete abstract) {written' : Written}
    (grows : ∀ position, written.Has position → written'.Has position) :
    naming.Agree written' concrete abstract := fun name position free =>
  agree name position fun touched => free ⟨touched.1, grows position touched.2⟩

/-- At first every name has the bytes of its object. -/
theorem agree_init (naming : Naming ρ κ) (concrete : Store κ) :
    naming.Agree (some []) concrete fun name => concrete (naming.object name) :=
  fun _ _ _ => rfl

/-- The destination agrees in all its bytes. -/
theorem Agree.destination (agree : naming.Agree written concrete abstract) :
    concrete (naming.object naming.destination) = abstract naming.destination := by
  ext1 position
  apply agree
  rw [not_aliased_destination]
  rintro ⟨⟨⟩, -⟩

variable [DecidableEq ρ]

theorem has_written {place : Place ρ} {position : Nat} (has : written.Has position) :
    Written.Has (if place.object = naming.destination then written.add place else written)
      position := by
  split
  · exact has_add.mpr (.inl has)
  · exact has

variable [DecidableEq κ]

/-- Assigning the same bytes of an object. -/
theorem Agree.overwrite (agree : naming.Agree written concrete abstract) {target : ρ}
    (owns : target = naming.destination ∨ naming.Owns target) {covers : Nat → Prop}
    [DecidablePred covers] {bytes : Nat → Byte} {concrete' : Store κ} {abstract' : Store ρ}
    {written' : Written} (grows : ∀ position, written.Has position → written'.Has position)
    (records : target = naming.destination → ∀ position, covers position → written'.Has position)
    (concreteBytes : ∀ object position, concrete' object position =
      if object = naming.object target ∧ covers position then bytes position
      else concrete object position)
    (abstractBytes : ∀ name position, abstract' name position =
      if name = target ∧ covers position then bytes position else abstract name position) :
    naming.Agree written' concrete' abstract' := by
  intro name position free
  have before : concrete (naming.object name) position = abstract name position :=
    agree name position fun touched => free ⟨touched.1, grows position touched.2⟩
  rw [concreteBytes, abstractBytes]
  by_cases covered : covers position
  · by_cases same : name = target
    · rw [if_pos ⟨congrArg naming.object same, covered⟩, if_pos ⟨same, covered⟩]
    · -- Another name of the object is an alias of the destination, which may not be looked at.
      have apart : naming.object name ≠ naming.object target := by
        intro shared
        rcases owns with isDestination | own
        · subst isDestination
          exact free ⟨(naming.aliased_iff name).mpr ⟨same, shared⟩, records rfl position covered⟩
        · exact same (own name shared)
      rw [if_neg fun here => apart here.1, if_neg fun here => same here.1, before]
  · rw [if_neg fun here => covered here.2, if_neg fun here => covered here.2, before]

theorem Agree.write (agree : naming.Agree written concrete abstract) {place : Place ρ}
    (owns : place.object = naming.destination ∨ naming.Owns place.object) (number : Int) :
    naming.Agree (if place.object = naming.destination then written.add place else written)
      (concrete.write (place.rename naming.object) number) (abstract.write place number) := by
  apply @Agree.overwrite _ _ _ _ _ _ _ _ agree place.object owns
    (fun position => place.offset ≤ position ∧ position < place.offset + place.type.size) _
    fun position => byteOf number (position - place.offset)
  · exact fun position has => has_written has
  · intro same position covered
    rw [if_pos same]
    exact has_add.mpr (.inr covered)
  · intro object position
    rfl
  · intro name position
    rfl

theorem Agree.storeVec (agree : naming.Agree written concrete abstract) {target : ρ}
    (owns : target = naming.destination ∨ naming.Owns target) (vec : Vec) :
    naming.Agree (if target = naming.destination then none else written)
      (concrete.storeVec (naming.object target) vec) (abstract.storeVec target vec) := by
  apply @Agree.overwrite _ _ _ _ _ _ _ _ agree target owns (fun position => position < 16) _ vec
  · intro position has
    split
    · trivial
    · exact has
  · intro same position _
    rw [if_pos same]
    trivial
  · intro object position
    rfl
  · intro name position
    rfl

theorem Agree.copy (agree : naming.Agree written concrete abstract) {target : ρ}
    (owns : target = naming.destination ∨ naming.Owns target) (bytes : Nat → Byte) :
    naming.Agree (if target = naming.destination then none else written)
      (Function.update concrete (naming.object target) bytes)
      (Function.update abstract target bytes) := by
  apply @Agree.overwrite _ _ _ _ _ _ _ _ agree target owns (fun _ => True) _ bytes
  · intro position has
    split
    · trivial
    · exact has
  · intro same position _
    rw [if_pos same]
    trivial
  · intro object position
    simp only [Function.update_apply, and_true]
    split <;> rfl
  · intro name position
    simp only [Function.update_apply, and_true]
    split <;> rfl

/-- A statement. -/
theorem Agree.step (agree : naming.Agree written concrete abstract) {statement : VStatement ρ}
    (safe : statement.reads naming.aliased written = true)
    (owns : ∀ target, statement.target = some target →
      target = naming.destination ∨ naming.Owns target) :
    Option.Rel (naming.Agree (statement.written naming.destination written))
      ((statement.rename naming.object).step concrete) (statement.step abstract) := by
  cases statement with
  | scalar statement =>
      cases statement with
      | assign place value =>
          simp only [VStatement.rename, CStatement.rename, VStatement.step, CStatement.step,
            agree.eval safe]
          cases value.eval abstract with
          | none => exact .none
          | some number => exact .some (agree.write (owns _ rfl) number)
      | assignIf condition place value =>
          obtain ⟨conditionSafe, valueSafe⟩ := Bool.and_eq_true_iff.mp safe
          simp only [VStatement.rename, CStatement.rename, VStatement.step, CStatement.step,
            agree.eval conditionSafe, agree.eval valueSafe]
          cases condition.eval abstract with
          | none => exact .none
          | some chosen =>
              rw [Option.bind_some, Option.bind_some]
              split
              · exact .some (agree.mono fun position has => has_written has)
              · cases value.eval abstract with
                | none => exact .none
                | some number => exact .some (agree.write (owns _ rfl) number)
      | copy target source =>
          simp only [VStatement.rename, CStatement.rename, VStatement.step, CStatement.step,
            agree.object safe]
          exact .some (agree.copy (owns _ rfl) _)
  | store target value =>
      simp only [VStatement.rename, VStatement.step, agree.evalVec safe]
      exact .some (agree.storeVec (owns _ rfl) _)
  | extract place function value =>
      simp only [VStatement.rename, VStatement.step, agree.evalVec safe]
      exact .some (agree.write (owns _ rfl) _)
  | trap => exact .none

/-- A program that reads nothing under another name does the same for objects of their own. -/
theorem Agree.run {statements : List (VStatement ρ)}
    (agree : naming.Agree written concrete abstract)
    (safe : VStatement.safe naming.aliased naming.destination written statements = true)
    (owns : ∀ statement ∈ statements, ∀ target, statement.target = some target →
      target = naming.destination ∨ naming.Owns target) :
    Option.Rel (fun left right => ∃ written', naming.Agree written' left right)
      (VStatement.run concrete (statements.map (VStatement.rename naming.object)))
      (VStatement.run abstract statements) := by
  induction statements generalizing written concrete abstract with
  | nil => exact .some ⟨written, agree⟩
  | cons statement rest ih =>
      obtain ⟨statementSafe, restSafe⟩ := Bool.and_eq_true_iff.mp safe
      have stepped := agree.step statementSafe (owns statement List.mem_cons_self)
      rw [List.map_cons, VStatement.run_cons, VStatement.run_cons]
      generalize statement.step abstract = right at stepped ⊢
      generalize (statement.rename naming.object).step concrete = left at stepped ⊢
      cases stepped with
      | none => exact .none
      | some next =>
          exact ih next restSafe fun other member => owns other (List.mem_cons_of_mem _ member)

end Naming

end UfcRecomp.Lib
