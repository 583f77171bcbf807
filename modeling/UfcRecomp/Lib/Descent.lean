import Mathlib.Data.Set.Finite.Lattice
import Mathlib.Logic.Relation
import Mathlib.Order.OrderIsoNat

/-!
# Recursive descent

A function that calls itself for the places that its own place leads to, one after the other, and
may fail before the first of these calls. The depth of the calls is limited. The descent ends, for
some limit, unless some place is reached that leads back to itself, where places behind one that the
descent fails or does not end at are never reached.
-/

namespace UfcRecomp.Lib.Descent

/-- Why a descent has no result. -/
inductive Failure (ε : Type) where
  /-- The limit of the depth is exceeded. -/
  | limit
  | error (reason : ε)
  deriving DecidableEq

variable {ι ε : Type} (calls : ι → Except ε (List ι))

/-- The descent with a number of calls that may be open at the same time. -/
def descend : Nat → ι → Except (Failure ε) Unit
  | 0, _ => .error .limit
  | limit + 1, i =>
    match calls i with
    | .error reason => .error (.error reason)
    | .ok next => next.forM (descend limit)

/-- The descent ends. -/
def Terminates (i : ι) : Prop := ∃ limit, descend calls limit i ≠ .error .limit

/-- Everything that a place leads to is there, and there is no end of it missing. -/
inductive Unfolds : ι → Prop
  | intro {i : ι} {next : List ι} (here : calls i = .ok next) (rest : ∀ j ∈ next, Unfolds j) :
      Unfolds i

/-- A place is called by another, after what the places before it lead to was gone through. -/
def Enters (i j : ι) : Prop :=
  ∃ before after, calls i = .ok (before ++ j :: after) ∧ ∀ k ∈ before, Unfolds calls k

/-- A call that is made, at some depth, for a place. -/
inductive Nested (i : ι) : Nat → ι → Prop
  | self : Nested i 0 i
  | call {depth : Nat} {j k : ι} (nested : Nested i depth j) (enters : Enters calls j k) :
      Nested i (depth + 1) k

variable {calls}

theorem descend_of_error {limit : Nat} {i : ι} {reason : ε} (here : calls i = .error reason) :
    descend calls (limit + 1) i = .error (.error reason) := by
  rw [descend, here]

theorem descend_of_ok {limit : Nat} {i : ι} {next : List ι} (here : calls i = .ok next) :
    descend calls (limit + 1) i = next.forM (descend calls limit) := by
  rw [descend, here]

theorem forM_cons_of_ok {f : ι → Except (Failure ε) Unit} {i : ι} {next : List ι}
    (first : f i = .ok ()) : (i :: next).forM f = next.forM f := by
  rw [List.forM, first]
  rfl

theorem forM_cons_of_error {f : ι → Except (Failure ε) Unit} {i : ι} {next : List ι}
    {failure : Failure ε} (first : f i = .error failure) : (i :: next).forM f = .error failure := by
  rw [List.forM, first]
  rfl

/-- A loop over places that agrees where the first does not exceed its limit. -/
theorem forM_congr {f g : ι → Except (Failure ε) Unit} {next : List ι}
    (same : ∀ i ∈ next, f i ≠ .error .limit → g i = f i) (ends : next.forM f ≠ .error .limit) :
    next.forM g = next.forM f := by
  induction next with
  | nil => rfl
  | cons i next ih =>
      obtain ⟨here, rest⟩ := List.forall_mem_cons.mp same
      cases first : f i with
      | error failure =>
          rw [forM_cons_of_error first] at ends ⊢
          rw [forM_cons_of_error ((here (first ▸ ends)).trans first)]
      | ok =>
          rw [forM_cons_of_ok first] at ends ⊢
          rw [forM_cons_of_ok ((here (first ▸ by simp)).trans first)]
          exact ih rest ends

/-- A higher limit changes no result. -/
theorem descend_mono {limit more : Nat} {i : ι} (le : limit ≤ more)
    (ends : descend calls limit i ≠ .error .limit) :
    descend calls more i = descend calls limit i := by
  induction limit generalizing more i with
  | zero => exact absurd rfl ends
  | succ limit ih =>
      obtain ⟨more, rfl⟩ := Nat.exists_eq_add_one_of_ne_zero (by omega : more ≠ 0)
      cases here : calls i with
      | error reason => rw [descend_of_error here, descend_of_error here]
      | ok next =>
          rw [descend_of_ok here] at ends ⊢
          rw [descend_of_ok here]
          exact forM_congr (fun j _ => ih (by omega)) ends

theorem forM_eq_ok_iff {f : ι → Except (Failure ε) Unit} {next : List ι} :
    next.forM f = .ok () ↔ ∀ i ∈ next, f i = .ok () := by
  induction next with
  | nil => exact iff_of_true rfl nofun
  | cons i next ih =>
      rw [List.forall_mem_cons]
      cases first : f i with
      | error failure =>
          rw [forM_cons_of_error first]
          exact iff_of_false nofun fun both => nomatch both.1
      | ok =>
          rw [forM_cons_of_ok first, ih]
          exact (and_iff_right rfl).symm

/-- There is one limit for several places. -/
theorem exists_limit {next : List ι} (each : ∀ i ∈ next, ∃ limit, descend calls limit i = .ok ()) :
    ∃ limit, ∀ i ∈ next, descend calls limit i = .ok () := by
  induction next with
  | nil => exact ⟨0, nofun⟩
  | cons i next ih =>
      obtain ⟨⟨first, ofFirst⟩, others⟩ := List.forall_mem_cons.mp each
      obtain ⟨rest, ofRest⟩ := ih others
      refine ⟨max first rest, List.forall_mem_cons.mpr ⟨?_, fun j member => ?_⟩⟩
      · rw [descend_mono (Nat.le_max_left first rest) (by simp [ofFirst]), ofFirst]
      · rw [descend_mono (Nat.le_max_right first rest) (by simp [ofRest j member]), ofRest j member]

/-- What is all there is gone through. -/
theorem unfolds_iff {i : ι} : Unfolds calls i ↔ ∃ limit, descend calls limit i = .ok () := by
  constructor
  · intro unfolds
    induction unfolds with
    | @intro i next here _ ih =>
        obtain ⟨limit, all⟩ := exists_limit ih
        exact ⟨limit + 1, (descend_of_ok here).trans (forM_eq_ok_iff.mpr all)⟩
  · rintro ⟨limit, done⟩
    induction limit generalizing i with
    | zero => exact nomatch done
    | succ limit ih =>
        cases here : calls i with
        | error reason =>
            rw [descend_of_error here] at done
            exact nomatch done
        | ok next =>
            rw [descend_of_ok here, forM_eq_ok_iff] at done
            exact ⟨here, fun j member => ih (done j member)⟩

/-! ## The end of a descent -/

/-- A loop over places of which one exceeds the limit, with what comes before it all there. -/
theorem forM_of_limit {f : ι → Except (Failure ε) Unit} {before after : List ι} {i : ι}
    (start : ∀ j ∈ before, f j = .ok () ∨ f j = .error .limit) (here : f i = .error .limit) :
    (before ++ i :: after).forM f = .error .limit := by
  induction before with
  | nil => exact forM_cons_of_error here
  | cons j before ih =>
      obtain ⟨first, rest⟩ := List.forall_mem_cons.mp start
      rcases first with done | failed
      · rw [List.cons_append, forM_cons_of_ok done]
        exact ih rest
      · exact forM_cons_of_error failed

/-- A place ends when every place that is called by it does. -/
theorem terminates_of_enters {i : ι} (each : ∀ j, Enters calls i j → Terminates calls j) :
    Terminates calls i := by
  cases here : calls i with
  | error reason => exact ⟨1, by simp [descend_of_error here]⟩
  | ok next =>
      -- the places that are gone through, and those behind them
      have ends : ∀ before after, next = before ++ after → (∀ j ∈ before, Unfolds calls j) →
          ∃ limit, after.forM (descend calls limit) ≠ .error .limit := by
        intro before after
        induction after generalizing before with
        | nil => exact fun _ _ => ⟨0, nofun⟩
        | cons j after ih =>
            intro split done
            obtain ⟨limit, first⟩ := each j ⟨before, after, split ▸ here, done⟩
            cases result : descend calls limit j with
            | error failure =>
                refine ⟨limit, ?_⟩
                rw [forM_cons_of_error result]
                exact result ▸ first
            | ok =>
                obtain ⟨more, rest⟩ := ih (before ++ [j]) (by rw [split, List.append_assoc]; rfl)
                  (List.forall_mem_append.mpr
                    ⟨done, List.forall_mem_singleton.mpr (unfolds_iff.mpr ⟨limit, result⟩)⟩)
                refine ⟨max limit more, ?_⟩
                have here := (descend_mono (Nat.le_max_left limit more) first).trans result
                rw [forM_cons_of_ok here,
                  forM_congr (fun k _ => descend_mono (Nat.le_max_right limit more)) rest]
                exact rest
      obtain ⟨limit, done⟩ := ends [] next rfl nofun
      exact ⟨limit + 1, by rwa [descend_of_ok here]⟩

/-- The descent from a called place takes one call less. -/
theorem descend_of_enters {limit : Nat} {i j : ι} (enters : Enters calls i j)
    (ends : descend calls (limit + 1) i ≠ .error .limit) :
    descend calls limit j ≠ .error .limit := by
  obtain ⟨before, after, here, done⟩ := enters
  intro exceeded
  apply ends
  rw [descend_of_ok here]
  refine forM_of_limit (fun k member => ?_) exceeded
  obtain ⟨enough, result⟩ := unfolds_iff.mp (done k member)
  by_cases small : descend calls limit k = .error .limit
  · exact .inr small
  · rcases Nat.le_total limit enough with le | le
    · exact .inl ((descend_mono le small).symm.trans result)
    · exact .inl ((descend_mono le (by simp [result])).trans result)

/-- A place ends within a limit when every place that is called by it ends within one less. -/
theorem descend_succ_of_enters {limit : Nat} {i : ι}
    (each : ∀ j, Enters calls i j → descend calls limit j ≠ .error .limit) :
    descend calls (limit + 1) i ≠ .error .limit := by
  cases here : calls i with
  | error reason => simp [descend_of_error here]
  | ok next =>
      -- the places that are gone through, and those behind them
      have ends : ∀ before after, next = before ++ after → (∀ j ∈ before, Unfolds calls j) →
          after.forM (descend calls limit) ≠ .error .limit := by
        intro before after
        induction after generalizing before with
        | nil => exact fun _ _ => nofun
        | cons j after ih =>
            intro split done
            have first := each j ⟨before, after, split ▸ here, done⟩
            cases result : descend calls limit j with
            | error failure =>
                rw [forM_cons_of_error result]
                exact result ▸ first
            | ok =>
                rw [forM_cons_of_ok result]
                exact ih (before ++ [j]) (by rw [split, List.append_assoc]; rfl)
                  (List.forall_mem_append.mpr
                    ⟨done, List.forall_mem_singleton.mpr (unfolds_iff.mpr ⟨limit, result⟩)⟩)
      rw [descend_of_ok here]
      exact ends [] next rfl nofun

theorem Nested.under {depth : Nat} {i j k : ι} (nested : Nested calls j depth k)
    (enters : Enters calls i j) : Nested calls i (depth + 1) k := by
  induction nested with
  | self => exact .call .self enters
  | call _ next ih => exact .call ih next

/-- The descent keeps to its limit when no call lies deeper. -/
theorem ends_iff_nested {limit : Nat} {i : ι} :
    descend calls limit i ≠ .error .limit ↔
      ∀ depth j, Nested calls i depth j → depth < limit := by
  constructor
  · intro ends depth j nested
    have below : depth < limit ∧ descend calls (limit - depth) j ≠ .error .limit := by
      induction nested with
      | self =>
          refine ⟨Nat.pos_of_ne_zero ?_, ends⟩
          rintro rfl
          exact ends rfl
      | @call depth j k _ enters ih =>
          obtain ⟨less, here⟩ := ih
          have left : limit - depth = limit - (depth + 1) + 1 := by omega
          rw [left] at here
          have next := descend_of_enters enters here
          refine ⟨Nat.lt_of_le_of_ne less fun same => next ?_, next⟩
          rw [same, Nat.sub_self, descend]
    exact below.1
  · intro shallow
    induction limit generalizing i with
    | zero => exact absurd (shallow 0 i .self) (Nat.lt_irrefl 0)
    | succ limit ih =>
        refine descend_succ_of_enters fun j enters => ih fun depth k nested => ?_
        exact Nat.lt_of_succ_lt_succ (shallow _ k (nested.under enters))

/-- The descent ends when there is no endless chain of calls. -/
theorem terminates_iff_acc {i : ι} :
    Terminates calls i ↔ Acc (fun next place => Enters calls place next) i := by
  constructor
  · rintro ⟨limit, ends⟩
    induction limit generalizing i with
    | zero => exact absurd rfl ends
    | succ limit ih => exact ⟨i, fun j enters => ih (descend_of_enters enters ends)⟩
  · intro acc
    induction acc with
    | intro i _ ih => exact terminates_of_enters ih

theorem not_acc_of_cycle {related : ι → ι → Prop} {i : ι} (cycle : Relation.TransGen related i i) :
    ¬Acc (fun next place => related place next) i := by
  intro acc
  have swapped : Acc (Relation.TransGen fun next place => related place next) i := acc.transGen
  induction swapped with
  | intro i _ ih => exact ih i (Relation.transGen_swap.mp cycle) cycle acc

/-- Among finitely many places, the descent ends when no place that is reached leads back to
itself. -/
theorem terminates_iff_of_finite {places : Set ι} (finite : places.Finite) {start : ι}
    (inside : start ∈ places) (closed : ∀ i ∈ places, ∀ j, Enters calls i j → j ∈ places) :
    Terminates calls start ↔
      ¬∃ i, Relation.ReflTransGen (Enters calls) start i ∧
        Relation.TransGen (Enters calls) i i := by
  rw [terminates_iff_acc]
  constructor
  · rintro acc ⟨i, reached, cycle⟩
    refine not_acc_of_cycle cycle ?_
    clear inside cycle
    induction reached with
    | refl => exact acc
    | tail _ enters ih => exact ih.inv enters
  · intro none
    by_contra endless
    obtain ⟨chain, first, next⟩ := not_acc_iff_exists_descending_chain.mp endless
    have within : ∀ n, chain n ∈ places := by
      intro n
      induction n with
      | zero => exact first ▸ inside
      | succ n ih => exact closed _ ih _ (next n)
    have onward : ∀ n k, Relation.ReflTransGen (Enters calls) (chain n) (chain (n + k)) := by
      intro n k
      induction k with
      | zero => exact .refl
      | succ k ih => exact ih.tail (next (n + k))
    obtain ⟨m, n, less, same⟩ := finite.exists_lt_map_eq_of_forall_mem within
    refine none ⟨chain m, ?_, ?_⟩
    · have reached := onward 0 m
      rwa [first, Nat.zero_add] at reached
    · have later := onward (m + 1) (n - (m + 1))
      rw [Nat.add_sub_cancel' less, ← same] at later
      exact Relation.TransGen.head' (next m) later

end UfcRecomp.Lib.Descent
