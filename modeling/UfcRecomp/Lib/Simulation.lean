import UfcRecomp.Lib.Lockstep
import UfcRecomp.Lib.Loop

/-!
# Loops that follow loops

A loop follows another one when it makes passes, at least one, for each pass of the other, so that
both stay related. It then comes to every state that the other one comes to, and it ends if and only
if the other one does: the passes in between cannot go on forever.
-/

namespace UfcRecomp.Lib.Loop

universe u v

variable {σ : Type u} {τ : Type v}

/-- What passes of `first` and `second` have to do with each other, under a relation that may use
what is known of the states visited, and where `first` ends. -/
structure Follows (first : σ → Option σ) (second : τ → Option τ) (related final : σ → τ → Prop) :
    Prop where
  pass {state : σ} {next : σ} {state' : τ} (here : related state state')
    (goes : first state = some next) :
    ∃ middle next', second state' = some middle ∧ Visits second middle next' ∧ related next next'
  last {state : σ} {state' : τ} (here : related state state') (ends : first state = none) :
    ∃ last', Visits second state' last' ∧ second last' = none ∧ final state last'

theorem Visits.trans {step : σ → Option σ} {first middle last : σ}
    (front : Visits step first middle) (back : Visits step middle last) :
    Visits step first last := by
  induction back with
  | refl => exact front
  | tail _ pass ih => exact .tail ih pass

/-- A visit makes no pass or starts with one. -/
theorem Visits.eq_or_head {step : σ → Option σ} {first last : σ} (visits : Visits step first last) :
    first = last ∨ ∃ middle, step first = some middle ∧ Visits step middle last := by
  induction visits with
  | refl => exact .inl rfl
  | tail prior pass ih =>
      rcases ih with rfl | ⟨middle, starts, rest⟩
      · exact .inr ⟨_, pass, .refl⟩
      · exact .inr ⟨middle, starts, rest.tail pass⟩

/-- Every visited state comes to the last one. -/
theorem Visits.to_last {step : σ → Option σ} {first middle last : σ}
    (front : Visits step first middle) (visits : Visits step first last) (ends : step last = none) :
    Visits step middle last := by
  induction front with
  | refl => exact visits
  | tail _ pass ih =>
      rcases ih.eq_or_head with rfl | ⟨next, pass', rest⟩
      · exact absurd (pass.symm.trans ends) (Option.some_ne_none _)
      · obtain rfl := Option.some.inj (pass.symm.trans pass')
        exact rest

/-- From a visited state the rest of a completed run takes no more passes. -/
theorem exists_run_le_of_visits {step : σ → Option σ} {state visited last : σ}
    (visits : Visits step state visited) {fuel : Nat}
    (completed : run step fuel state = some last) :
    ∃ less ≤ fuel, run step less visited = some last := by
  induction visits with
  | refl => exact ⟨fuel, Nat.le_refl fuel, completed⟩
  | tail _ pass ih =>
      obtain ⟨less, bound, rest⟩ := ih
      cases less with
      | zero => simp [run] at rest
      | succ less =>
          rw [run, pass] at rest
          exact ⟨less, Nat.le_of_succ_le bound, rest⟩

/-- A run ends in a state if it comes there after some number of steps and cannot go on. -/
theorem exists_run_iff_steps {step : σ → Option σ} {first last : σ} :
    (∃ fuel, run step fuel first = some last) ↔
      (∃ n, steps step n first = some last) ∧ step last = none := by
  constructor
  · rintro ⟨fuel, completed⟩
    refine ⟨?_, (visits_of_run completed).2⟩
    induction fuel generalizing first with
    | zero => simp [run] at completed
    | succ fuel ih =>
        rw [run] at completed
        cases pass : step first with
        | none =>
            obtain rfl : first = last := by simpa [pass] using completed
            exact ⟨0, rfl⟩
        | some next =>
            obtain ⟨n, rest⟩ := ih (by simpa [pass] using completed)
            exact ⟨n + 1, by rw [steps, pass]; exact rest⟩
  · rintro ⟨⟨n, reached⟩, ends⟩
    induction n generalizing first with
    | zero =>
        obtain rfl := Option.some.inj reached
        exact ⟨1, by simp [run, ends]⟩
    | succ n ih =>
        rw [steps] at reached
        obtain ⟨next, pass, rest⟩ := Option.bind_eq_some_iff.mp reached
        obtain ⟨fuel, completed⟩ := ih rest
        exact ⟨fuel + 1, by simpa [run, pass] using completed⟩

namespace Follows

variable {first : σ → Option σ} {second : τ → Option τ} {related final : σ → τ → Prop}
  {state last : σ} {state' last' : τ}

/-- The loop that follows comes to a related state. -/
theorem visits (follows : Follows first second related final) (here : related state state')
    (path : Visits first state last) :
    ∃ last', Visits second state' last' ∧ related last last' := by
  induction path with
  | refl => exact ⟨state', .refl, here⟩
  | tail _ goes ih =>
      obtain ⟨before, reached, relatedBefore⟩ := ih
      obtain ⟨middle, next', pass, more, relatedNext⟩ := follows.pass relatedBefore goes
      exact ⟨next', (reached.tail pass).trans more, relatedNext⟩

/-- It ends where the other one ends. -/
theorem exists_run (follows : Follows first second related final) (here : related state state')
    {fuel : Nat} (completed : run first fuel state = some last) :
    ∃ more last', run second more state' = some last' ∧ final last last' := by
  obtain ⟨path, ends⟩ := visits_of_run completed
  obtain ⟨behind, reached, relatedLast⟩ := follows.visits here path
  obtain ⟨last', more, stops, isFinal⟩ := follows.last relatedLast ends
  have one : run second 1 last' = some last' := by simp [run, stops]
  obtain ⟨enough, run⟩ := exists_run_of_visits (reached.trans more) one
  exact ⟨enough, last', run, isFinal⟩

/-- It does not end otherwise. -/
theorem exists_run_of_run (follows : Follows first second related final)
    (here : related state state') {fuel : Nat} (completed : run second fuel state' = some last') :
    ∃ passes last, run first passes state = some last ∧ final last last' := by
  induction fuel using Nat.strong_induction_on generalizing state state' with
  | _ fuel ih =>
      cases goes : first state with
      | none =>
          obtain ⟨end', more, stops, isFinal⟩ := follows.last here goes
          have one : run second 1 end' = some end' := by simp [run, stops]
          obtain ⟨less, rest⟩ := run_of_visits more completed
          obtain rfl : end' = last' := run_deterministic one rest
          exact ⟨1, state, by simp [run, goes], isFinal⟩
      | some next =>
          obtain ⟨middle, next', pass, more, relatedNext⟩ := follows.pass here goes
          cases fuel with
          | zero => simp [run] at completed
          | succ fuel =>
              rw [run, pass] at completed
              obtain ⟨less, bound, rest⟩ := exists_run_le_of_visits more completed
              obtain ⟨passes, last, completed, isFinal⟩ := ih less (by omega) relatedNext rest
              exact ⟨passes + 1, last, by simpa [run, goes] using completed, isFinal⟩

end Follows

end UfcRecomp.Lib.Loop
