import Mathlib.Order.WellFounded

/-!
# Loops given by a partial step

A loop is a function `step : σ → Option σ`: `none` ends it, `some` is the next
state. `run` executes it with an explicit bound on the number of passes, and
`Visits` relates a state to every state the loop comes to. The rules below turn
a fact about one pass into a fact about every visited state, and a well-founded
argument about one pass into termination.
-/

namespace UfcRecomp.Lib.Loop

universe u v

variable {σ : Type u} {step : σ → Option σ}

/-- Execute at most `fuel` passes; `none` means that the bound was too small. -/
def run (step : σ → Option σ) : Nat → σ → Option σ
  | 0, _ => none
  | fuel + 1, state =>
    match step state with
    | none => some state
    | some next => run step fuel next

/-- The states a loop comes to, the first one included. -/
inductive Visits (step : σ → Option σ) : σ → σ → Prop where
  | refl {state} : Visits step state state
  | tail {first state next} (prior : Visits step first state)
      (pass : step state = some next) : Visits step first next

/-- Some bound on the passes lets the loop end. -/
def Terminates (step : σ → Option σ) (state : σ) : Prop :=
  ∃ fuel final, run step fuel state = some final

/-- A pass at the front of a visit. -/
theorem Visits.head {state next final : σ} (pass : step state = some next)
    (visits : Visits step next final) : Visits step state final := by
  induction visits with
  | refl => exact .tail .refl pass
  | tail _ last ih => exact .tail ih last

/-- What one pass preserves holds of every visited state. -/
theorem Visits.invariant {motive : σ → Prop} {first final : σ}
    (visits : Visits step first final) (initial : motive first)
    (preserved : ∀ {state next}, motive state → step state = some next → motive next) :
    motive final := by
  induction visits with
  | refl => exact initial
  | tail _ pass ih => exact preserved ih pass

/-- A completed run visits its final state, where no further pass is possible. -/
theorem visits_of_run {fuel : Nat} {state final : σ}
    (completed : run step fuel state = some final) :
    Visits step state final ∧ step final = none := by
  induction fuel generalizing state with
  | zero => simp [run] at completed
  | succ fuel ih =>
      rw [run] at completed
      cases pass : step state with
      | none =>
          obtain rfl : state = final := by simpa [pass] using completed
          exact ⟨.refl, pass⟩
      | some next =>
          obtain ⟨visits, last⟩ := ih (by simpa [pass] using completed)
          exact ⟨visits.head pass, last⟩

/-- A larger bound does not change the result of a completed run. -/
theorem run_mono {fuel more : Nat} {state final : σ} (enough : fuel ≤ more)
    (completed : run step fuel state = some final) : run step more state = some final := by
  induction fuel generalizing state more with
  | zero => simp [run] at completed
  | succ fuel ih =>
      obtain ⟨more, rfl⟩ : ∃ rest, more = rest + 1 := ⟨more - 1, by omega⟩
      rw [run] at completed ⊢
      cases pass : step state with
      | none => simpa [pass] using completed
      | some next =>
          simp only [pass] at completed ⊢
          exact ih (by omega) completed

/-- Two completed runs from one state end in the same state. -/
theorem run_deterministic {fuel fuel' : Nat} {state final final' : σ}
    (first : run step fuel state = some final) (second : run step fuel' state = some final') :
    final = final' := by
  have atMax := run_mono (Nat.le_max_left fuel fuel') first
  rw [run_mono (Nat.le_max_right fuel fuel') second] at atMax
  exact (Option.some.inj atMax).symm

/-- A completed run ends where the run from any visited state ends. -/
theorem run_of_visits {state visited final : σ} (visits : Visits step state visited)
    {fuel : Nat} (completed : run step fuel state = some final) :
    ∃ less, run step less visited = some final := by
  induction visits with
  | refl => exact ⟨fuel, completed⟩
  | tail _ pass ih =>
      obtain ⟨less, rest⟩ := ih
      cases less with
      | zero => simp [run] at rest
      | succ less => exact ⟨less, by simpa [run, pass] using rest⟩

/-- A loop at its end terminates. -/
theorem terminates_of_none {state : σ} (last : step state = none) : Terminates step state :=
  ⟨1, state, by simp [run, last]⟩

/-- A loop terminates when it terminates after one pass. -/
theorem terminates_of_some {state next : σ} (pass : step state = some next)
    (rest : Terminates step next) : Terminates step state := by
  obtain ⟨fuel, final, completed⟩ := rest
  exact ⟨fuel + 1, final, by simpa [run, pass] using completed⟩

/-- A loop that keeps an invariant under which another pass is always possible never ends. -/
theorem run_eq_none {inv : σ → Prop}
    (progress : ∀ state, inv state → ∃ next, step state = some next ∧ inv next)
    {state : σ} (holds : inv state) (fuel : Nat) : run step fuel state = none := by
  induction fuel generalizing state with
  | zero => rfl
  | succ fuel ih =>
      obtain ⟨next, pass, holdsNext⟩ := progress state holds
      simpa [run, pass] using ih holdsNext

/-- A run from a visited state completes the run to it. -/
theorem exists_run_of_visits {state visited final : σ} (visits : Visits step state visited)
    {fuel : Nat} (completed : run step fuel visited = some final) :
    ∃ more, run step more state = some final := by
  induction visits generalizing fuel with
  | refl => exact ⟨fuel, completed⟩
  | tail _ pass ih => exact @ih (fuel + 1) (by simpa [run, pass] using completed)

/-! ## Passes with a bound of their own

The passes of a loop may run loops themselves. A family of steps gives each pass the same bound
as the loop; a larger bound completes the same passes. -/

/-- A larger bound completes at least the same passes, with the same results. -/
def Grows (family : Nat → σ → Option σ) : Prop :=
  ∀ ⦃fuel more state next⦄, fuel ≤ more → family fuel state = some next →
    family more state = some next

variable {family : Nat → σ → Option σ}

theorem Visits.grow (grows : Grows family) {fuel more : Nat} (enough : fuel ≤ more)
    {first last : σ} (visits : Visits (family fuel) first last) :
    Visits (family more) first last := by
  induction visits with
  | refl => exact .refl
  | tail _ pass ih => exact ih.tail (grows enough pass)

/-- A larger bound for the passes completes the same run, when it does not go past its end. -/
theorem run_grow (grows : Grows family) {fuel more : Nat} (enough : fuel ≤ more) {passes : Nat}
    {first last : σ} (completed : run (family fuel) passes first = some last)
    (ends : family more last = none) : run (family more) passes first = some last := by
  induction passes generalizing first with
  | zero => simp [run] at completed
  | succ passes ih =>
      rw [run] at completed ⊢
      cases pass : family fuel first with
      | none =>
          obtain rfl : first = last := by simpa [pass] using completed
          simp [ends]
      | some next =>
          rw [grows enough pass]
          exact ih (by simpa [pass] using completed)

/-- A loop completes when every visited state is at the end or, with a larger bound, makes a pass
that lowers a natural-number measure. -/
theorem exists_run_of_progress (grows : Grows family) {atEnd : σ → Prop} (measure : σ → Nat)
    (ends : ∀ {fuel state}, atEnd state → family fuel state = none) {first : σ} {start : Nat}
    (progress : ∀ {fuel state}, start ≤ fuel → Visits (family fuel) first state → atEnd state ∨
      ∃ more next, fuel ≤ more ∧ family more state = some next ∧ measure next < measure state) :
    ∃ fuel last, start ≤ fuel ∧ run (family fuel) fuel first = some last ∧ atEnd last := by
  have reaches : ∀ {fuel state}, start ≤ fuel → Visits (family fuel) first state →
      ∃ more last, start ≤ more ∧ Visits (family more) first last ∧ atEnd last := by
    intro fuel state low visits
    induction bound : measure state using Nat.strong_induction_on generalizing fuel state with
    | _ bound ih =>
        rcases progress low visits with atEnd | ⟨more, next, enough, pass, lower⟩
        · exact ⟨fuel, state, low, visits, atEnd⟩
        · have later : Visits (family more) first next := (visits.grow grows enough).tail pass
          exact ih _ (bound ▸ lower) (Nat.le_trans low enough) later rfl
  obtain ⟨fuel, last, low, visits, atEnd⟩ := reaches (Nat.le_refl start) .refl
  obtain ⟨passes, completed⟩ := exists_run_of_visits visits
    (show run (family fuel) 1 last = some last by simp [run, ends atEnd])
  refine ⟨max fuel passes, last, by omega, ?_, atEnd⟩
  exact run_grow grows (Nat.le_max_left fuel passes)
    (run_mono (Nat.le_max_right fuel passes) completed) (ends atEnd)

end UfcRecomp.Lib.Loop
