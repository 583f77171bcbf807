import Mathlib.Data.Option.Basic

/-!
# Machines in lockstep

Two machines that take their steps together, in states that stay related, show the same after any
number of steps: one of them stops or is stuck when the other one is.
-/

namespace UfcRecomp.Lib

universe u v w

variable {σ : Type u} {τ : Type v} {ω : Type w}

/-- The state after a number of steps. -/
def steps (step : σ → Option σ) : Nat → σ → Option σ
  | 0, state => some state
  | n + 1, state => (step state).bind (steps step n)

/-- What related states show is the same after every number of steps. -/
theorem observe_steps {step : σ → Option σ} {step' : τ → Option τ} {related : σ → τ → Prop}
    {observe : σ → ω} {observe' : τ → ω}
    (kept : ∀ {state state'}, related state state' → Option.Rel related (step state) (step' state'))
    (shows : ∀ {state state'}, related state state' → observe state = observe' state')
    {first : σ} {first' : τ} (start : related first first') (n : Nat) :
    (steps step n first).map observe = (steps step' n first').map observe' := by
  induction n generalizing first first' with
  | zero => exact congrArg some (shows start)
  | succ n ih =>
      rw [steps, steps]
      generalize next : step first = result
      generalize next' : step' first' = result'
      have same := kept start
      rw [next, next'] at same
      cases same with
      | none => rfl
      | some related => exact ih related

end UfcRecomp.Lib
