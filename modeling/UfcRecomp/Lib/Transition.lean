/-!
# Runs of a step function

`step` says what an action does in a state, if it can be taken there. `Reach` relates a state to
those that a run comes to when a condition holds of every action in the state where it is taken;
with the condition that always holds these are all runs. With threads that take their actions in
any order, the runs are their interleavings.
-/

namespace UfcRecomp.Lib

universe u v

variable {σ : Type u} {α : Type v}

/-- The states that runs come to whose actions all meet the condition. -/
inductive Reach (step : σ → α → Option σ) (condition : σ → α → Prop) (first : σ) : σ → Prop where
  | refl : Reach step condition first first
  | tail {state next action} (prior : Reach step condition first state)
      (meets : condition state action) (taken : step state action = some next) :
      Reach step condition first next

/-- Take actions one after the other, as long as they meet the condition. -/
def takeAll (step : σ → α → Option σ) (condition : σ → α → Prop)
    [∀ state action, Decidable (condition state action)] : List α → σ → Option σ
  | [], state => some state
  | action :: rest, state =>
    if condition state action then (step state action).bind (takeAll step condition rest) else none

variable {step : σ → α → Option σ} {condition : σ → α → Prop} {first state : σ}

/-- What every action that meets the condition preserves holds of every state reached. -/
theorem Reach.invariant {motive : σ → Prop} (reach : Reach step condition first state)
    (initial : motive first)
    (preserved : ∀ {state action next}, motive state → condition state action →
      step state action = some next → motive next) : motive state := by
  induction reach with
  | refl => exact initial
  | tail _ meets taken ih => exact preserved ih meets taken

/-- A run goes on from where another one came to. -/
theorem Reach.trans {middle : σ} (prior : Reach step condition first middle)
    (later : Reach step condition middle state) : Reach step condition first state := by
  induction later with
  | refl => exact prior
  | tail _ meets taken ih => exact .tail ih meets taken

/-- Actions that can be taken one after the other are a run. -/
theorem reach_of_takeAll [∀ state action, Decidable (condition state action)] {actions : List α}
    (taken : takeAll step condition actions first = some state) :
    Reach step condition first state := by
  induction actions generalizing first with
  | nil =>
      cases taken
      exact .refl
  | cons action rest ih =>
      rw [takeAll] at taken
      split at taken
      next meets =>
        obtain ⟨middle, pass, taken⟩ := Option.bind_eq_some_iff.mp taken
        have one : Reach step condition first middle := .tail .refl meets pass
        exact one.trans (ih taken)
      next => cases taken

end UfcRecomp.Lib
