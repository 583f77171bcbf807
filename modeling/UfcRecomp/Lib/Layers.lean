import Mathlib.Logic.Function.Basic

/-!
# Variables in two layers

A variable lives in a shared store or in a store of its own activation, as a choice says for each
variable. `Agree` relates an activation under one choice to one whose variables are all shared: it
forgets the own variables that were not written. What is assigned to both is known afterwards, and
what is read from both is the same where it is known.
-/

namespace UfcRecomp.Lib

universe u v

variable {ι : Type u} {β : ι → Type v}

/-- The shared variables and those of an activation. -/
@[ext]
structure Layers (β : ι → Type v) where
  shared : ∀ i, β i
  own : ∀ i, β i

namespace Layers

/-- The value of a variable. -/
def view (isOwn : ι → Bool) (layers : Layers β) (i : ι) : β i :=
  if isOwn i then layers.own i else layers.shared i

/-- The values of some variables, and zero for the others. -/
def read [DecidableEq ι] [∀ i, Zero (β i)] (isOwn : ι → Bool) (places : List ι)
    (layers : Layers β) (i : ι) : β i :=
  if i ∈ places then layers.view isOwn i else 0

/-- Assign to some variables. -/
def assign [DecidableEq ι] (isOwn : ι → Bool) (places : List ι) (values : ∀ i, β i)
    (layers : Layers β) : Layers β where
  shared i := if i ∈ places ∧ isOwn i = false then values i else layers.shared i
  own i := if i ∈ places ∧ isOwn i = true then values i else layers.own i

/-- Whether the variables that are shared, and the own ones that were written, have the values that
they have when all variables are shared. -/
def Agree (isOwn : ι → Bool) (written : Set ι) (layers all : Layers β) : Prop :=
  ∀ i, isOwn i = false ∨ i ∈ written → layers.view isOwn i = all.shared i

variable {isOwn : ι → Bool} {written : Set ι} {layers all : Layers β}

theorem Agree.shared (agree : Agree isOwn written layers all) {i : ι} (notOwn : isOwn i = false) :
    layers.shared i = all.shared i := by
  have same := agree i (.inl notOwn)
  rw [view, notOwn] at same
  exact same

/-- Nothing is known of the variables of another activation. -/
theorem agree_of_shared (same : ∀ i, isOwn i = false → layers.shared i = all.shared i) :
    Agree isOwn ∅ layers all := by
  rintro i (notOwn | ⟨⟨⟩⟩)
  rw [view, notOwn]
  exact same i notOwn

variable [DecidableEq ι]

theorem view_assign (places : List ι) (values : ∀ i, β i) (i : ι) :
    (layers.assign isOwn places values).view isOwn i =
      if i ∈ places then values i else layers.view isOwn i := by
  cases own : isOwn i <;> simp [view, assign, own]

/-- What was written is known. -/
theorem Agree.assign (agree : Agree isOwn written layers all) (places : List ι)
    (values : ∀ i, β i) :
    Agree isOwn (written ∪ {i | i ∈ places}) (layers.assign isOwn places values)
      (all.assign (fun _ => false) places values) := by
  intro i known
  rw [view_assign]
  by_cases among : i ∈ places
  · simp [Layers.assign, among]
  · have before : isOwn i = false ∨ i ∈ written := by
      rcases known with notOwn | old | new
      · exact .inl notOwn
      · exact .inr old
      · exact absurd new among
    simp [Layers.assign, among, agree i before]

/-- What is known is read alike. -/
theorem Agree.read [∀ i, Zero (β i)] (agree : Agree isOwn written layers all) {places : List ι}
    (known : ∀ i ∈ places, isOwn i = true → i ∈ written) :
    layers.read isOwn places = all.read (fun _ => false) places := by
  ext i
  rw [Layers.read, Layers.read]
  split
  next among =>
    change layers.view isOwn i = all.shared i
    apply agree i
    cases own : isOwn i with
    | false => exact .inl rfl
    | true => exact .inr (known i among own)
  next => rfl

end Layers

end UfcRecomp.Lib
