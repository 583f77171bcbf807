import Mathlib.Logic.Function.Basic

/-!
# Resources that threads hold

Threads acquire resources one at a time and put them into a shared list. `Separated` says that all
resources, the held and the listed ones, are apart from each other in the sense of a symmetric
relation. Each operation of a thread keeps this.
-/

namespace UfcRecomp.Lib

universe u v

variable {τ : Type u} {ρ : Type v}

/-- The resources that threads hold and those in the list are pairwise apart. -/
structure Separated (apart : ρ → ρ → Prop) (held : τ → Option ρ) (entries : List ρ) : Prop where
  listed : entries.Pairwise apart
  held_listed : ∀ {thread resource}, held thread = some resource →
    ∀ other ∈ entries, apart resource other
  held_held : ∀ {thread thread' resource resource'}, thread ≠ thread' →
    held thread = some resource → held thread' = some resource' → apart resource resource'

namespace Separated

variable {apart : ρ → ρ → Prop} {held : τ → Option ρ} {entries : List ρ}

/-- At first there are no resources. -/
theorem empty : Separated apart (fun _ : τ => none) [] where
  listed := .nil
  held_listed := by
    rintro _ _ ⟨⟩
  held_held := by
    rintro _ _ _ _ _ ⟨⟩

/-- Resources are taken out of the list. -/
theorem remove (separated : Separated apart held entries) {fewer : List ρ}
    (sublist : fewer.Sublist entries) : Separated apart held fewer where
  listed := separated.listed.sublist sublist
  held_listed holds other inside := separated.held_listed holds other (sublist.subset inside)
  held_held := separated.held_held

variable [DecidableEq τ]

/-- A thread gives up what it holds. -/
theorem release (separated : Separated apart held entries) (thread : τ) :
    Separated apart (Function.update held thread none) entries where
  listed := separated.listed
  held_listed := by
    intro other resource found
    by_cases same : other = thread
    · subst same
      simp at found
    · rw [Function.update_of_ne same] at found
      exact separated.held_listed found
  held_held := by
    intro one two resource resource' different found found'
    by_cases first : one = thread
    · subst first
      simp at found
    by_cases second : two = thread
    · subst second
      simp at found'
    rw [Function.update_of_ne first] at found
    rw [Function.update_of_ne second] at found'
    exact separated.held_held different found found'

/-- A thread acquires a resource that is apart from all others. -/
theorem acquire (separated : Separated apart held entries)
    (symm : ∀ {resource other}, apart resource other → apart other resource) {thread : τ}
    {resource : ρ} (fromListed : ∀ other ∈ entries, apart resource other)
    (fromHeld : ∀ thread' other, thread' ≠ thread → held thread' = some other →
      apart resource other) :
    Separated apart (Function.update held thread (some resource)) entries where
  listed := separated.listed
  held_listed := by
    intro other found holds
    by_cases same : other = thread
    · subst same
      rw [Function.update_self] at holds
      cases holds
      exact fromListed
    · rw [Function.update_of_ne same] at holds
      exact separated.held_listed holds
  held_held := by
    intro one two found found' different holds holds'
    by_cases first : one = thread
    · subst first
      rw [Function.update_self] at holds
      rw [Function.update_of_ne different.symm] at holds'
      cases holds
      exact fromHeld two found' different.symm holds'
    rw [Function.update_of_ne first] at holds
    by_cases second : two = thread
    · subst second
      rw [Function.update_self] at holds'
      cases holds'
      exact symm (fromHeld one found different holds)
    · rw [Function.update_of_ne second] at holds'
      exact separated.held_held different holds holds'

/-- A thread puts what it holds into the list. -/
theorem publish (separated : Separated apart held entries)
    (symm : ∀ {resource other}, apart resource other → apart other resource) {thread : τ}
    {resource : ρ} (holds : held thread = some resource) :
    Separated apart (Function.update held thread none) (resource :: entries) where
  listed := .cons (separated.held_listed holds) separated.listed
  held_listed := by
    intro other found holds' entry inside
    by_cases same : other = thread
    · subst same
      simp at holds'
    rw [Function.update_of_ne same] at holds'
    rcases List.mem_cons.mp inside with rfl | inside
    · exact symm (separated.held_held (Ne.symm same) holds holds')
    · exact separated.held_listed holds' entry inside
  held_held := (separated.release thread).held_held

end Separated

end UfcRecomp.Lib
