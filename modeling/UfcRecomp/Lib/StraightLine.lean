import Mathlib.Data.Option.Basic
import Mathlib.Data.List.Basic

/-!
# Straight-line code

Instructions that are executed one after the other, by a machine whose steps may fail and by one
whose steps may lead to several states. If every instruction keeps a relation between the states of
the two, so does every sequence of instructions.
-/

namespace UfcRecomp.Lib

universe u v w

variable {ι : Type u} {σ : Type v} {τ : Type w}

/-- Execute instructions one after the other. -/
def executeAll (execute : ι → σ → Option σ) : List ι → σ → Option σ
  | [], state => some state
  | code :: rest, state => (execute code state).bind (executeAll execute rest)

/-- A sequence of instructions may lead from a state to another one. -/
def MayLead (may : ι → τ → τ → Prop) : List ι → τ → τ → Prop
  | [], before, after => after = before
  | code :: rest, before, after => ∃ middle, may code before middle ∧ MayLead may rest middle after

section Sequences

variable {execute : ι → σ → Option σ} {may : ι → τ → τ → Prop}

theorem mayLead_append {first second : List ι} {before after : τ} :
    MayLead may (first ++ second) before after ↔
      ∃ middle, MayLead may first before middle ∧ MayLead may second middle after := by
  induction first generalizing before with
  | nil =>
      constructor
      · exact fun leads => ⟨before, rfl, leads⟩
      · rintro ⟨middle, rfl, leads⟩
        exact leads
  | cons code rest ih =>
      constructor
      · rintro ⟨next, step, leads⟩
        obtain ⟨middle, first, second⟩ := ih.mp leads
        exact ⟨middle, ⟨next, step, first⟩, second⟩
      · rintro ⟨middle, ⟨next, step, first⟩, second⟩
        exact ⟨next, step, ih.mpr ⟨middle, first, second⟩⟩

/-- One execution of an instruction, on states that are related, leads to states that are related. -/
def Keeps (execute : ι → σ → Option σ) (may : ι → τ → τ → Prop) (related : σ → τ → Prop) (code : ι) :
    Prop :=
  ∀ {state : σ} {before : τ}, related state before →
    ∃ next after, execute code state = some next ∧ may code before after ∧ related next after

/-- So does one execution of a sequence. -/
theorem exists_executeAll {related : σ → τ → Prop} {program : List ι}
    (keeps : ∀ code ∈ program, Keeps execute may related code) {state : σ} {before : τ}
    (start : related state before) :
    ∃ next after, executeAll execute program state = some next ∧
      MayLead may program before after ∧ related next after := by
  induction program generalizing state before with
  | nil => exact ⟨state, before, rfl, rfl, start⟩
  | cons code rest ih =>
      obtain ⟨middle, between, executed, may, related⟩ :=
        keeps code List.mem_cons_self start
      obtain ⟨next, after, ran, leads, finish⟩ :=
        ih (fun other member => keeps other (List.mem_cons_of_mem _ member)) related
      refine ⟨next, after, ?_, ⟨between, may, leads⟩, finish⟩
      rw [executeAll, executed, Option.bind_some, ran]

end Sequences

end UfcRecomp.Lib
