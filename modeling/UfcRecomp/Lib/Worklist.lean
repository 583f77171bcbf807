import Mathlib.Data.Set.Finite.Powerset
import Mathlib.Data.Finite.Prod
import Mathlib.Order.Preorder.Finite
import Mathlib.Order.WellFounded
import UfcRecomp.Lib.Simulation

/-!
# Depth-first worklists

A worklist holds the items that were worked off and those that are pending, with the one that is
worked at in front. What is done with an item depends on which other items there are: it stays in
front with a change, or it is left and fresh items are put in front of the others. When there are
finitely many items, the work goes on forever exactly when an item comes back while it is worked
off, and nothing is known then that was not known before.
-/

namespace UfcRecomp.Lib.Worklist

open UfcRecomp.Lib.Loop

universe u

variable {α : Type u}

/-! ## Working off items -/

/-- What is done with an item. -/
inductive Turn (α : Type u) where
  | stay (item : α)
  | leave (item : α) (fresh : List α)

structure Work (α : Type u) where
  explored : List α
  pending : List α

/-- All items of a worklist. -/
def Work.items (work : Work α) : List α := work.explored ++ work.pending

/-- The worklist after a turn of the item in front of `rest`. -/
def Turn.next (explored rest : List α) : Turn α → Work α
  | .stay item => ⟨explored, item :: rest⟩
  | .leave item fresh => ⟨item :: explored, fresh ++ rest⟩

/-- One turn; there is none without an item, or when the visit of the item ends the work. -/
def step (visit : List α → α → Option (Turn α)) (work : Work α) : Option (Work α) :=
  match work.pending with
  | [] => none
  | item :: rest => (visit (work.explored ++ rest) item).map (Turn.next work.explored rest)

/-- Lists with the same members. -/
def Same (left right : List α) : Prop := ∀ item, item ∈ left ↔ item ∈ right

/-- Working off an item comes back to it, and the same items are known then. -/
def Returns (visit : List α → α → Option (Turn α)) (known : List α) (item : α) : Prop :=
  ∃ next work others, step visit ⟨known, [item]⟩ = some next ∧ Visits (step visit) next work ∧
    work.pending = item :: others ∧ Same (work.explored ++ others) known

/-- The work comes to an item that comes back. -/
def Recurs (visit : List α → α → Option (Turn α)) (start : Work α) : Prop :=
  ∃ work item rest, Visits (step visit) start work ∧ work.pending = item :: rest ∧
    Returns visit (work.explored ++ rest) item

/-- A visit looks at which items there are, not at their order. -/
def Unordered (visit : List α → α → Option (Turn α)) : Prop :=
  ∀ left right, Same left right → ∀ item, visit left item = visit right item

variable {visit : List α → α → Option (Turn α)}

theorem step_cons {work : Work α} {item : α} {rest : List α}
    (pending : work.pending = item :: rest) :
    step visit work = (visit (work.explored ++ rest) item).map (Turn.next work.explored rest) := by
  rw [step, pending]

/-! ## The items of a worklist -/

theorem Work.items_perm {work : Work α} {item : α} {rest : List α}
    (pending : work.pending = item :: rest) :
    work.items.Perm (item :: (work.explored ++ rest)) := by
  rw [Work.items, pending]
  exact List.perm_middle

theorem items_stay_perm (explored rest : List α) (item : α) :
    (⟨explored, item :: rest⟩ : Work α).items.Perm (item :: (explored ++ rest)) :=
  List.perm_middle

theorem items_leave_perm (explored fresh rest : List α) (item : α) :
    (⟨item :: explored, fresh ++ rest⟩ : Work α).items.Perm
      (fresh ++ item :: (explored ++ rest)) := by
  change (item :: explored ++ (fresh ++ rest)).Perm _
  rw [← List.append_assoc, ← List.cons_append, ← List.append_assoc]
  exact List.perm_append_comm.append_right rest

/-! ## Work in front of other items -/

/-- The items behind are known to the work in front of them. -/
structure Framed (rest : List α) (inner outer : Work α) : Prop where
  pending : outer.pending = inner.pending ++ rest
  explored : Same inner.explored (outer.explored ++ rest)

namespace Framed

variable {rest : List α} {inner outer : Work α}

/-- The same items are known to both. -/
theorem known (framed : Framed rest inner outer) (others : List α) :
    Same (inner.explored ++ others) (outer.explored ++ (others ++ rest)) := by
  intro item
  have explored := framed.explored item
  simp only [List.mem_append] at explored ⊢
  tauto

/-- A turn of the work in front, or of all of it. -/
theorem next (framed : Framed rest inner outer) (turn : Turn α) (others : List α) :
    Framed rest (turn.next inner.explored others) (turn.next outer.explored (others ++ rest)) := by
  cases turn with
  | stay item => exact ⟨rfl, framed.explored⟩
  | leave item fresh =>
      refine ⟨(List.append_assoc _ _ _).symm, fun other => ?_⟩
      have explored := framed.explored other
      simp only [Turn.next, List.cons_append, List.mem_cons] at explored ⊢
      rw [explored]

theorem visit_eq (unordered : Unordered visit) (framed : Framed rest inner outer) {item : α}
    {others : List α} (pending : inner.pending = item :: others) :
    outer.pending = item :: (others ++ rest) ∧
      visit (outer.explored ++ (others ++ rest)) item = visit (inner.explored ++ others) item :=
  ⟨by rw [framed.pending, pending, List.cons_append],
    (unordered _ _ (framed.known others) item).symm⟩

/-- What the work in front does, all of it does. -/
theorem step (unordered : Unordered visit) (framed : Framed rest inner outer) {after : Work α}
    (goes : Worklist.step visit inner = some after) :
    ∃ after', Worklist.step visit outer = some after' ∧ Framed rest after after' := by
  cases pending : inner.pending with
  | nil => simp [Worklist.step, pending] at goes
  | cons item others =>
      obtain ⟨pending', same⟩ := framed.visit_eq unordered pending
      rw [step_cons pending] at goes
      obtain ⟨turn, visited, rfl⟩ := Option.map_eq_some_iff.mp goes
      refine ⟨turn.next outer.explored (others ++ rest), ?_, framed.next turn others⟩
      rw [step_cons pending', same, visited, Option.map_some]

/-- What all of the work does, the work in front does while it has items. -/
theorem step_inner (unordered : Unordered visit) (framed : Framed rest inner outer)
    (more : inner.pending ≠ []) {after' : Work α}
    (goes : Worklist.step visit outer = some after') :
    ∃ after, Worklist.step visit inner = some after ∧ Framed rest after after' := by
  obtain ⟨item, others, pending⟩ := List.exists_cons_of_ne_nil more
  obtain ⟨pending', same⟩ := framed.visit_eq unordered pending
  rw [step_cons pending', same] at goes
  obtain ⟨turn, visited, rfl⟩ := Option.map_eq_some_iff.mp goes
  refine ⟨turn.next inner.explored others, ?_, framed.next turn others⟩
  rw [step_cons pending, visited, Option.map_some]

theorem visits (unordered : Unordered visit) (framed : Framed rest inner outer) {after : Work α}
    (path : Visits (Worklist.step visit) inner after) :
    ∃ after', Visits (Worklist.step visit) outer after' ∧ Framed rest after after' := by
  induction path with
  | refl => exact ⟨outer, .refl, framed⟩
  | tail _ goes ih =>
      obtain ⟨middle, reached, framed⟩ := ih
      obtain ⟨after', pass, framed⟩ := framed.step unordered goes
      exact ⟨after', reached.tail pass, framed⟩

/-- The work on one item in front of others. -/
theorem single {work : Work α} {item : α} (pending : work.pending = item :: rest) :
    Framed rest ⟨work.explored ++ rest, [item]⟩ work :=
  ⟨pending, fun _ => Iff.rfl⟩

end Framed

/-! ## Work that goes on forever -/

/-- Coming back depends on which items are known. -/
theorem Returns.congr (unordered : Unordered visit) {known other : List α} {item : α}
    (same : Same known other) (returns : Returns visit known item) :
    Returns visit other item := by
  obtain ⟨next, work, others, goes, path, pending, back⟩ := returns
  have framed : Framed [] ⟨known, [item]⟩ ⟨other, [item]⟩ :=
    ⟨rfl, fun any => by rw [List.append_nil]; exact same any⟩
  obtain ⟨next', goes', framed⟩ := framed.step unordered goes
  obtain ⟨work', path', framed⟩ := framed.visits unordered path
  refine ⟨next', work', others, goes', path', by rw [framed.pending, pending, List.append_nil], ?_⟩
  intro any
  have known := framed.known others any
  rw [List.append_nil] at known
  exact known.symm.trans ((back any).trans (same any))

/-- An item that comes back does so again and again. -/
theorem run_eq_none_of_returns (unordered : Unordered visit) {work : Work α} {item : α}
    {rest : List α} (pending : work.pending = item :: rest)
    (returns : Returns visit (work.explored ++ rest) item) (fuel : Nat) :
    run (step visit) fuel work = none := by
  induction fuel using Nat.strong_induction_on generalizing work rest with
  | _ fuel ih =>
      obtain ⟨next, back, others, goes, path, front, same⟩ := returns
      obtain ⟨next', goes', framed⟩ := (Framed.single pending).step unordered goes
      obtain ⟨back', path', framed⟩ := framed.visits unordered path
      have again : back'.pending = item :: (others ++ rest) := by
        rw [framed.pending, front, List.cons_append]
      have known : Same (work.explored ++ rest) (back'.explored ++ (others ++ rest)) := fun any =>
        (same any).symm.trans (framed.known others any)
      cases fuel with
      | zero => rfl
      | succ fuel =>
          rw [run, goes']
          by_contra ends
          obtain ⟨last, completed⟩ := Option.ne_none_iff_exists'.mp ends
          obtain ⟨less, bound, completed⟩ := exists_run_le_of_visits path' completed
          have endless := ih less (Nat.lt_succ_of_le bound) again
            (Returns.congr unordered known ⟨next, back, others, goes, path, front, same⟩)
          rw [endless] at completed
          cases completed

/-- A sequence of numbers has places behind which it is never lower, as far out as one likes. -/
theorem exists_low (depth : Nat → Nat) (first : Nat) :
    ∃ low, first ≤ low ∧ ∀ later, low ≤ later → depth low ≤ depth later := by
  have some : Set.Nonempty {place | first ≤ place} := ⟨first, Nat.le_refl first⟩
  refine ⟨Function.argminOn depth {place | first ≤ place} some,
    Function.argminOn_mem depth _ some, fun later behind => ?_⟩
  exact Function.argminOn_le depth _
    (Nat.le_trans (Function.argminOn_mem depth {place | first ≤ place} some) behind)

/-- Work that does not end, turn by turn. -/
def Endless (visit : List α → α → Option (Turn α)) (trace : Nat → Work α) : Prop :=
  ∀ place, step visit (trace place) = some (trace (place + 1))

theorem exists_endless {start : Work α} (endless : ¬Terminates (step visit) start) :
    ∃ trace, trace 0 = start ∧ Endless visit trace ∧
      ∀ place, Visits (step visit) start (trace place) := by
  let trace (place : Nat) : Work α :=
    Nat.rec start (fun _ work => (step visit work).getD work) place
  have pass : ∀ place, Visits (step visit) start (trace place) →
      step visit (trace place) = some (trace (place + 1)) := by
    intro place visits
    change _ = some ((step visit (trace place)).getD (trace place))
    cases goes : step visit (trace place) with
    | some next => rfl
    | none =>
        obtain ⟨fuel, completed⟩ := exists_run_of_visits visits
          (show run (step visit) 1 (trace place) = some (trace place) by simp [run, goes])
        exact absurd ⟨fuel, _, completed⟩ endless
  have path : ∀ place, Visits (step visit) start (trace place) := by
    intro place
    induction place with
    | zero => exact .refl
    | succ place ih => exact ih.tail (pass place ih)
  exact ⟨trace, rfl, fun place => pass place (path place), path⟩

/-- Behind a place where no fewer items are pending ever after, the work stays in front of the items
that were pending behind the first one. -/
theorem Endless.framed (unordered : Unordered visit) {trace : Nat → Work α}
    (endless : Endless visit trace) {low : Nat} {item : α} {rest : List α}
    (pending : (trace low).pending = item :: rest)
    (lowest : ∀ later, low ≤ later → (trace low).pending.length ≤ (trace later).pending.length)
    {later : Nat} (behind : low < later) :
    ∃ next inner, step visit ⟨(trace low).explored ++ rest, [item]⟩ = some next ∧
      Visits (step visit) next inner ∧ inner.pending ≠ [] ∧ Framed rest inner (trace later) := by
  have more : ∀ {inner : Work α} {place : Nat}, low ≤ place → Framed rest inner (trace place) →
      inner.pending ≠ [] := by
    intro inner place from_ framed empty
    have length := lowest place from_
    rw [framed.pending, empty, pending, List.nil_append, List.length_cons] at length
    omega
  induction later, behind using Nat.le_induction with
  | base =>
      obtain ⟨next, goes, framed⟩ := (Framed.single pending).step_inner unordered
        (List.cons_ne_nil _ _) (endless low)
      exact ⟨next, next, goes, .refl, more (Nat.le_succ low) framed, framed⟩
  | succ later behind ih =>
      obtain ⟨next, inner, goes, path, some, framed⟩ := ih
      obtain ⟨after, pass, framed⟩ := framed.step_inner unordered some (endless later)
      exact ⟨next, after, goes, path.tail pass,
        more (Nat.le_trans (Nat.le_of_succ_le behind) (Nat.le_succ later)) framed, framed⟩

/-- Work on finitely many items ends exactly when none of them comes back. -/
theorem terminates_iff (unordered : Unordered visit) {start : Work α} {items : Set α}
    (finite : items.Finite) (within : ∀ work, Visits (step visit) start work →
      ∀ item ∈ work.items, item ∈ items) :
    Terminates (step visit) start ↔ ¬Recurs visit start := by
  constructor
  · rintro ⟨fuel, final, completed⟩ ⟨work, item, rest, visits, pending, returns⟩
    obtain ⟨less, completed⟩ := run_of_visits visits completed
    rw [run_eq_none_of_returns unordered pending returns] at completed
    cases completed
  · intro never
    by_contra endless
    obtain ⟨trace, rfl, endless, visits⟩ := exists_endless endless
    let lows : Set Nat := {low | ∀ later, low ≤ later →
      (trace low).pending.length ≤ (trace later).pending.length}
    have infinite : lows.Infinite := by
      refine Set.infinite_of_forall_exists_gt fun place => ?_
      obtain ⟨low, behind, lowest⟩ := exists_low (fun place => (trace place).pending.length)
        (place + 1)
      exact ⟨low, lowest, behind⟩
    -- the item in front, and which others there are
    let view (place : Nat) : Option α × Set α :=
      ((trace place).pending.head?,
        {item | item ∈ (trace place).explored ++ (trace place).pending.tail})
    have views : Set.MapsTo view lows
        ((insert none (some '' items)) ×ˢ {known | known ⊆ items}) := by
      intro place _
      refine ⟨?_, fun item member => within _ (visits place) item ?_⟩
      · cases pending : (trace place).pending with
        | nil => exact .inl (by simp [view, pending])
        | cons item rest =>
            refine .inr ⟨item, within _ (visits place) item ?_, by simp [view, pending]⟩
            simp [Work.items, pending]
      · rcases List.mem_append.mp member with explored | pending
        · exact List.mem_append_left _ explored
        · exact List.mem_append_right _ (List.mem_of_mem_tail pending)
    obtain ⟨one, isLow, two, isLow', different, same⟩ := infinite.exists_ne_map_eq_of_mapsTo views
      (((finite.image some).insert none).prod finite.finite_subsets)
    wlog ordered : one < two generalizing one two
    · exact this two isLow' one isLow (Ne.symm different) same.symm
        (lt_of_le_of_ne (Nat.not_lt.mp ordered) (Ne.symm different))
    obtain ⟨front, known⟩ := Prod.mk.inj same
    cases pending : (trace one).pending with
    | nil =>
        have goes := endless one
        simp [step, pending] at goes
    | cons item rest =>
        obtain ⟨next, inner, goes, path, more, framed⟩ :=
          endless.framed unordered pending isLow ordered
        obtain ⟨first, others, innerPending⟩ := List.exists_cons_of_ne_nil more
        have pending' : (trace two).pending = first :: (others ++ rest) := by
          rw [framed.pending, innerPending, List.cons_append]
        obtain rfl : item = first := by simpa [pending, pending'] using front
        refine never ⟨trace one, item, rest, visits one, pending, next, inner, others, goes, path,
          innerPending, fun any => ?_⟩
        have member := Set.ext_iff.mp known any
        rw [pending, pending', List.tail_cons, List.tail_cons] at member
        exact (framed.known others any).trans member.symm

end UfcRecomp.Lib.Worklist
