import Mathlib.Data.List.Sort

/-!
# Sorted ranges and their contiguous front

A sorting routine is given by its contract, because a routine that is not stable
may order equal keys in any way. Over a list sorted by the first position of each
range, `contiguous` keeps the ranges in front of the first gap between neighbours.
-/

namespace UfcRecomp.Lib.Sorted

universe u

variable {α : Type u}

/-- A sorting routine that promises nothing about elements with equal keys. -/
structure Sorter (key : α → Nat) where
  /-- The sorted list. -/
  sort : List α → List α
  /-- Sorting permutes. -/
  perm (items : List α) : (sort items).Perm items
  /-- The result ascends. -/
  sorted (items : List α) : (sort items).Pairwise fun left right => key left ≤ key right

/-- Insertion sort meets the contract. -/
def Sorter.insertion (key : α → Nat) : Sorter key where
  sort items := items.insertionSort fun left right => key left ≤ key right
  perm items := List.perm_insertionSort _ items
  sorted items := by
    have total : Std.Total fun left right : α => key left ≤ key right :=
      ⟨fun left right => Nat.le_total (key left) (key right)⟩
    have transitive : IsTrans α fun left right => key left ≤ key right :=
      ⟨fun _ _ _ => Nat.le_trans⟩
    exact List.pairwise_insertionSort _ items

variable {first stop : α → Nat}

/-- Keep the ranges in front of the first neighbours that leave a gap. -/
def contiguous (first stop : α → Nat) : List α → List α
  | [] => []
  | [range] => [range]
  | range :: next :: rest =>
    if first next ≤ stop range then range :: contiguous first stop (next :: rest) else [range]

/-- The ranges that `contiguous` keeps are a front of the list. The kept ranges leave no gap
up to the end of the last one, and what is dropped starts behind that end. -/
theorem contiguous_split {range : α} {rest : List α}
    (ascending : (range :: rest).Pairwise fun left right => first left ≤ first right) :
    ∃ front last dropped, range :: rest = front ++ last :: dropped ∧
      contiguous first stop (range :: rest) = front ++ [last] ∧
      (∀ later ∈ dropped, stop last < first later) ∧
      ∀ position, first range ≤ position → position < stop last →
        ∃ kept ∈ front ++ [last], first kept ≤ position ∧ position < stop kept := by
  induction rest generalizing range with
  | nil =>
      refine ⟨[], range, [], rfl, rfl, by simp, ?_⟩
      intro position low high
      exact ⟨range, by simp, low, high⟩
  | cons next rest ih =>
      obtain ⟨lowest, ascendingRest⟩ := List.pairwise_cons.mp ascending
      by_cases touches : first next ≤ stop range
      · obtain ⟨front, last, dropped, split, kept, behind, covered⟩ := ih ascendingRest
        refine ⟨range :: front, last, dropped, by simp [split], ?_, behind, ?_⟩
        · simp [contiguous, touches, kept]
        · intro position low high
          by_cases inside : position < stop range
          · exact ⟨range, by simp, low, inside⟩
          · obtain ⟨holder, member, bounds⟩ := covered position (by omega) high
            exact ⟨holder, List.mem_cons_of_mem _ member, bounds⟩
      · refine ⟨[], range, next :: rest, rfl, by simp [contiguous, touches], ?_, ?_⟩
        · intro later member
          have fromNext : first next ≤ first later := by
            rcases List.mem_cons.mp member with rfl | member
            · exact Nat.le_refl _
            · exact (List.pairwise_cons.mp ascendingRest).1 later member
          omega
        · intro position low high
          exact ⟨range, by simp, low, high⟩

/-- What is kept is among the ranges. -/
theorem mem_of_mem_contiguous {ranges : List α} {range : α}
    (kept : range ∈ contiguous first stop ranges) : range ∈ ranges := by
  induction ranges with
  | nil => exact kept
  | cons head rest ih =>
      cases rest with
      | nil => exact kept
      | cons next rest =>
          rw [contiguous] at kept
          split at kept
          · rcases List.mem_cons.mp kept with rfl | kept
            · exact List.mem_cons_self
            · exact List.mem_cons_of_mem _ (ih kept)
          · obtain rfl : range = head := by simpa using kept
            exact List.mem_cons_self

/-- A range that starts no later than the first one is kept. -/
theorem mem_contiguous_of_first_le {head range : α} {rest : List α}
    (ascending : (head :: rest).Pairwise fun left right => first left ≤ first right)
    (ordered : ∀ any ∈ head :: rest, first any ≤ first head → first any ≤ stop any)
    (member : range ∈ head :: rest) (low : first range ≤ first head) :
    range ∈ contiguous first stop (head :: rest) := by
  induction rest generalizing head with
  | nil => exact member
  | cons next rest ih =>
      obtain ⟨lowest, ascendingRest⟩ := List.pairwise_cons.mp ascending
      rw [contiguous]
      rcases List.mem_cons.mp member with rfl | member
      · split <;> simp
      · have fromNext : first next ≤ first range := by
          rcases List.mem_cons.mp member with rfl | member
          · exact Nat.le_refl _
          · exact (List.pairwise_cons.mp ascendingRest).1 range member
        have toNext := lowest next List.mem_cons_self
        have headOrdered := ordered head List.mem_cons_self (Nat.le_refl _)
        rw [if_pos (by omega)]
        refine List.mem_cons_of_mem _ (ih ascendingRest ?_ member (by omega))
        intro any among lowAny
        exact ordered any (List.mem_cons_of_mem _ among) (by omega)

/-- When each range that starts by a bound ends by it, and the first one starts by it, then every
kept range starts by it. -/
theorem first_le_of_mem_contiguous {bound : Nat} {head range : α} {rest : List α}
    (ends : ∀ any ∈ head :: rest, first any ≤ bound → stop any ≤ bound)
    (start : first head ≤ bound) (kept : range ∈ contiguous first stop (head :: rest)) :
    first range ≤ bound := by
  induction rest generalizing head with
  | nil =>
      obtain rfl : range = head := by simpa [contiguous] using kept
      exact start
  | cons next rest ih =>
      rw [contiguous] at kept
      by_cases touches : first next ≤ stop head
      · rw [if_pos touches] at kept
        rcases List.mem_cons.mp kept with rfl | kept
        · exact start
        · have headEnds := ends head List.mem_cons_self start
          exact ih (fun any member => ends any (List.mem_cons_of_mem _ member)) (by omega) kept
      · rw [if_neg touches] at kept
        obtain rfl : range = head := by simpa using kept
        exact start

/-- The furthest end of a list of ranges is an upper bound that is attained. -/
theorem furthest_spec (ranges : List α) (start : Nat) :
    start ≤ ranges.foldl (fun furthest range => max furthest (stop range)) start ∧
      (∀ range ∈ ranges,
        stop range ≤ ranges.foldl (fun furthest range => max furthest (stop range)) start) ∧
      (ranges.foldl (fun furthest range => max furthest (stop range)) start = start ∨
        ∃ range ∈ ranges,
          ranges.foldl (fun furthest range => max furthest (stop range)) start = stop range) := by
  induction ranges generalizing start with
  | nil => simp
  | cons head rest ih =>
      obtain ⟨low, bound, attained⟩ := ih (max start (stop head))
      rw [List.foldl_cons]
      refine ⟨by omega, ?_, ?_⟩
      · intro range member
        rcases List.mem_cons.mp member with rfl | member
        · omega
        · exact bound range member
      · rcases attained with same | ⟨range, member, same⟩
        · by_cases further : stop head ≤ start
          · exact .inl (by omega)
          · exact .inr ⟨head, List.mem_cons_self, by omega⟩
        · exact .inr ⟨range, List.mem_cons_of_mem _ member, same⟩

end UfcRecomp.Lib.Sorted
