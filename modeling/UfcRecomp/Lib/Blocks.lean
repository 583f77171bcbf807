import Mathlib.Data.List.Basic

/-!
# Lists made of blocks

A list is the blocks of the numbers below a bound, one after the other. An element of a block has
its place behind the start of the block.
-/

namespace UfcRecomp.Lib

universe u

variable {α : Type u} (block : Nat → List α)

/-- The blocks of the numbers below a bound. -/
def blocks (n : Nat) : List α := (List.range n).flatMap block

/-- Where a block starts. -/
def startOf (i : Nat) : Nat := (blocks block i).length

variable {block}

theorem blocks_succ (n : Nat) : blocks block (n + 1) = blocks block n ++ block n := by
  rw [blocks, List.range_succ, List.flatMap_append, List.flatMap_singleton]
  rfl

theorem startOf_succ (i : Nat) :
    startOf block (i + 1) = startOf block i + (block i).length := by
  rw [startOf, blocks_succ, List.length_append]
  rfl

/-- The blocks in front of a later one are in front of all the blocks. -/
theorem exists_blocks {i n : Nat} (less : i < n) :
    ∃ behind, blocks block n = blocks block i ++ (block i ++ behind) := by
  induction n with
  | zero => cases less
  | succ n ih =>
      rcases Nat.lt_succ_iff_lt_or_eq.mp less with earlier | rfl
      · obtain ⟨behind, shape⟩ := ih earlier
        exact ⟨behind ++ block n, by rw [blocks_succ, shape, List.append_assoc, List.append_assoc]⟩
      · exact ⟨[], by rw [blocks_succ, List.append_nil]⟩

/-- An element of a block. -/
theorem getElem?_blocks {i n j : Nat} (less : i < n) (inside : j < (block i).length) :
    (blocks block n)[startOf block i + j]? = (block i)[j]? := by
  obtain ⟨behind, shape⟩ := @exists_blocks _ block _ _ less
  rw [shape, startOf, List.getElem?_append_right (Nat.le_add_right _ _), Nat.add_sub_cancel_left,
    List.getElem?_append_left inside]

/-- The first element with a property is the first one of its block, when no block in front has an
element with that property. -/
theorem findIdx?_blocks {p : α → Bool} {i n : Nat} {first : α} {others : List α} (less : i < n)
    (starts : block i = first :: others) (holds : p first = true)
    (earlier : ∀ j < i, ∀ x ∈ block j, p x = false) :
    (blocks block n).findIdx? p = some (startOf block i) := by
  obtain ⟨behind, shape⟩ := @exists_blocks _ block _ _ less
  have none : (blocks block i).findIdx? p = none := by
    rw [List.findIdx?_eq_none_iff]
    intro x member
    obtain ⟨j, among, inside⟩ := List.mem_flatMap.mp member
    exact earlier j (List.mem_range.mp among) x inside
  rw [shape, List.findIdx?_append, none, starts]
  simp [List.findIdx?_cons, holds, startOf]

end UfcRecomp.Lib
