import UfcRecomp.Lib.Bytes

/-!
# Addressed memory

A memory gives a byte for every address and remembers which bytes were written, so that a
frame condition covers writes that leave the old value in place.
-/

namespace UfcRecomp.Lib

structure Memory where
  byte : Nat → Byte
  /-- Whether some store touched an address. -/
  written : Nat → Bool

namespace Memory

/-- Fresh memory. -/
def zeroed : Memory where
  byte _ := 0
  written _ := false

/-- Store bytes at an address. -/
def store (memory : Memory) (address : Nat) (bytes : Bytes) : Memory where
  byte position :=
    if address ≤ position ∧ position < address + bytes.length then
      bytes.getD (position - address) 0
    else memory.byte position
  written position :=
    memory.written position || decide (address ≤ position ∧ position < address + bytes.length)

/-- Load bytes from an address. -/
def load (memory : Memory) (address count : Nat) : Bytes :=
  (List.range count).map fun offset => memory.byte (address + offset)

variable {memory : Memory} {address : Nat} {bytes : Bytes}

@[simp] theorem length_load (count : Nat) : (memory.load address count).length = count := by
  simp [load]

theorem load_zeroed (address count : Nat) : zeroed.load address count = Bytes.zeros count := by
  simp [load, zeroed, Bytes.zeros, List.map_const']

/-- What was stored is loaded. -/
theorem load_store {count : Nat} (size : bytes.length = count) :
    (memory.store address bytes).load address count = bytes := by
  apply List.ext_getElem
  · simp [size]
  · intro offset _ inside
    simp [load, store, inside]

/-- A store elsewhere is not seen. -/
theorem load_store_of_disjoint {other count : Nat}
    (apart : other + count ≤ address ∨ address + bytes.length ≤ other) :
    (memory.store address bytes).load other count = memory.load other count := by
  apply List.map_congr_left
  intro offset member
  have inside : offset < count := List.mem_range.mp member
  exact if_neg (by omega)

theorem written_store (position : Nat) :
    (memory.store address bytes).written position ↔
      memory.written position ∨ address ≤ position ∧ position < address + bytes.length := by
  simp [store]

end Memory

/-! ## Bytes at many places -/

section Each

variable {α : Type} [DecidableEq α] (memory : α → Byte) (place : Nat → α) (byte : Nat → Byte)

/-- Bytes that are stored one after the other. -/
def storeEach (count : Nat) : α → Byte :=
  (List.range count).foldl (fun memory i => Function.update memory (place i) (byte i)) memory

theorem storeEach_succ (count : Nat) :
    storeEach memory place byte (count + 1) =
      Function.update (storeEach memory place byte count) (place count) (byte count) := by
  rw [storeEach, List.range_succ, List.foldl_append]
  rfl

theorem storeEach_congr {place' : Nat → α} {byte' : Nat → Byte} {count : Nat}
    (places : ∀ i < count, place i = place' i) (bytes : ∀ i < count, byte i = byte' i) :
    storeEach memory place byte count = storeEach memory place' byte' count := by
  induction count with
  | zero => rfl
  | succ count ih =>
      rw [storeEach_succ, storeEach_succ, places count (Nat.lt_succ_self count),
        bytes count (Nat.lt_succ_self count),
        ih (fun i below => places i (Nat.lt_succ_of_lt below))
          fun i below => bytes i (Nat.lt_succ_of_lt below)]

/-- What the memory holds then, where a place gives its index back. -/
theorem storeEach_apply {index : α → Nat} {count : Nat} (found : ∀ i < count, index (place i) = i)
    (back : ∀ address, index address < count → place (index address) = address) (address : α) :
    storeEach memory place byte count address =
      if index address < count then byte (index address) else memory address := by
  induction count with
  | zero => rfl
  | succ count ih =>
      have before := ih (fun i below => found i (Nat.lt_succ_of_lt below))
        fun other below => back other (Nat.lt_succ_of_lt below)
      rw [storeEach_succ]
      by_cases last : address = place count
      · have here : index address = count := last ▸ found count (Nat.lt_succ_self count)
        rw [last, Function.update_self, ← last, here, if_pos (Nat.lt_succ_self count)]
      · have apart : index address ≠ count := fun here =>
          last (here ▸ (back address (here ▸ Nat.lt_succ_self count)).symm)
        rw [Function.update_of_ne last, before]
        exact if_congr (by omega) rfl rfl

end Each

end UfcRecomp.Lib
