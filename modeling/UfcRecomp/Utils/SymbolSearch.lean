import UfcRecomp.Utils.Symbols
import Mathlib.Algebra.Group.Nat.Defs

/-!
# Searching the symbol table with machine arithmetic

The numbers of a symbol are of type `size_t`, and the end of a range that comes to `2 ^ 64` wraps
around. The search is meant for the closest symbol whose range contains an address, but the range of
the multiset that it goes through only has the symbols that start there.
-/

namespace UfcRecomp.Utils.Machine

/-- A symbol whose numbers are of type `size_t`. -/
structure Symbol where
  name : String := ""
  address : BitVec 64
  size : BitVec 64
  type : SymbolType := .symbolNone
  deriving DecidableEq

namespace Symbol

/-- The range of a symbol contains an address. -/
def Contains (symbol : Symbol) (address : BitVec 64) : Prop :=
  symbol.address.toNat ≤ address.toNat ∧ address.toNat < symbol.address.toNat + symbol.size.toNat

instance (symbol : Symbol) (address : BitVec 64) : Decidable (symbol.Contains address) :=
  inferInstanceAs (Decidable (_ ∧ _))

/-- The range of a symbol has an address, and ends within the numbers of the machine. -/
def Ends (symbol : Symbol) : Prop :=
  0 < symbol.size.toNat ∧ symbol.address.toNat + symbol.size.toNat < 2 ^ 64

instance (symbol : Symbol) : Decidable symbol.Ends := inferInstanceAs (Decidable (_ ∧ _))

/-- The symbol without the bounds of its numbers. -/
def widen (symbol : Symbol) : Utils.Symbol where
  name := symbol.name
  address := symbol.address.toNat
  size := symbol.size.toNat
  type := symbol.type

end Symbol

/-- A `multiset` of symbols. -/
structure SymbolTable where
  symbols : List Symbol
  sorted : symbols.Pairwise fun left right => left.address.toNat ≤ right.address.toNat

namespace SymbolTable

/-- `equal_range` of an address. -/
def equalRange (table : SymbolTable) (address : BitVec 64) : List Symbol :=
  table.symbols.filter fun symbol => symbol.address = address

/-- The body of the search: the match so far with its distance, and the next symbol. -/
def closest (address : BitVec 64) (found : Option Symbol × BitVec 64) (symbol : Symbol) :
    Option Symbol × BitVec 64 :=
  if address < symbol.address ∨ symbol.address + symbol.size ≤ address then found
  else
    let distance := address - symbol.address
    if distance ≤ found.2 then (some symbol, distance) else found

/-- Both functions `SymbolTable::find`; `none` is the end of the table. -/
def find (table : SymbolTable) (address : BitVec 64) : Option Symbol :=
  match table.equalRange address with
  | [] => none
  | first :: rest =>
    ((first :: rest).foldl (closest address) (none, address - first.address)).1

/-! ## What is found -/

/-- Whether the body of the search passes a symbol over that starts at the address. -/
theorem skips_iff (symbol : Symbol) :
    (symbol.address < symbol.address ∨ symbol.address + symbol.size ≤ symbol.address) ↔
      ¬symbol.Ends := by
  have start := symbol.address.isLt
  have size := symbol.size.isLt
  rw [Symbol.Ends, BitVec.lt_def, BitVec.le_def, BitVec.toNat_add]
  omega

theorem foldl_closest {address : BitVec 64} {range : List Symbol} {found : Option Symbol}
    (starts : ∀ symbol ∈ range, symbol.address = address) :
    range.foldl (closest address) (found, 0#64) =
      (((range.filter fun symbol => symbol.Ends).getLast?).or found, 0#64) := by
  induction range generalizing found with
  | nil => simp
  | cons symbol rest ih =>
      obtain ⟨rfl, startsRest⟩ := List.forall_mem_cons.mp starts
      rw [List.foldl_cons, closest]
      by_cases ends : symbol.Ends
      · rw [if_neg (by rw [skips_iff]; exact not_not.mpr ends)]
        rw [BitVec.sub_self, if_pos (BitVec.le_refl _), ih startsRest,
          List.filter_cons_of_pos (by simpa using ends), List.getLast?_cons]
        cases (rest.filter fun symbol => decide symbol.Ends).getLast? <;> simp
      · rw [if_pos ((skips_iff symbol).mpr ends), ih startsRest,
          List.filter_cons_of_neg (by simpa using ends)]

/-- The search takes the last symbol of the range that ends within the numbers of the machine. -/
theorem find_eq (table : SymbolTable) (address : BitVec 64) :
    table.find address =
      ((table.equalRange address).filter fun symbol => symbol.Ends).getLast? := by
  unfold find
  cases range : table.equalRange address with
  | nil => rfl
  | cons first rest =>
      have starts : ∀ symbol ∈ first :: rest, symbol.address = address := by
        intro symbol member
        rw [← range, equalRange, List.mem_filter] at member
        simpa using member.2
      have here := starts first List.mem_cons_self
      simp only [here, BitVec.sub_self, foldl_closest starts, Option.or_none]

theorem mem_equalRange {table : SymbolTable} {address : BitVec 64} {symbol : Symbol} :
    symbol ∈ table.equalRange address ↔ symbol ∈ table.symbols ∧ symbol.address = address := by
  simp [equalRange]

theorem find_some {table : SymbolTable} {address : BitVec 64} {symbol : Symbol}
    (found : table.find address = some symbol) :
    symbol ∈ table.symbols ∧ symbol.address = address ∧ symbol.Ends := by
  rw [find_eq] at found
  have member := List.mem_of_getLast? found
  rw [List.mem_filter, mem_equalRange] at member
  exact ⟨member.1.1, member.1.2, by simpa using member.2⟩

theorem find_none {table : SymbolTable} {address : BitVec 64} :
    table.find address = none ↔
      ¬∃ symbol ∈ table.symbols, symbol.address = address ∧ symbol.Ends := by
  rw [find_eq, List.getLast?_eq_none_iff, List.filter_eq_nil_iff]
  constructor
  · rintro empty ⟨symbol, member, here, ends⟩
    have := empty symbol (mem_equalRange.mpr ⟨member, here⟩)
    exact this (by simpa using ends)
  · intro none symbol member ends
    obtain ⟨among, here⟩ := mem_equalRange.mp member
    exact none ⟨symbol, among, here, by simpa using ends⟩

/-- Where no range comes to the end of the numbers, this is the search with numbers that have no
bounds. -/
theorem map_find (table : SymbolTable) (address : BitVec 64)
    (ends : ∀ symbol ∈ table.symbols, symbol.address.toNat + symbol.size.toNat < 2 ^ 64) :
    (table.find address).map Symbol.widen =
      Utils.SymbolTable.find ⟨table.symbols.map Symbol.widen, List.pairwise_map.mpr table.sorted⟩
        address.toNat := by
  have range : Utils.SymbolTable.equalRange
      ⟨table.symbols.map Symbol.widen, List.pairwise_map.mpr table.sorted⟩ address.toNat =
        (table.equalRange address).map Symbol.widen := by
    rw [Utils.SymbolTable.equalRange, equalRange, List.filter_map]
    congr 1
    apply List.filter_congr
    intro symbol _
    simp only [Function.comp, Symbol.widen, BitVec.toNat_inj]
  rw [find_eq, Utils.SymbolTable.find_eq, range, List.filter_map, List.getLast?_map]
  congr 2
  apply List.filter_congr
  intro symbol member
  have bound := ends symbol (mem_equalRange.mp member).1
  simp only [Function.comp, Symbol.widen, Symbol.Ends, bound, and_true]
  exact decide_eq_decide.mpr Iff.rfl

/-! ## The closest symbol -/

/-- What the search is meant for: the symbol with the greatest start among those that contain the
address, or the end of the table when there is none. -/
def Closest (table : SymbolTable) (address : BitVec 64) : Option Symbol → Prop
  | some symbol => symbol ∈ table.symbols ∧ symbol.Contains address ∧
      ∀ other ∈ table.symbols, other.Contains address →
        other.address.toNat ≤ symbol.address.toNat
  | none => ∀ symbol ∈ table.symbols, ¬symbol.Contains address

/-- That is what it answers when a symbol that starts at the address ends within the numbers of the
machine, or when no symbol contains the address. -/
theorem closest_iff (table : SymbolTable) (address : BitVec 64) :
    Closest table address (table.find address) ↔
      (∃ symbol ∈ table.symbols, symbol.address = address ∧ symbol.Ends) ∨
        ∀ symbol ∈ table.symbols, ¬symbol.Contains address := by
  cases found : table.find address with
  | none => exact (or_iff_right (find_none.mp found)).symm
  | some symbol =>
      obtain ⟨member, rfl, ends⟩ := find_some found
      apply iff_of_true _ (.inl ⟨symbol, member, rfl, ends⟩)
      exact ⟨member, ⟨Nat.le_refl _, Nat.lt_add_of_pos_right ends.1⟩, fun _ _ contains => contains.1⟩

/-- An address within a symbol, behind its start. -/
theorem not_closest : ¬∀ (table : SymbolTable) (address : BitVec 64),
    Closest table address (table.find address) := by
  intro every
  have missed := every ⟨[{ address := 0x82000000, size := 0x10 }], List.pairwise_singleton _ _⟩
    0x82000004
  exact missed { address := 0x82000000, size := 0x10 } List.mem_cons_self (by decide)

end SymbolTable

end UfcRecomp.Utils.Machine
