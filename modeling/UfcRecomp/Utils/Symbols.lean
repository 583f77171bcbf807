import Mathlib.Data.List.Basic

/-!
# The symbol table

A multiset of symbols ordered by address. `SymbolTable::find` hides the one of the
multiset: it answers with a symbol that contains the address, but only looks among
the symbols that start there.
-/

namespace UfcRecomp.Utils

inductive SymbolType where
  | symbolNone
  | symbolSection
  | symbolFunction
  | symbolComment
  deriving DecidableEq, Repr

structure Symbol where
  name : String := ""
  address : Nat := 0
  size : Nat := 0
  type : SymbolType := .symbolNone
  deriving DecidableEq, Repr

/-- A `multiset` of symbols; symbols with the same address are in the order of insertion. -/
structure SymbolTable where
  symbols : List Symbol
  sorted : symbols.Pairwise fun left right => left.address ≤ right.address

def SymbolTable.empty : SymbolTable := ⟨[], .nil⟩

/-- Insert a symbol behind those with the same address. -/
def insertSymbol (symbol : Symbol) : List Symbol → List Symbol
  | [] => [symbol]
  | head :: rest =>
    if head.address ≤ symbol.address then head :: insertSymbol symbol rest
    else symbol :: head :: rest

theorem mem_insertSymbol {symbol other : Symbol} {symbols : List Symbol} :
    other ∈ insertSymbol symbol symbols ↔ other = symbol ∨ other ∈ symbols := by
  induction symbols with
  | nil => simp [insertSymbol]
  | cons head rest ih =>
      rw [insertSymbol]
      split
      · rw [List.mem_cons, ih, List.mem_cons]
        exact or_left_comm
      · rw [List.mem_cons]

theorem insertSymbol_sorted {symbol : Symbol} {symbols : List Symbol}
    (sorted : symbols.Pairwise fun left right => left.address ≤ right.address) :
    (insertSymbol symbol symbols).Pairwise fun left right => left.address ≤ right.address := by
  induction symbols with
  | nil => exact List.pairwise_singleton _ _
  | cons head rest ih =>
      obtain ⟨lowest, sortedRest⟩ := List.pairwise_cons.mp sorted
      rw [insertSymbol]
      split
      next before =>
        refine List.pairwise_cons.mpr ⟨fun other member => ?_, ih sortedRest⟩
        rcases mem_insertSymbol.mp member with rfl | old
        · exact before
        · exact lowest other old
      next behind =>
        refine List.pairwise_cons.mpr ⟨fun other member => ?_, sorted⟩
        rcases List.mem_cons.mp member with rfl | old
        · omega
        · have := lowest other old
          omega

/-- Give a new name to the last symbol with a property. -/
def renameLast (holds : Symbol → Bool) (name : String) : List Symbol → List Symbol
  | [] => []
  | head :: rest =>
    if holds head ∧ ¬rest.any holds then { head with name := name } :: rest
    else head :: renameLast holds name rest

theorem map_address_renameLast (holds : Symbol → Bool) (name : String) (symbols : List Symbol) :
    (renameLast holds name symbols).map Symbol.address = symbols.map Symbol.address := by
  induction symbols with
  | nil => rfl
  | cons head rest ih =>
      rw [renameLast]
      split_ifs
      · rfl
      · simp [ih]

/-- Renaming a symbol of the range of another address. -/
theorem filter_renameLast_of_drops {holds : Symbol → Bool} {name : String} {address : Nat}
    (drops : ∀ symbol, holds symbol → symbol.address ≠ address) {symbols : List Symbol} :
    (renameLast holds name symbols).filter (fun symbol => symbol.address = address) =
      symbols.filter fun symbol => symbol.address = address := by
  induction symbols with
  | nil => rfl
  | cons head rest ih =>
      rw [renameLast]
      split_ifs with last
      · have elsewhere := drops head last.1
        rw [List.filter_cons_of_neg (by simpa using elsewhere),
          List.filter_cons_of_neg (by simpa using elsewhere)]
      · rw [List.filter_cons, List.filter_cons, ih]

/-- Renaming a symbol of the range of an address. -/
theorem filter_renameLast_of_keeps {holds : Symbol → Bool} {name : String} {address : Nat}
    (keeps : ∀ symbol, holds symbol → symbol.address = address) {symbols : List Symbol} :
    (renameLast holds name symbols).filter (fun symbol => symbol.address = address) =
      renameLast holds name (symbols.filter fun symbol => symbol.address = address) := by
  induction symbols with
  | nil => rfl
  | cons head rest ih =>
      have later : (rest.filter fun symbol => decide (symbol.address = address)).any holds =
          rest.any holds := by
        rw [List.any_filter]
        congr 1
        funext symbol
        cases held : holds symbol with
        | false => exact Bool.and_false _
        | true => simp [keeps symbol held]
      rw [renameLast]
      by_cases here : head.address = address
      · rw [List.filter_cons_of_pos (by simpa using here), renameLast, later]
        split_ifs
        · rw [List.filter_cons_of_pos (by simpa using here)]
        · rw [List.filter_cons_of_pos (by simpa using here), ih]
      · rw [if_neg fun last => here (keeps head last.1),
          List.filter_cons_of_neg (by simpa using here),
          List.filter_cons_of_neg (by simpa using here), ih]

namespace SymbolTable

def emplace (table : SymbolTable) (symbol : Symbol) : SymbolTable where
  symbols := insertSymbol symbol table.symbols
  sorted := insertSymbol_sorted table.sorted

/-- `equal_range` of an address. -/
def equalRange (table : SymbolTable) (address : Nat) : List Symbol :=
  table.symbols.filter fun symbol => symbol.address = address

/-- The body of the search: the match so far with its distance, and the next symbol. -/
def closest (address : Nat) (found : Option Symbol × Nat) (symbol : Symbol) :
    Option Symbol × Nat :=
  if address < symbol.address ∨ symbol.address + symbol.size ≤ address then found
  else
    let distance := address - symbol.address
    if distance ≤ found.2 then (some symbol, distance) else found

/-- `SymbolTable::find`; `none` is the end of the table. -/
def find (table : SymbolTable) (address : Nat) : Option Symbol :=
  match table.equalRange address with
  | [] => none
  | first :: rest =>
    ((first :: rest).foldl (closest address) (none, address - first.address)).1

/-- Change the name of the symbol that `find` answers with, if there is one: it is the last one
that starts at the address and is not empty. -/
def rename (table : SymbolTable) (address : Nat) (name : String) : SymbolTable where
  symbols := renameLast (fun symbol => symbol.address = address ∧ 0 < symbol.size) name
    table.symbols
  sorted := by
    have sorted := table.sorted
    rw [← List.pairwise_map] at sorted ⊢
    rwa [map_address_renameLast]

/-- Inserting a symbol appends it to the range of its address. -/
theorem equalRange_emplace (table : SymbolTable) (symbol : Symbol) (address : Nat) :
    (table.emplace symbol).equalRange address =
      if symbol.address = address then table.equalRange address ++ [symbol]
      else table.equalRange address := by
  obtain ⟨symbols, sorted⟩ := table
  simp only [equalRange, emplace]
  induction symbols with
  | nil => split_ifs with here <;> simp [insertSymbol, here]
  | cons head rest ih =>
      obtain ⟨lowest, sortedRest⟩ := List.pairwise_cons.mp sorted
      have ih := ih sortedRest
      rw [insertSymbol]
      split
      next before =>
        simp only [List.filter_cons, ih]
        split_ifs <;> simp
      next behind =>
        by_cases here : symbol.address = address
        · have later : (head :: rest).filter (fun other => other.address = address) = [] := by
            rw [List.filter_eq_nil_iff]
            intro other member
            rcases List.mem_cons.mp member with rfl | old
            · simp; omega
            · have := lowest other old
              simp; omega
          rw [List.filter_cons_of_pos (by simpa using here), later, if_pos here]
          rfl
        · rw [List.filter_cons_of_neg (by simpa using here), if_neg here]

theorem foldl_closest {address : Nat} {range : List Symbol} {found : Option Symbol}
    (starts : ∀ symbol ∈ range, symbol.address = address) :
    range.foldl (closest address) (found, 0) =
      (((range.filter fun symbol => 0 < symbol.size).getLast?).or found, 0) := by
  induction range generalizing found with
  | nil => simp
  | cons symbol rest ih =>
      obtain ⟨here, startsRest⟩ := List.forall_mem_cons.mp starts
      rw [List.foldl_cons, closest]
      by_cases empty : symbol.size = 0
      · rw [if_pos (by omega), ih startsRest, List.filter_cons_of_neg (by simp [empty])]
      · rw [if_neg (by omega)]
        simp only [here, Nat.sub_self, Nat.le_refl, if_true]
        rw [ih startsRest, List.filter_cons_of_pos (by simp; omega), List.getLast?_cons]
        cases (rest.filter fun symbol => 0 < symbol.size).getLast? <;> simp

/-- The search takes the last symbol of the range that is not empty. -/
theorem find_eq (table : SymbolTable) (address : Nat) :
    table.find address =
      ((table.equalRange address).filter fun symbol => 0 < symbol.size).getLast? := by
  unfold find
  cases range : table.equalRange address with
  | nil => rfl
  | cons first rest =>
      have starts : ∀ symbol ∈ first :: rest, symbol.address = address := by
        intro symbol member
        rw [← range, equalRange, List.mem_filter] at member
        simpa using member.2
      have here := starts first List.mem_cons_self
      simp only [here, Nat.sub_self, foldl_closest starts, Option.or_none]

/-- Renaming at an address does nothing to the ranges of the others. -/
theorem equalRange_rename_of_ne (table : SymbolTable) {address other : Nat} (name : String)
    (different : other ≠ address) :
    (table.rename address name).equalRange other = table.equalRange other := by
  simp only [equalRange, rename]
  exact filter_renameLast_of_drops fun symbol holds => by grind

/-- Renaming at an address renames the last symbol of its range that is not empty. -/
theorem equalRange_rename (table : SymbolTable) (address : Nat) (name : String) :
    (table.rename address name).equalRange address =
      renameLast (fun symbol => symbol.address = address ∧ 0 < symbol.size) name
        (table.equalRange address) := by
  simp only [equalRange, rename]
  exact filter_renameLast_of_keeps fun symbol holds => by grind

theorem length_equalRange (table : SymbolTable) (address : Nat) :
    (table.equalRange address).length = (table.symbols.map Symbol.address).count address := by
  rw [equalRange, ← List.countP_eq_length_filter, List.count, List.countP_map]
  rfl

/-- Renaming keeps the lengths of the ranges. -/
theorem length_equalRange_rename (table : SymbolTable) (address : Nat) (name : String)
    (other : Nat) : ((table.rename address name).equalRange other).length =
      (table.equalRange other).length := by
  rw [length_equalRange, length_equalRange, rename, map_address_renameLast]

theorem mem_equalRange {table : SymbolTable} {address : Nat} {symbol : Symbol} :
    symbol ∈ table.equalRange address ↔ symbol ∈ table.symbols ∧ symbol.address = address := by
  simp [equalRange]

theorem mem_emplace {table : SymbolTable} {symbol other : Symbol} :
    other ∈ (table.emplace symbol).symbols ↔ other = symbol ∨ other ∈ table.symbols :=
  mem_insertSymbol

/-- A symbol that is found starts at the address and is not empty. -/
theorem find_some {table : SymbolTable} {address : Nat} {symbol : Symbol}
    (found : table.find address = some symbol) :
    symbol ∈ table.symbols ∧ symbol.address = address ∧ 0 < symbol.size := by
  rw [find_eq] at found
  have member := List.mem_of_getLast? found
  rw [List.mem_filter, mem_equalRange] at member
  exact ⟨member.1.1, member.1.2, by simpa using member.2⟩

/-- Nothing is found exactly when every symbol that starts at the address is empty. -/
theorem find_none {table : SymbolTable} {address : Nat} :
    table.find address = none ↔
      ∀ symbol ∈ table.symbols, symbol.address = address → symbol.size = 0 := by
  rw [find_eq, List.getLast?_eq_none_iff, List.filter_eq_nil_iff]
  constructor
  · intro empty symbol member here
    have := empty symbol (mem_equalRange.mpr ⟨member, here⟩)
    simpa using this
  · intro empty symbol member
    obtain ⟨among, here⟩ := mem_equalRange.mp member
    simp [empty symbol among here]

/-- A symbol that is alone at its address is found there, unless it is empty. -/
theorem find_of_equalRange {table : SymbolTable} {symbol : Symbol}
    (alone : table.equalRange symbol.address = [symbol]) (nonempty : 0 < symbol.size) :
    table.find symbol.address = some symbol := by
  rw [find_eq, alone, List.filter_cons_of_pos (by simpa using nonempty)]
  rfl

end SymbolTable

end UfcRecomp.Utils
