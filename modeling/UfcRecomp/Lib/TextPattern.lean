import UfcRecomp.Lib.Radix
import Mathlib.Data.Nat.Digits.Lemmas

/-!
# Patterns of text

The parts that simple regular expressions over a line are made of: texts, classes of characters,
runs of a class, and the search for the leftmost match. Each part takes its match from the front of
the line and hands on what is behind it. A run takes as much as it can, which is right in front of
anything that its class does not hold. The classes are those of ASCII.
-/

namespace UfcRecomp.Lib.TextPattern

/-- `\s` -/
def isSpace (c : Char) : Bool :=
  (9 ≤ c.toNat && c.toNat ≤ 13) || (28 ≤ c.toNat && c.toNat ≤ 32)

/-- `\d` -/
def isDigit (c : Char) : Bool := '0' ≤ c && c ≤ '9'

/-- `[0-9A-Fa-f]` -/
def isHexDigit (c : Char) : Bool := isDigit c || ('A' ≤ c && c ≤ 'F') || ('a' ≤ c && c ≤ 'f')

/-- `\s*` -/
def skipSpaces (line : List Char) : List Char := line.dropWhile isSpace

/-- A text, whose characters are compared with those of the line after `fold`. -/
def literalBy (fold : Char → Char) : List Char → List Char → Option (List Char)
  | [], line => some line
  | _ :: _, [] => none
  | t :: text, c :: line => if t = fold c then literalBy fold text line else none

/-- A text as it stands. -/
def literal (text : String) (line : List Char) : Option (List Char) :=
  literalBy id text.toList line

/-- A text in lower case, where the case of the line does not matter. -/
def literalIgnoringCase (text : String) (line : List Char) : Option (List Char) :=
  literalBy Char.toLower text.toList line

/-- One or more characters of a class, as many as there are. -/
def oneOrMore (holds : Char → Bool) (line : List Char) : Option (List Char × List Char) :=
  match line.takeWhile holds with
  | [] => none
  | c :: taken => some (c :: taken, line.dropWhile holds)

/-- As many characters of a class as `count`. -/
def exactly (count : Nat) (holds : Char → Bool) (line : List Char) :
    Option (List Char × List Char) :=
  if (line.take count).length = count ∧ (line.take count).all holds then
    some (line.take count, line.drop count)
  else
    none

/-- The leftmost match in a line. -/
def search {α : Type} (parse : List Char → Option α) : List Char → Option α
  | [] => parse []
  | c :: line =>
    match parse (c :: line) with
    | some found => some found
    | none => search parse line

/-- Whether a text stands somewhere in a line. -/
def contains (text : String) (line : List Char) : Bool := (search (literal text) line).isSome

/-- The number of hexadecimal digits, in either case. -/
def hexValue (digits : List Char) : Nat := Radix.value 16 (digits.map Char.toUpper)

/-! ## Matches at the front -/

theorem literalBy_append {fold : Char → Char} {text : List Char} (line : List Char)
    (fixed : ∀ c ∈ text, fold c = c) : literalBy fold text (text ++ line) = some line := by
  induction text with
  | nil => rfl
  | cons c text ih =>
      obtain ⟨same, fixedRest⟩ := List.forall_mem_cons.mp fixed
      rw [List.cons_append, literalBy, if_pos same.symm, ih fixedRest]

theorem literal_append (text : String) (line : List Char) :
    literal text (text.toList ++ line) = some line :=
  literalBy_append line fun _ _ => rfl

theorem literalIgnoringCase_append {text : String} (line : List Char)
    (lower : text.toList.all fun c => c.toLower = c) :
    literalIgnoringCase text (text.toList ++ line) = some line :=
  literalBy_append line fun c member => of_decide_eq_true (List.all_eq_true.mp lower c member)

theorem isSpace_of_mem_blank : ∀ c ∈ [' '], isSpace c := List.forall_mem_singleton.mpr rfl

theorem skipSpaces_append {taken line : List Char} (holds : taken.all isSpace)
    (ends : ∀ c ∈ line.head?, isSpace c = false) : skipSpaces (taken ++ line) = line := by
  induction taken with
  | nil =>
      cases line with
      | nil => rfl
      | cons c line => exact List.dropWhile_cons_of_neg (by simp [ends c rfl])
  | cons c taken ih =>
      rw [List.all_cons, Bool.and_eq_true] at holds
      exact (List.dropWhile_cons_of_pos holds.1).trans (ih holds.2)

theorem oneOrMore_append {holds : Char → Bool} {taken : List Char} {c : Char}
    (line : List Char) (nonempty : taken ≠ []) (all : ∀ d ∈ taken, holds d) (ends : holds c = false) :
    oneOrMore holds (taken ++ c :: line) = some (taken, c :: line) := by
  have front : (taken ++ c :: line).takeWhile holds = taken := by
    rw [List.takeWhile_append_of_pos all, List.takeWhile_cons_of_neg (by simp [ends]),
      List.append_nil]
  have behind : (taken ++ c :: line).dropWhile holds = c :: line := by
    rw [List.dropWhile_append_of_pos all, List.dropWhile_cons_of_neg (by simp [ends])]
  rw [oneOrMore, front, behind]
  cases taken with
  | nil => exact absurd rfl nonempty
  | cons d taken => rfl

theorem exactly_append {count : Nat} {holds : Char → Bool} {taken : List Char} (line : List Char)
    (length : taken.length = count) (all : taken.all holds) :
    exactly count holds (taken ++ line) = some (taken, line) := by
  subst length
  rw [exactly, List.take_left, List.drop_left, if_pos ⟨rfl, all⟩]

theorem eq_append_of_literalBy {fold : Char → Char} {text line rest : List Char}
    (matched : literalBy fold text line = some rest) :
    ∃ front, line = front ++ rest ∧ front.map fold = text := by
  induction text generalizing line with
  | nil => exact ⟨[], Option.some.inj matched, rfl⟩
  | cons c text ih =>
      cases line with
      | nil => cases matched
      | cons d line =>
          rw [literalBy] at matched
          split_ifs at matched with same
          obtain ⟨front, rfl, folded⟩ := ih matched
          exact ⟨d :: front, rfl, by rw [List.map_cons, folded, same]⟩

/-- A text that is matched stands in front of the rest. -/
theorem eq_append_of_literal {text : String} {line rest : List Char}
    (matched : literal text line = some rest) : line = text.toList ++ rest := by
  obtain ⟨front, split, same⟩ := eq_append_of_literalBy matched
  rw [List.map_id] at same
  rw [split, same]

/-- A run that is matched stands in front of the rest. -/
theorem eq_append_of_oneOrMore {holds : Char → Bool} {line taken rest : List Char}
    (matched : oneOrMore holds line = some (taken, rest)) :
    line = taken ++ rest ∧ ∀ c ∈ taken, holds c := by
  have split := @List.takeWhile_append_dropWhile _ holds line
  have all : ∀ c ∈ line.takeWhile holds, holds c := List.all_eq_true.mp List.all_takeWhile
  unfold oneOrMore at matched
  split at matched
  · cases matched
  · rename_i c front shape
    obtain ⟨rfl, rfl⟩ := Prod.mk.inj (Option.some.inj matched)
    rw [shape] at split all
    exact ⟨split.symm, all⟩

theorem search_of_eq_some {α : Type} {parse : List Char → Option α} {line : List Char} {found : α}
    (matched : parse line = some found) : search parse line = some found := by
  cases line with
  | nil => exact matched
  | cons c line => rw [search, matched]

/-- A pattern is not found when it matches nowhere. -/
theorem search_eq_none {α : Type} {parse : List Char → Option α} {line : List Char}
    (nowhere : ∀ tail, tail <:+ line → parse tail = none) : search parse line = none := by
  induction line with
  | nil => exact nowhere [] (List.suffix_refl _)
  | cons c line ih =>
      rw [search, nowhere _ (List.suffix_refl _)]
      exact ih fun tail behind => nowhere tail (behind.trans (List.suffix_cons c line))

/-- A text is not in a line that does not have its first character. -/
theorem contains_eq_false {text : String} {line : List Char} {c : Char} {rest : List Char}
    (first : text.toList = c :: rest) (absent : c ∉ line) : contains text line = false := by
  have nowhere : search (literal text) line = none := by
    apply search_eq_none
    intro tail behind
    rw [literal, first]
    cases tail with
    | nil => rfl
    | cons d tail =>
        have other : c ≠ d := fun same => absent (behind.mem (same ▸ List.mem_cons_self))
        exact if_neg other
  rw [contains, nowhere]
  rfl

/-! ## The digits that a formatter prints -/

theorem mem_chars {base number : Nat} {c : Char} (low : 2 ≤ base)
    (member : c ∈ Radix.chars base number) : ∃ digit < base, c = Radix.digitChar digit := by
  unfold Radix.chars at member
  split_ifs at member with zero
  · exact ⟨0, by omega, List.mem_singleton.mp member⟩
  · obtain ⟨digit, among, rfl⟩ := List.mem_map.mp member
    exact ⟨digit, Nat.digits_lt_base (by omega) (List.mem_reverse.mp among), rfl⟩

theorem chars_ne_nil {base : Nat} (number : Nat) : Radix.chars base number ≠ [] := by
  unfold Radix.chars
  split_ifs with zero
  · exact List.cons_ne_nil _ _
  · simpa using Nat.digits_ne_nil_iff_ne_zero.mpr zero

theorem isDigit_digitChar : ∀ digit < 10, isDigit (Radix.digitChar digit) := by decide

theorem isHexDigit_digitChar : ∀ digit < 16, isHexDigit (Radix.digitChar digit) := by decide

theorem toUpper_digitChar :
    ∀ digit < 16, (Radix.digitChar digit).toUpper = Radix.digitChar digit := by
  decide

theorem isSpace_digitChar : ∀ digit < 16, isSpace (Radix.digitChar digit) = false := by decide

theorem isDigit_of_mem_chars {number : Nat} {c : Char} (member : c ∈ Radix.chars 10 number) :
    isDigit c := by
  obtain ⟨digit, small, rfl⟩ := mem_chars (by decide) member
  exact isDigit_digitChar digit small

theorem hexValue_chars (number : Nat) : hexValue (Radix.chars 16 number) = number := by
  have same : (Radix.chars 16 number).map Char.toUpper = Radix.chars 16 number := by
    refine (List.map_congr_left fun c member => ?_).trans (List.map_id _)
    obtain ⟨digit, small, rfl⟩ := mem_chars (by decide) member
    exact toUpper_digitChar digit small
  rw [hexValue, same, Radix.value_chars (by decide) (by decide)]

theorem isHexDigit_of_mem_chars {number : Nat} {c : Char} (member : c ∈ Radix.chars 16 number) :
    isHexDigit c := by
  obtain ⟨digit, small, rfl⟩ := mem_chars (by decide) member
  exact isHexDigit_digitChar digit small

/-- The first digit is no space. -/
theorem exists_chars {base : Nat} (number : Nat) (low : 2 ≤ base) (high : base ≤ 16) :
    ∃ c rest, Radix.chars base number = c :: rest ∧ isSpace c = false := by
  cases shape : Radix.chars base number with
  | nil => exact absurd shape (chars_ne_nil number)
  | cons c rest =>
      obtain ⟨digit, small, rfl⟩ := mem_chars low (shape ▸ List.mem_cons_self)
      exact ⟨_, rest, rfl, isSpace_digitChar digit (by omega)⟩

/-- A number has as many digits as its size needs. -/
theorem length_chars_iff {number : Nat} (count : Nat) (several : 2 ≤ count) :
    (Radix.chars 16 number).length = count ↔ 16 ^ (count - 1) ≤ number ∧ number < 16 ^ count := by
  by_cases zero : number = 0
  · subst zero
    have : 0 < 16 ^ (count - 1) := Nat.pow_pos (by decide)
    simp only [Radix.chars, if_pos, List.length_singleton]
    omega
  · have least := @Nat.lt_digits_length_iff 16 (count - 1) (by decide) number
    have most := @Nat.digits_length_le_iff 16 count (by decide) number
    rw [Radix.chars, if_neg zero, List.length_map, List.length_reverse, ← least, ← most]
    omega

end UfcRecomp.Lib.TextPattern
