import Mathlib.Data.Nat.Digits.Defs

/-!
# Numbers as text

The digits that a formatter prints for a number, without leading zeros. The number
can be read back from its text, so that different numbers have different texts.
-/

namespace UfcRecomp.Lib.Radix

/-- The digit characters, with upper-case letters. -/
def digitChars : List Char :=
  ['0', '1', '2', '3', '4', '5', '6', '7', '8', '9', 'A', 'B', 'C', 'D', 'E', 'F']

/-- The digit character of a value below sixteen. -/
def digitChar (digit : Nat) : Char := digitChars.getD digit '0'

/-- The characters of a number to a base of at most sixteen. -/
def chars (base number : Nat) : List Char :=
  if number = 0 then ['0'] else (Nat.digits base number).reverse.map digitChar

/-- The number that characters stand for. -/
def value (base : Nat) (characters : List Char) : Nat :=
  Nat.ofDigits base (characters.reverse.map fun character => digitChars.idxOf character)

/-- The text of a number to a base of at most sixteen. -/
def text (base number : Nat) : String := String.ofList (chars base number)

/-- The specifier `{}` of an unsigned number. -/
abbrev decimal (number : Nat) : String := text 10 number

/-- The specifier `{:X}`. -/
abbrev hex (number : Nat) : String := text 16 number

theorem idxOf_digitChar : ∀ digit < 16, digitChars.idxOf (digitChar digit) = digit := by
  decide

/-- Reading a number back. -/
theorem value_chars {base number : Nat} (low : 2 ≤ base) (high : base ≤ 16) :
    value base (chars base number) = number := by
  by_cases zero : number = 0
  · subst zero
    simp [value, chars, digitChars]
  · have digits : (Nat.digits base number).map
        ((fun character => digitChars.idxOf character) ∘ digitChar) = Nat.digits base number := by
      refine (List.map_congr_left fun digit member => ?_).trans (List.map_id _)
      have small := Nat.digits_lt_base (by omega) member
      exact idxOf_digitChar digit (by omega)
    rw [value, chars, if_neg zero, ← List.map_reverse, List.reverse_reverse, List.map_map, digits,
      Nat.ofDigits_digits]

/-- A number is determined by its text. -/
theorem text_injective {base left right : Nat} (low : 2 ≤ base) (high : base ≤ 16)
    (same : text base left = text base right) : left = right := by
  have characters := String.ofList_injective same
  rw [← @value_chars base left low high, characters, value_chars low high]

end UfcRecomp.Lib.Radix
