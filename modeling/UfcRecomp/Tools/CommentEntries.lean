import UfcRecomp.Lib.Bits
import UfcRecomp.Tools.SwitchEntries

/-!
# Reading an inline table back

The words of a table that stands behind its `bctr` are disassembled like code. The words of code
addresses are loads, and the diagnosis takes the words back from the comments with the disassembly.
The disassembler prints no register for a register field of zero in front of the parenthesis, and the
lines that are looked at are three for each entry, which are as many as a word with a label has when
there is no hook.
-/

namespace UfcRecomp.Tools

open UfcRecomp.Lib UfcRecomp.Lib.TextPattern UfcRecomp.Ppc UfcRecomp.Analyze
open UfcRecomp.Recompiler UfcRecomp.Recompiler.RecompilerConfig

/-! ## The reader -/

/-- The group of `COMMENT_RE` behind the slashes: `\s*(.+?)\s*$`. It takes the last space when
there is nothing else. -/
def commentText (rest : Line) : Option Line :=
  match ((skipSpaces rest).reverse.dropWhile isSpace).reverse with
  | [] => rest.getLast?.map fun c => [c]
  | c :: text => some (c :: text)

/-- `COMMENT_RE`: `^\s*//\s*(.+?)\s*$` -/
def commentRe (line : Line) : Option Line := do
  let rest ← literal "//" (skipSpaces line)
  commentText rest

/-- `-?\d+` -/
def signedNumber (line : Line) : Option (Int × Line) :=
  match literal "-" line with
  | some rest => (oneOrMore isDigit rest).map fun found => (-(Radix.value 10 found.1 : Int), found.2)
  | none => (oneOrMore isDigit line).map fun found => ((Radix.value 10 found.1 : Int), found.2)

/-- `LWZ_RE`: `lwz\s+r(\d+),(-?\d+)\(r(\d+)\)`, with the numbers of its groups. -/
def lwzRe (text : Line) : Option (Nat × Int × Nat) := do
  let rest ← literalIgnoringCase "lwz" text
  let (_, rest) ← oneOrMore isSpace rest
  let rest ← literalIgnoringCase "r" rest
  let (rt, rest) ← oneOrMore isDigit rest
  let rest ← literal "," rest
  let (disp, rest) ← signedNumber rest
  let rest ← literal "(" rest
  let rest ← literalIgnoringCase "r" rest
  let (ra, rest) ← oneOrMore isDigit rest
  let _ ← literal ")" rest
  return (Radix.value 10 rt, disp, Radix.value 10 ra)

/-- The word of a load. -/
def lwzWord (rt : Nat) (disp : Int) (ra : Nat) : Nat :=
  ((32 <<< 26) ||| (rt <<< 21) ||| (ra <<< 16) ||| (disp % 2 ^ 16).toNat) % 2 ^ 32

def decodeLwzWord (line : Line) : Option Nat := do
  let comment ← commentRe line
  let (rt, disp, ra) ← search lwzRe comment
  return lwzWord rt disp ra

/-- The words that can be labels. -/
def IsTableWord (word : Nat) : Prop := 0x82000000 ≤ word ∧ word ≤ 0x83FFFFFF

instance (word : Nat) : Decidable (IsTableWord word) := inferInstanceAs (Decidable (_ ∧ _))

/-- The loop over the lines, with what it has read so far. -/
def readWords (limit : Nat) : List Line → List Nat → List Nat
  | [], entries => entries
  | line :: lines, entries =>
    match decodeLwzWord line with
    | none => readWords limit lines entries
    | some word =>
      if IsTableWord word then
        if limit ≤ (entries ++ [word]).length then entries ++ [word]
        else readWords limit lines (entries ++ [word])
      else
        readWords limit lines entries

/-- `entry_count or 96` -/
def entryLimit : Option Nat → Nat
  | none => 96
  | some 0 => 96
  | some (count + 1) => count + 1

def readCommentEntries (lines : List Line) (bctrIndex : Nat) (entryCount : Option Nat) : List Nat :=
  let limit := entryLimit entryCount
  readWords limit ((lines.drop (bctrIndex + 1)).take (limit * 3)) []

/-! ## The lines of a table -/

/-- An operand with the flags that direct how it is printed. -/
structure PrintedOperand where
  operand : PowerpcOperand
  gpr : Bool := false
  gpr0 : Bool := false
  parens : Bool := false

namespace PrintedOperand

def rt : PrintedOperand := { operand := .rt, gpr := true }
def d : PrintedOperand := { operand := { bitm := 0xffff, signed := true }, parens := true }
def ra0 : PrintedOperand := { operand := .ra, gpr0 := true }

end PrintedOperand

/-- The row of the table for `lwz`. -/
def lwzOperands : List PrintedOperand := [.rt, .d, .ra0]

/-- `%ld` -/
def signedText (value : Int) : Line :=
  if value < 0 then '-' :: Radix.chars 10 value.natAbs else Radix.chars 10 value.natAbs

/-- The loop of `decode_insn_powerpc` that prints the operands. -/
def printOperands (insn : Word) : List PrintedOperand → Bool → Bool → Line
  | [], _, _ => []
  | printed :: operands, needComma, needParen =>
    let value := printed.operand.value insn
    (if needComma then [','] else []) ++
    (if printed.gpr ∨ (printed.gpr0 ∧ value ≠ 0) then 'r' :: signedText value
      else signedText value) ++
    (if needParen then [')'] else []) ++
    if printed.parens then '(' :: printOperands insn operands false true
    else printOperands insn operands true false

/-- The comment of a load. -/
def commentLine (word : Word) : Line :=
  "\t// lwz ".toList ++ printOperands word lwzOperands false false

/-- What a load computes. -/
def loadComputed (config : RecompilerConfig) (word : Word) : Line :=
  let rt := (PowerpcOperand.rt.value word).toNat
  let ra := (PowerpcOperand.ra.value word).toNat
  config.registerText rt ++ ".u64 = PPC_LOAD_U32(".toList ++
    (if ra ≠ 0 then config.registerText ra ++ ".u32 + ".toList else []) ++
    signedText (PrintedOperand.d.operand.value word) ++ ");".toList

/-- The statements of a load at an address, given the number of `lwz`. -/
def loadStatements (emitter : Emitter) (lwz address : Nat) : List Statement :=
  .comment :: emitter.printedHooks (uint32 address) false ++ [.act (.compute (.other lwz))] ++
    emitter.printedHooks (uint32 address) true

theorem recompileInsn_load {emitter : Emitter} {lwz : Nat} (known : emitter.hasCase lwz)
    (fn : Function) (address : Nat) (insn : Insn) (table : Option RecompilerSwitchTable) :
    (emitter.recompileInsn fn (uint32 address) insn (.other lwz) table).1 =
      loadStatements emitter lwz address := by
  have printed : emitter.recompileCase fn (uint32 address) insn (.other lwz) table =
      some ([.act (.compute (.other lwz))], table) := if_pos known
  rw [Emitter.recompileInsn_of_some printed]
  rfl

/-- The statements of a load behind the label in front of it. -/
def wordStatements (emitter : Emitter) (lwz : Nat) (labels : List Nat) (address : Nat) :
    List Statement :=
  (if address ∈ labels then [.label address] else []) ++ loadStatements emitter lwz address

/-- The lines of the words from an address on, given the labels of the function. -/
def tableLines (emitter : Emitter) (lwz : Nat) (labels : List Nat) : Nat → List Word → List Line
  | _, [] => []
  | address, word :: words =>
    emitter.config.lines (commentLine word) (loadComputed emitter.config word)
        (wordStatements emitter lwz labels address) ++
      tableLines emitter lwz labels (address + 4) words

/-- The lines of a `bctr` without a table, from its comment on. -/
def indirectLines (emitter : Emitter) (fn : Function) (address : Nat) (insn : Insn) : List Line :=
  emitter.config.lines bctrLine [] (emitter.recompileInsn fn (uint32 address) insn .bctr none).1

/-- Hooks have the names of C++ functions, in which there is no slash. -/
def Named (config : RecompilerConfig) : Prop :=
  ∀ address hook, config.midAsmHooks.find address = some hook → '/' ∉ hook.name.toList

/-- A line of the code behind a table: where it reads as a load, it is the comment of one. -/
structure CodeLine where
  text : Line
  printed : decodeLwzWord text = none ∨ ∃ word, text = commentLine word

/-! ## The fields of a word -/

def rtField (word : Word) : Nat := word.toNat / 2 ^ 21 % 2 ^ 5

def raField (word : Word) : Nat := word.toNat / 2 ^ 16 % 2 ^ 5

def dField (word : Word) : Int := PrintedOperand.d.operand.value word

theorem value_rt (word : Word) : PowerpcOperand.rt.value word = (rtField word : Int) := by
  change (((word >>> 21) &&& 0x1f#32).toNat : Int) = _
  rw [BitVec.toNat_and, BitVec.toNat_ushiftRight, Nat.shiftRight_eq_div_pow]
  exact congrArg Nat.cast (Nat.and_two_pow_sub_one_eq_mod _ 5)

theorem value_ra (word : Word) : PowerpcOperand.ra.value word = (raField word : Int) := by
  change (((word >>> 16) &&& 0x1f#32).toNat : Int) = _
  rw [BitVec.toNat_and, BitVec.toNat_ushiftRight, Nat.shiftRight_eq_div_pow]
  exact congrArg Nat.cast (Nat.and_two_pow_sub_one_eq_mod _ 5)

/-- Turning the sign bit over adds it or takes it away. -/
theorem xor_sign {number : Nat} (small : number < 2 ^ 16) :
    number ^^^ 2 ^ 15 = number + 2 ^ 15 ∨ number = (number ^^^ 2 ^ 15) + 2 ^ 15 := by
  have low : (number ^^^ 2 ^ 15) % 2 ^ 15 = number % 2 ^ 15 := by
    rw [Nat.xor_mod_two_pow, Nat.mod_self, Nat.xor_zero]
  have high : (number ^^^ 2 ^ 15) / 2 ^ 15 = (number / 2 ^ 15) ^^^ 1 := by
    rw [Nat.xor_div_two_pow, Nat.div_self (by decide)]
  have half : number / 2 ^ 15 = 0 ∨ number / 2 ^ 15 = 1 := by omega
  rcases half with zero | one
  · rw [zero] at high
    change _ = 1 at high
    omega
  · rw [one] at high
    change _ = 0 at high
    omega

theorem dField_mod (word : Word) : (dField word % 2 ^ 16).toNat = word.toNat % 2 ^ 16 := by
  have value : dField word = (((word &&& 0xffff#32).toNat ^^^ 2 ^ 15 : Nat) : Int) - 2 ^ 15 := by
    change ((((word >>> 0) &&& 0xffff#32) ^^^ 0x8000#32).toNat : Int) - _ = _
    rw [BitVec.toNat_xor, BitVec.ushiftRight_zero]
    rfl
  have field : (word &&& 0xffff#32).toNat = word.toNat % 2 ^ 16 := by
    rw [BitVec.toNat_and]
    exact Nat.and_two_pow_sub_one_eq_mod _ 16
  rw [value, field]
  obtain plus | minus := @xor_sign (word.toNat % 2 ^ 16) (Nat.mod_lt _ (by decide))
  · omega
  · omega

/-- Putting the fields together. -/
theorem lwzWord_fields (word : Word) :
    lwzWord (rtField word) (dField word) (raField word) = 2 ^ 31 + word.toNat % 2 ^ 26 := by
  have low := @or_shifted (word.toNat % 2 ^ 16) 16 (Nat.mod_lt _ (by decide)) (raField word)
  have below : raField word < 2 ^ 5 := Nat.mod_lt _ (by decide)
  have middle := @or_shifted (word.toNat % 2 ^ 16 + raField word * 2 ^ 16) 21 (by omega)
    (rtField word)
  have high := @or_shifted (word.toNat % 2 ^ 16 + raField word * 2 ^ 16 + rtField word * 2 ^ 21) 26
    (by unfold rtField; omega) 32
  rw [lwzWord, dField_mod, Nat.shiftLeft_eq, Nat.shiftLeft_eq, Nat.shiftLeft_eq, Nat.or_assoc,
    Nat.or_assoc, Nat.or_comm (raField word * 2 ^ 16), low, Nat.or_comm (rtField word * 2 ^ 21),
    middle, Nat.or_comm (32 * 2 ^ 26), high]
  unfold rtField raField
  omega

/-! ## The text of a load -/

theorem signedText_nat (number : Nat) : signedText (number : Int) = Radix.chars 10 number := by
  rw [signedText, if_neg (by omega), Int.natAbs_natCast]

/-- The register in front of the closing parenthesis; register zero has no letter. -/
def baseText (word : Word) : Line :=
  if raField word ≠ 0 then 'r' :: Radix.chars 10 (raField word) else ['0']

/-- The comment of a load without its slashes. -/
def loadText (word : Word) : Line :=
  "lwz".toList ++ ([' '] ++ 'r' :: (Radix.chars 10 (rtField word) ++ ',' ::
    (signedText (dField word) ++ '(' :: (baseText word ++ [')']))))

theorem printOperands_lwz (word : Word) :
    printOperands word lwzOperands false false =
      'r' :: (Radix.chars 10 (rtField word) ++ ',' ::
        (signedText (dField word) ++ '(' :: (baseText word ++ [')']))) := by
  have d : PrintedOperand.d.operand.value word = dField word := rfl
  have base : (if (raField word : Int) ≠ 0 then 'r' :: Radix.chars 10 (raField word)
      else Radix.chars 10 (raField word)) = baseText word := by
    unfold baseText
    by_cases zero : raField word = 0
    · rw [zero]
      rfl
    · rw [if_pos (by omega), if_pos zero]
  simp only [lwzOperands, printOperands]
  simp only [PrintedOperand.rt, PrintedOperand.ra0, d, value_rt, value_ra, signedText_nat]
  simp [PrintedOperand.d, ← base]

/-- Spaces in front of a comment are not part of its text. -/
theorem commentText_trimmed {first last : Char} (text : Line) (start : isSpace first = false)
    (ends : isSpace last = false) :
    commentText (' ' :: first :: (text ++ [last])) = some (first :: (text ++ [last])) := by
  have front : skipSpaces (' ' :: first :: (text ++ [last])) = first :: (text ++ [last]) :=
    @skipSpaces_append [' '] _ (by decide) fun c here => Option.some.inj here ▸ start
  have back : ((first :: (text ++ [last])).reverse.dropWhile isSpace).reverse =
      first :: (text ++ [last]) := by
    rw [← List.cons_append, List.reverse_append, List.reverse_singleton, List.singleton_append,
      List.dropWhile_cons_of_neg (by simp [ends]), List.reverse_cons, List.reverse_reverse]
  rw [commentText, front, back]

theorem commentRe_commentLine (word : Word) :
    commentRe (commentLine word) = some (loadText word) := by
  have front : skipSpaces (commentLine word) = "//".toList ++ ' ' :: 'l' :: ("wz ".toList ++
      printOperands word lwzOperands false false) := rfl
  have inner : "wz ".toList ++ printOperands word lwzOperands false false =
      ("wz r".toList ++ (Radix.chars 10 (rtField word) ++ ',' ::
        (signedText (dField word) ++ '(' :: baseText word))) ++ [')'] := by
    rw [printOperands_lwz]
    simp
  have text : loadText word =
      'l' :: ("wz ".toList ++ printOperands word lwzOperands false false) := by
    rw [printOperands_lwz]
    rfl
  rw [commentRe, front, literal_append, text, inner]
  exact commentText_trimmed _ rfl rfl

/-! ## Reading a load -/

theorem signedNumber_signedText (value : Int) (rest : Line) :
    signedNumber (signedText value ++ '(' :: rest) = some (value, '(' :: rest) := by
  have digits : ∀ c ∈ Radix.chars 10 value.natAbs, isDigit c := fun c => isDigit_of_mem_chars
  have read := @oneOrMore_append isDigit (Radix.chars 10 value.natAbs) '(' rest
    (chars_ne_nil _) digits (by decide)
  have number : Radix.value 10 (Radix.chars 10 value.natAbs) = value.natAbs :=
    Radix.value_chars (by decide) (by decide)
  unfold signedText
  split_ifs with negative
  · have minus : literal "-" ('-' :: Radix.chars 10 value.natAbs ++ '(' :: rest) =
        some (Radix.chars 10 value.natAbs ++ '(' :: rest) := rfl
    rw [signedNumber, minus]
    simp only [read, Option.map_some, number]
    congr
    omega
  · have plain : literal "-" (Radix.chars 10 value.natAbs ++ '(' :: rest) = none := by
      obtain ⟨c, text, shape, -⟩ := @exists_chars 10 value.natAbs (by decide) (by decide)
      have digit := digits c (shape ▸ List.mem_cons_self)
      have other : '-' ≠ c := fun same => absurd (same ▸ digit) (by decide)
      rw [shape]
      exact if_neg other
    rw [signedNumber, plain]
    simp only [read, Option.map_some, number]
    congr
    omega

theorem lwzRe_loadText {word : Word} (base : raField word ≠ 0) :
    lwzRe (loadText word) = some (rtField word, dField word, raField word) := by
  have rtDigits : ∀ c ∈ Radix.chars 10 (rtField word), isDigit c := fun c => isDigit_of_mem_chars
  have raDigits : ∀ c ∈ Radix.chars 10 (raField word), isDigit c := fun c => isDigit_of_mem_chars
  have r : ∀ rest, literalIgnoringCase "r" ('r' :: rest) = some rest := fun rest => rfl
  have comma : ∀ rest, literal "," (',' :: rest) = some rest := fun rest => rfl
  have opening : ∀ rest, literal "(" ('(' :: rest) = some rest := fun rest => rfl
  have closing : literal ")" [')'] = some [] := rfl
  have numbers : ∀ number, Radix.value 10 (Radix.chars 10 number) = number := fun number =>
    Radix.value_chars (by decide) (by decide)
  rw [lwzRe, loadText, baseText, if_pos base]
  simp only [Option.bind_eq_bind]
  rw [literalIgnoringCase_append _ (by decide), Option.bind_some,
    oneOrMore_append _ (by simp) isSpace_of_mem_blank (by decide), Option.bind_some, r, Option.bind_some,
    oneOrMore_append _ (chars_ne_nil _) rtDigits (by decide), Option.bind_some, comma,
    Option.bind_some, signedNumber_signedText, Option.bind_some, opening, Option.bind_some,
    List.cons_append, r, Option.bind_some,
    oneOrMore_append _ (chars_ne_nil _) raDigits (by decide), Option.bind_some, closing,
    Option.bind_some, numbers, numbers]
  rfl

theorem lwzRe_cons {c : Char} (line : Line) (other : 'l' ≠ c.toLower) :
    lwzRe (c :: line) = none := by
  have fails : literalIgnoringCase "lwz" (c :: line) = none := if_neg other
  rw [lwzRe, fails]
  rfl

theorem toLower_digitChar : ∀ digit < 10, 'l' ≠ (Radix.digitChar digit).toLower := by decide

theorem ne_toLower_of_mem_chars {number : Nat} {c : Char} (member : c ∈ Radix.chars 10 number) :
    'l' ≠ c.toLower := by
  obtain ⟨digit, small, rfl⟩ := mem_chars (by decide) member
  exact toLower_digitChar digit small

theorem ne_toLower_of_mem_signedText {value : Int} {c : Char} (member : c ∈ signedText value) :
    'l' ≠ c.toLower := by
  unfold signedText at member
  split_ifs at member
  · rcases List.mem_cons.mp member with rfl | digits
    · decide
    · exact ne_toLower_of_mem_chars digits
  · exact ne_toLower_of_mem_chars member

/-- The text of a load with register zero is not read as one, at its start or behind it. -/
theorem search_loadText_zero {word : Word} (base : raField word = 0) :
    search lwzRe (loadText word) = none := by
  have rtDigits : ∀ c ∈ Radix.chars 10 (rtField word), isDigit c := fun c => isDigit_of_mem_chars
  have r : ∀ rest, literalIgnoringCase "r" ('r' :: rest) = some rest := fun rest => rfl
  have comma : ∀ rest, literal "," (',' :: rest) = some rest := fun rest => rfl
  have opening : ∀ rest, literal "(" ('(' :: rest) = some rest := fun rest => rfl
  have zero : literalIgnoringCase "r" (['0'] ++ [')']) = none := rfl
  have start : lwzRe (loadText word) = none := by
    rw [lwzRe, loadText, baseText, if_neg (not_not.mpr base)]
    simp only [Option.bind_eq_bind]
    rw [literalIgnoringCase_append _ (by decide), Option.bind_some,
      oneOrMore_append _ (by simp) isSpace_of_mem_blank (by decide), Option.bind_some, r, Option.bind_some,
      oneOrMore_append _ (chars_ne_nil _) rtDigits (by decide), Option.bind_some, comma,
      Option.bind_some, signedNumber_signedText, Option.bind_some, opening, Option.bind_some, zero]
    rfl
  have letters : ∀ c ∈ "wz r".toList ++ (Radix.chars 10 (rtField word) ++ ',' ::
      (signedText (dField word) ++ '(' :: (baseText word ++ [')']))), 'l' ≠ c.toLower := by
    rw [baseText, if_neg (not_not.mpr base)]
    simp only [List.mem_append, List.mem_cons]
    rintro c (front | digits | rfl | disp | rfl | (rfl | none) | rfl | none)
    · have others : "wz r".toList.all fun c => 'l' ≠ c.toLower := by decide
      exact of_decide_eq_true (List.all_eq_true.mp others c front)
    · exact ne_toLower_of_mem_chars digits
    · decide
    · exact ne_toLower_of_mem_signedText disp
    · decide
    · decide
    · exact absurd none List.not_mem_nil
    · decide
    · exact absurd none List.not_mem_nil
  have shape : loadText word = 'l' :: ("wz r".toList ++ (Radix.chars 10 (rtField word) ++ ',' ::
      (signedText (dField word) ++ '(' :: (baseText word ++ [')'])))) := rfl
  rw [shape, search, ← shape, start]
  refine search_eq_none fun tail behind => ?_
  cases tail with
  | nil => rfl
  | cons c tail => exact lwzRe_cons tail (letters c (behind.mem List.mem_cons_self))

/-- The comment of a load gives its word back unless its register field is zero. -/
theorem decodeLwzWord_commentLine (word : Word) :
    decodeLwzWord (commentLine word) =
      if raField word = 0 then none else some (2 ^ 31 + word.toNat % 2 ^ 26) := by
  rw [decodeLwzWord, commentRe_commentLine, Option.bind_eq_bind, Option.bind_some]
  split_ifs with base
  · rw [search_loadText_zero base]
    rfl
  · rw [search_of_eq_some (lwzRe_loadText base), ← lwzWord_fields]
    rfl

/-! ## The words of the lines -/

/-- The word of a table that a line gives. -/
def tableWord (line : Line) : Option Nat :=
  (decodeLwzWord line).filter fun word => IsTableWord word

/-- The reader takes as many words as its limit. -/
theorem readWords_eq {limit : Nat} (lines : List Line) {entries : List Nat}
    (room : entries.length < limit) :
    readWords limit lines entries =
      entries ++ (lines.filterMap tableWord).take (limit - entries.length) := by
  induction lines generalizing entries with
  | nil => simp [readWords]
  | cons line lines ih =>
      have more : limit - entries.length = limit - (entries.length + 1) + 1 := by omega
      rw [readWords, List.filterMap_cons, tableWord]
      cases decoded : decodeLwzWord line with
      | none => exact ih room
      | some word =>
          by_cases among : IsTableWord word
          · have kept : (some word).filter (fun word => IsTableWord word) = some word := by
              simpa using among
            simp only [kept]
            rw [if_pos among, more, List.take_succ_cons, List.length_append, List.length_singleton]
            split_ifs with full
            · rw [Nat.sub_eq_zero_of_le full, List.take_zero]
            · rw [ih (by simpa using full), List.append_assoc, List.length_append]
              rfl
          · have dropped : (some word).filter (fun word => IsTableWord word) = none := by
              simpa using among
            simp only [dropped]
            rw [if_neg among, ih room]

theorem tableWord_eq_none {line rest : Line} {start : Char}
    (front : skipSpaces line = start :: rest) (other : '/' ≠ start) : tableWord line = none := by
  have fails : literal "//" (start :: rest) = none := if_neg other
  rw [tableWord, decodeLwzWord, commentRe, front, fails]
  rfl

theorem tableWord_labelLine (address : Nat) : tableWord (labelLine address) = none :=
  @tableWord_eq_none _ _ 'l' rfl (by decide)

theorem tableWord_loadLine (config : RecompilerConfig) (word : Word) :
    tableWord ('\t' :: loadComputed config word) = none := by
  have name : ∃ start, '/' ≠ start ∧ isSpace start = false ∧ ∃ rest,
      config.registerText (PowerpcOperand.rt.value word).toNat = start :: rest := by
    unfold registerText nameText
    split_ifs
    · exact ⟨'r', by decide, by decide, _, rfl⟩
    · exact ⟨'c', by decide, by decide, _, rfl⟩
  obtain ⟨start, other, shown, rest, name⟩ := name
  have front : skipSpaces ('\t' :: loadComputed config word) = loadComputed config word := by
    rw [loadComputed, name]
    exact skipSpaces_tabs 1 shown
  rw [loadComputed, name] at front ⊢
  exact tableWord_eq_none front other

/-- What is left of a line behind its spaces starts with a character of the line. -/
theorem exists_skipSpaces {front : Line} {c : Char} (rest : Line) (shown : isSpace c = false) :
    ∃ start behind, skipSpaces (front ++ c :: rest) = start :: behind ∧ start ∈ front ++ [c] := by
  induction front with
  | nil => exact ⟨c, rest, List.dropWhile_cons_of_neg (by simp [shown]), List.mem_cons_self⟩
  | cons d front ih =>
      cases space : isSpace d with
      | true =>
          obtain ⟨start, behind, skipped, among⟩ := ih
          refine ⟨start, behind, ?_, List.mem_cons_of_mem d among⟩
          exact (List.dropWhile_cons_of_pos space).trans skipped
      | false => exact ⟨d, _, List.dropWhile_cons_of_neg (by simp [space]), List.mem_cons_self⟩

/-- No word is read from what a hook prints. -/
theorem tableWord_hookLines {emitter : Emitter} (named : Named emitter.config) {base : Nat}
    {afterInstruction : Bool} {line : Line}
    (member : line ∈ hookLines emitter base afterInstruction) : tableWord line = none := by
  obtain ⟨hook, found, ⟨rest, rfl⟩ | ⟨start, among, rest, front⟩⟩ :=
    hookLine_of_mem_hookLines member
  · obtain ⟨start, behind, skipped, among⟩ :=
      @exists_skipSpaces ('\t' :: hook.name.toList) '(' rest rfl
    refine tableWord_eq_none skipped ?_
    rintro rfl
    have name : '/' ∈ hook.name.toList := by simpa using among
    exact named _ _ found name
  · have others : ['i', 'e', 'r', 'g', '\x7d'].all fun start => '/' ≠ start := by decide
    exact tableWord_eq_none front (of_decide_eq_true (List.all_eq_true.mp others start among))

/-- A word of a table is the word of its comment. -/
theorem tableWord_commentLine {word : Word} (among : IsTableWord word.toNat)
    (base : raField word ≠ 0) : tableWord (commentLine word) = some word.toNat := by
  have same : 2 ^ 31 + word.toNat % 2 ^ 26 = word.toNat := by
    unfold IsTableWord at among
    omega
  rw [tableWord, decodeLwzWord_commentLine, if_neg base, same]
  simpa using among

/-- No register field of a word that is read is zero. -/
theorem base_of_commentLine {word : Word} {entry : Nat}
    (read : tableWord (commentLine word) = some entry) : entry / 2 ^ 16 % 2 ^ 5 ≠ 0 := by
  rw [tableWord, decodeLwzWord_commentLine] at read
  by_cases base : raField word = 0
  · rw [if_pos base] at read
    exact absurd read (by simp)
  rw [if_neg base] at read
  obtain rfl := Option.some.inj (Option.filter_eq_some_iff.mp read).1
  unfold raField at base
  omega

/-! ## The lines that are looked at -/

section

variable (emitter : Emitter) (lwz : Nat) (labels : List Nat) (address : Nat) (words : List Word)
  (behind : List CodeLine)

/-- The lines in front of the comment of a word. -/
def labelLines : List Line := if address ∈ labels then [labelLine address] else []

/-- The lines behind the comment of a word. -/
def loadLines (word : Word) : List Line :=
  hookLines emitter (uint32 address) false ++ ('\t' :: loadComputed emitter.config word) ::
    hookLines emitter (uint32 address) true

/-- The number of lines of a word. -/
def wordLength : Nat :=
  (labelLines labels address).length + (hookLines emitter (uint32 address) false).length +
    (hookLines emitter (uint32 address) true).length + 2

/-- The number of lines of the words from an address on. -/
def tableLength : Nat → Nat → Nat
  | _, 0 => 0
  | address, count + 1 => wordLength emitter labels address + tableLength (address + 4) count

/-- The number of lines of a `bctr` without a table behind its comment. -/
def indirectLength : Nat :=
  (hookLines emitter (uint32 address) false).length +
    (hookLines emitter (uint32 address) true).length + 2

/-- The number of lines between the comment of a `bctr` and that of word `i` behind it. -/
def commentAt (i : Nat) : Nat :=
  indirectLength emitter address + tableLength emitter labels (address + 4) i +
    (labelLines labels (address + 4 + 4 * i)).length

theorem lines_wordStatements (word : Word) :
    emitter.config.lines (commentLine word) (loadComputed emitter.config word)
        (wordStatements emitter lwz labels address) =
      labelLines labels address ++ commentLine word :: loadLines emitter address word := by
  have label : emitter.config.lines (commentLine word) (loadComputed emitter.config word)
      (if address ∈ labels then [.label address] else []) = labelLines labels address := by
    unfold labelLines
    split_ifs <;> rfl
  rw [wordStatements, lines_append, label, loadStatements, loadLines]
  simp [lines_printedHooks, statementLines, actionLines, actionText]

theorem indirectLines_eq (fn : Function) (insn : Insn) :
    indirectLines emitter fn address insn =
      bctrLine :: (hookLines emitter (uint32 address) false ++
        ('\t' :: ("PPC_CALL_INDIRECT_FUNC(".toList ++ emitter.config.specialText .ctr ++
          ".u32);".toList)) :: "\treturn;".toList :: hookLines emitter (uint32 address) true) := by
  have printed : emitter.recompileCase fn (uint32 address) insn .bctr none =
      some ([.act .callIndirect, .act .ret], none) := rfl
  rw [indirectLines, Emitter.recompileInsn_of_some printed]
  simp [lines_printedHooks, statementLines, actionLines, actionText]

variable {emitter labels address words}

theorem tableWord_labelLines {line : Line} (member : line ∈ labelLines labels address) :
    tableWord line = none := by
  unfold labelLines at member
  split_ifs at member
  · exact List.mem_singleton.mp member ▸ tableWord_labelLine address
  · exact absurd member List.not_mem_nil

theorem tableWord_loadLines (named : Named emitter.config) {word : Word} {line : Line}
    (member : line ∈ loadLines emitter address word) : tableWord line = none := by
  rw [loadLines, List.mem_append, List.mem_cons] at member
  rcases member with hooked | rfl | hooked
  · exact tableWord_hookLines named hooked
  · exact tableWord_loadLine emitter.config word
  · exact tableWord_hookLines named hooked

theorem filterMap_eq_nil {lines : List Line} (none : ∀ line ∈ lines, tableWord line = none)
    (window : Nat) : (lines.take window).filterMap tableWord = [] :=
  List.filterMap_eq_nil_iff.mpr fun line member => none line (List.mem_of_mem_take member)

/-- A word is read when its comment is among the lines. -/
theorem filterMap_wordLines (named : Named emitter.config) (word : Word) (rest : List Line)
    (window : Nat) :
    ((labelLines labels address ++ commentLine word :: loadLines emitter address word ++
        rest).take window).filterMap tableWord =
      if (labelLines labels address).length < window then
        (tableWord (commentLine word)).toList ++
          (rest.take (window - wordLength emitter labels address)).filterMap tableWord
      else [] := by
  have label : ∀ line ∈ labelLines labels address, tableWord line = none := fun _ =>
    tableWord_labelLines
  have load : ∀ line ∈ loadLines emitter address word, tableWord line = none := fun _ =>
    tableWord_loadLines named
  rw [List.append_assoc, List.cons_append, List.take_append, List.filterMap_append,
    filterMap_eq_nil label, List.nil_append]
  split_ifs with shown
  · obtain ⟨left, split⟩ := Nat.exists_eq_add_of_lt shown
    have room : window - (labelLines labels address).length = left + 1 := by omega
    have behind : left - (loadLines emitter address word).length =
        window - wordLength emitter labels address := by
      rw [loadLines, wordLength, List.length_append, List.length_cons]
      omega
    rw [room, List.take_succ_cons, List.filterMap_cons, List.take_append, List.filterMap_append,
      filterMap_eq_nil load, List.nil_append, behind]
    cases tableWord (commentLine word) <;> rfl
  · rw [Nat.sub_eq_zero_of_le (by omega)]
    rfl

theorem filterMap_tableLines_cons (named : Named emitter.config) (word : Word)
    (words : List Word) (rest : List Line) (window : Nat) :
    ((tableLines emitter lwz labels address (word :: words) ++ rest).take window).filterMap
        tableWord =
      if (labelLines labels address).length < window then
        (tableWord (commentLine word)).toList ++
          ((tableLines emitter lwz labels (address + 4) words ++ rest).take
            (window - wordLength emitter labels address)).filterMap tableWord
      else [] := by
  rw [tableLines, lines_wordStatements, List.append_assoc, filterMap_wordLines named]

/-- Words of a table that are all read. -/
def Read (words : List Word) : Prop := ∀ word ∈ words, IsTableWord word.toNat ∧ raField word ≠ 0

/-- The words are read when their comments are among the lines. -/
theorem filterMap_tableLines (named : Named emitter.config) (read : Read words) (rest : List Line)
    {window : Nat}
    (fits : ∀ i < words.length, tableLength emitter labels address i +
      (labelLines labels (address + 4 * i)).length < window) :
    ((tableLines emitter lwz labels address words ++ rest).take window).filterMap tableWord =
      words.map BitVec.toNat ++ (rest.take
        (window - tableLength emitter labels address words.length)).filterMap tableWord := by
  induction words generalizing address window with
  | nil => rfl
  | cons word words ih =>
      obtain ⟨⟨among, base⟩, readRest⟩ := List.forall_mem_cons.mp read
      have first := fits 0 (Nat.succ_pos _)
      rw [tableLength, Nat.zero_add, Nat.mul_zero, Nat.add_zero] at first
      have later : ∀ i < words.length, tableLength emitter labels (address + 4) i +
          (labelLines labels (address + 4 + 4 * i)).length <
            window - wordLength emitter labels address := by
        intro i less
        have bound := fits (i + 1) (Nat.succ_lt_succ less)
        rw [tableLength, show address + 4 * (i + 1) = address + 4 + 4 * i by omega] at bound
        omega
      rw [filterMap_tableLines_cons lwz named, if_pos first, ih readRest later,
        tableWord_commentLine among base, List.length_cons, tableLength, ← Nat.sub_sub]
      rfl

/-- No word is read behind a comment that is not among the lines. -/
theorem length_filterMap_tableLines (named : Named emitter.config) (rest : List Line)
    {window i : Nat} (less : i < words.length)
    (late : window ≤ tableLength emitter labels address i +
      (labelLines labels (address + 4 * i)).length) :
    (((tableLines emitter lwz labels address words ++ rest).take window).filterMap
      tableWord).length ≤ i := by
  induction words generalizing address window i with
  | nil => exact absurd less (Nat.not_lt_zero i)
  | cons word words ih =>
      rw [filterMap_tableLines_cons lwz named]
      cases i with
      | zero =>
          rw [tableLength, Nat.zero_add, Nat.mul_zero, Nat.add_zero] at late
          rw [if_neg (Nat.not_lt.mpr late)]
          exact Nat.le_refl 0
      | succ i =>
          rw [tableLength, show address + 4 * (i + 1) = address + 4 + 4 * i by omega] at late
          have few := @ih (address + 4) (window - wordLength emitter labels address) i
            (Nat.lt_of_succ_lt_succ less) (by omega)
          split_ifs
          · rw [List.length_append]
            have one := @Option.length_toList_le _ (tableWord (commentLine word))
            omega
          · exact Nat.zero_le _

end

/-! ## Reading a table -/

/-- The lines of a `bctr` without a table at an address, of the words behind it and of the code
behind those. -/
def inlineTable (emitter : Emitter) (fn : Function) (address : Nat) (insn : Insn) (lwz : Nat)
    (labels : List Nat) (words : List Word) (behind : List CodeLine) : List Line :=
  indirectLines emitter fn address insn ++
    (tableLines emitter lwz labels (address + 4) words ++ behind.map CodeLine.text)

/-- No line gives a word with a register field of zero. -/
theorem base_of_tableLines {emitter : Emitter} (named : Named emitter.config) {lwz address : Nat}
    {labels : List Nat} {words : List Word} {behind : List CodeLine} {line : Line} {entry : Nat}
    (member : line ∈ tableLines emitter lwz labels address words ++ behind.map CodeLine.text)
    (read : tableWord line = some entry) : entry / 2 ^ 16 % 2 ^ 5 ≠ 0 := by
  induction words generalizing address with
  | nil =>
      obtain ⟨⟨_, noLoad | ⟨word, rfl⟩⟩, _, rfl⟩ := List.mem_map.mp member
      · rw [tableWord, noLoad] at read
        exact absurd read (by simp)
      · exact base_of_commentLine read
  | cons word words ih =>
      rw [tableLines, lines_wordStatements, List.append_assoc, List.append_assoc,
        List.cons_append, List.mem_append, List.mem_cons, List.mem_append] at member
      rcases member with label | rfl | load | rest
      · rw [tableWord_labelLines label] at read
        exact absurd read (by simp)
      · exact base_of_commentLine read
      · rw [tableWord_loadLines named load] at read
        exact absurd read (by simp)
      · exact ih rest

/-- Nothing is read from the lines of the `bctr` itself. -/
theorem filterMap_indirectLines {emitter : Emitter} (named : Named emitter.config) (fn : Function)
    (address : Nat) (insn : Insn) (lines : List Line) (window : Nat) :
    (((indirectLines emitter fn address insn ++ lines).drop 1).take window).filterMap tableWord =
      (lines.take (window - indirectLength emitter address)).filterMap tableWord := by
  have call : ∀ text, tableWord ('\t' :: ("PPC_CALL_INDIRECT_FUNC(".toList ++ text)) = none :=
    fun text => @tableWord_eq_none _ _ 'P' rfl (by decide)
  have leave : tableWord "\treturn;".toList = none := @tableWord_eq_none _ _ 'r' rfl (by decide)
  have nothing : ∀ line ∈ (indirectLines emitter fn address insn).drop 1,
      tableWord line = none := by
    intro line member
    rw [indirectLines_eq, List.drop_one, List.tail_cons, List.mem_append, List.mem_cons,
      List.mem_cons, List.append_assoc] at member
    rcases member with hooked | rfl | rfl | hooked
    · exact tableWord_hookLines named hooked
    · exact call _
    · exact leave
    · exact tableWord_hookLines named hooked
  have length : ((indirectLines emitter fn address insn).drop 1).length =
      indirectLength emitter address := by
    rw [indirectLines_eq, indirectLength, List.drop_one, List.tail_cons, List.length_append,
      List.length_cons, List.length_cons]
    omega
  have some : 1 ≤ (indirectLines emitter fn address insn).length := by
    rw [indirectLines_eq]
    exact Nat.succ_pos _
  rw [List.drop_append_of_le_length some, List.take_append, List.filterMap_append,
    filterMap_eq_nil nothing, List.nil_append, length]

theorem entryLimit_pos (entryCount : Option Nat) : 0 < entryLimit entryCount := by
  obtain _ | _ | count := entryCount
  · decide
  · decide
  · exact Nat.succ_pos count

section

variable {emitter : Emitter} (named : Named emitter.config) (fn : Function) (address : Nat)
  (insn : Insn) (lwz : Nat) (labels : List Nat) (words : List Word) (behind : List CodeLine)
  (before : List Line)

include named

/-- What is read of a table, in terms of the words that its lines give. -/
theorem readCommentEntries_inlineTable (entryCount : Option Nat) :
    readCommentEntries (before ++ inlineTable emitter fn address insn lwz labels words behind)
        before.length entryCount =
      (((tableLines emitter lwz labels (address + 4) words ++ behind.map CodeLine.text).take
        (3 * entryLimit entryCount - indirectLength emitter address)).filterMap tableWord).take
          (entryLimit entryCount) := by
  rw [readCommentEntries, readWords_eq _ (entryLimit_pos entryCount), ← List.drop_drop,
    List.drop_left, inlineTable, filterMap_indirectLines named, Nat.mul_comm]
  rfl

/-- No word with a register field of zero is read. -/
theorem base_of_mem_readCommentEntries {entryCount : Option Nat} {entry : Nat}
    (member : entry ∈ readCommentEntries
      (before ++ inlineTable emitter fn address insn lwz labels words behind) before.length
        entryCount) : entry / 2 ^ 16 % 2 ^ 5 ≠ 0 := by
  rw [readCommentEntries_inlineTable named] at member
  obtain ⟨line, lineMember, read⟩ := List.mem_filterMap.mp (List.mem_of_mem_take member)
  exact base_of_tableLines named (List.mem_of_mem_take lineMember) read

/-- Reading a table that is at most as long as the entry count gives its words when none has a
register field of zero, when their comments are all among three lines for each entry that the limit
allows, and when no load behind the table is read as a further word. -/
theorem readCommentEntries_iff (count : Nat) (among : ∀ word ∈ words, IsTableWord word.toNat)
    (enough : words.length ≤ count) :
    readCommentEntries (before ++ inlineTable emitter fn address insn lwz labels words behind)
        before.length (some count) = words.map BitVec.toNat ↔
      (∀ word ∈ words, raField word ≠ 0) ∧
        (∀ i < words.length,
          commentAt emitter labels address i < 3 * entryLimit (some count)) ∧
          (words.length < entryLimit (some count) →
            ∀ line ∈ behind.take (3 * entryLimit (some count) - indirectLength emitter address -
                tableLength emitter labels (address + 4) words.length),
              tableWord line.text = none) := by
  have atMost : words.length ≤ entryLimit (some count) := by
    obtain _ | count := count
    · exact Nat.le_trans enough (Nat.zero_le _)
    · exact enough
  have window : ∀ i, commentAt emitter labels address i < 3 * entryLimit (some count) ↔
      tableLength emitter labels (address + 4) i +
          (labelLines labels (address + 4 + 4 * i)).length <
        3 * entryLimit (some count) - indirectLength emitter address := by
    intro i
    rw [commentAt]
    omega
  simp only [window]
  constructor
  · intro same
    have based : ∀ word ∈ words, raField word ≠ 0 := by
      intro word member
      have entry : word.toNat ∈ words.map BitVec.toNat := List.mem_map_of_mem member
      rw [← same] at entry
      exact base_of_mem_readCommentEntries named _ _ _ _ _ _ _ _ entry
    rw [readCommentEntries_inlineTable named] at same
    have read : Read words := fun word member => ⟨among word member, based word member⟩
    have fits : ∀ i < words.length, tableLength emitter labels (address + 4) i +
        (labelLines labels (address + 4 + 4 * i)).length <
          3 * entryLimit (some count) - indirectLength emitter address := by
      intro i less
      by_contra late
      have few := length_filterMap_tableLines lwz named (behind.map CodeLine.text) less
        (Nat.not_lt.mp late)
      have lengths := congrArg List.length same
      rw [List.length_take, List.length_map] at lengths
      omega
    refine ⟨based, fits, fun more => ?_⟩
    rw [filterMap_tableLines lwz named read _ fits, List.take_append,
      List.take_of_length_le (by simpa using atMost), List.append_right_eq_self,
      List.take_eq_nil_iff, List.length_map] at same
    have nothing := same.resolve_left (by omega)
    rw [List.filterMap_eq_nil_iff] at nothing
    intro line member
    apply nothing
    rw [← List.map_take]
    exact List.mem_map_of_mem member
  · rintro ⟨based, fits, quiet⟩
    have read : Read words := fun word member => ⟨among word member, based word member⟩
    rw [readCommentEntries_inlineTable named, filterMap_tableLines lwz named read _ fits]
    by_cases more : words.length < entryLimit (some count)
    · have nothing : ((behind.map CodeLine.text).take (3 * entryLimit (some count) -
          indirectLength emitter address -
            tableLength emitter labels (address + 4) words.length)).filterMap tableWord = [] := by
        rw [List.filterMap_eq_nil_iff, ← List.map_take]
        intro text member
        obtain ⟨line, lineMember, rfl⟩ := List.mem_map.mp member
        exact quiet more line lineMember
      rw [nothing, List.append_nil, List.take_of_length_le (by simpa using atMost)]
    · have full : entryLimit (some count) = (words.map BitVec.toNat).length := by
        rw [List.length_map]
        omega
      rw [full, List.take_left]

end

/-- A hook in front of the second of three words. -/
def hookedEmitter : Emitter where
  dis := ⟨fun _ => false, fun _ => none⟩
  config := {
    midAsmHooks :=
      ⟨[(0x82001008, { name := "Game::Hook", registers := ["r3", "ctr"] })], by decide⟩ }
  symbols := .empty
  hasCase _ := true

theorem named_hookedEmitter : Named hookedEmitter.config := by
  intro address hook found
  have member : (address, hook) ∈ hookedEmitter.config.midAsmHooks.entries :=
    UnorderedMap.mem_of_find found
  obtain ⟨-, rfl⟩ := Prod.mk.inj (List.mem_singleton.mp member)
  decide

theorem readCommentEntries_hooked :
    readCommentEntries (["loc_82001000:".toList] ++ inlineTable hookedEmitter ⟨0x82001000, 0x40, []⟩
        0x82001000 ⟨some .bctr, 0x4E800420, []⟩ 0 [0x82001004, 0x8200100C]
        [0x82030000, 0x8216FFFC, 0x83FF0010]
        [⟨"\t// blr ".toList, .inl (by decide)⟩, ⟨"\treturn;".toList, .inl (by decide)⟩])
        ["loc_82001000:".toList].length (some 4) =
      [(0x82030000 : Word), 0x8216FFFC, 0x83FF0010].map BitVec.toNat := by
  have among : ∀ word ∈ [(0x82030000 : Word), 0x8216FFFC, 0x83FF0010],
      IsTableWord word.toNat ∧ raField word ≠ 0 := by
    refine List.forall_mem_cons.mpr ⟨by decide, List.forall_mem_cons.mpr ⟨by decide, ?_⟩⟩
    exact List.forall_mem_singleton.mpr (by decide)
  refine (readCommentEntries_iff named_hookedEmitter _ _ _ _ _ _ _ _ 4
    (fun word member => (among word member).1) (by decide)).mpr
      ⟨fun word member => (among word member).2, by decide, fun _ line member => ?_⟩
  obtain rfl := List.mem_singleton.mp member
  decide

/-- A word with a register field of zero. -/
theorem not_readCommentEntries : ¬∀ (emitter : Emitter) (fn : Function) (address : Nat)
    (insn : Insn) (lwz : Nat) (labels : List Nat) (words : List Word) (behind : List CodeLine)
    (before : List Line) (count : Nat), Named emitter.config →
    (∀ word ∈ words, IsTableWord word.toNat) → words.length ≤ count →
      readCommentEntries (before ++ inlineTable emitter fn address insn lwz labels words behind)
        before.length (some count) = words.map BitVec.toNat := by
  intro every
  have named : Named ({} : RecompilerConfig) := fun _ _ found => nomatch found
  have same := every ⟨⟨fun _ => false, fun _ => none⟩, {}, .empty, fun _ => true⟩
    ⟨0x82001000, 0x100, []⟩ 0x82001000 ⟨some .bctr, 0x4E800420, []⟩ 0 [] [0x82000000] [] [] 1 named
    (List.forall_mem_singleton.mpr (by decide)) (by decide)
  have entry : 0x82000000 ∈ [(0x82000000 : Word)].map BitVec.toNat := List.mem_cons_self
  rw [← same] at entry
  exact base_of_mem_readCommentEntries named _ _ _ _ _ _ _ _ entry (by decide)

end UfcRecomp.Tools
