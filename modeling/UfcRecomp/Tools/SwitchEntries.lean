import UfcRecomp.Recompiler.Lines

/-!
# Reading a switch back

The diagnosis of an indirect jump reads the generated code. It takes the labels of a `switch` from
the lines behind a `bctr`: a case is pending from its `case` line on, until a `goto` line gives its
label. A case that leaves the function has no such line, and the line of the default ends the reading
only while a case is pending.
-/

namespace UfcRecomp.Tools

open UfcRecomp.Lib UfcRecomp.Lib.TextPattern UfcRecomp.Ppc UfcRecomp.Analyze
open UfcRecomp.Recompiler UfcRecomp.Recompiler.RecompilerConfig

/-- A line of the generated code, without its end. -/
abbrev Line := Text

/-! ## The reader -/

/-- `CASE_RE`: `^\s*case\s+\d+:\s*$` -/
def caseRe (line : Line) : Bool :=
  (do
    let rest ← literal "case" (skipSpaces line)
    let (_, rest) ← oneOrMore isSpace rest
    let (_, rest) ← oneOrMore isDigit rest
    literal ":" rest : Option (List Char)).any fun rest => rest.all isSpace

/-- `GOTO_RE`: `^\s*goto\s+loc_([0-9A-Fa-f]{8});`, with the number of its group. -/
def gotoRe (line : Line) : Option Nat := do
  let rest ← literal "goto" (skipSpaces line)
  let (_, rest) ← oneOrMore isSpace rest
  let rest ← literal "loc_" rest
  let (digits, rest) ← exactly 8 isHexDigit rest
  let _ ← literal ";" rest
  return hexValue digits

/-- The loop over the lines, with what it has read so far. -/
def readLines : List Line → Bool → List Nat → List Nat
  | [], _, entries => entries
  | line :: lines, inCase, entries =>
    if caseRe line then readLines lines true entries
    else if inCase then
      match gotoRe line with
      | some target => readLines lines false (entries ++ [target])
      | none =>
        if contains "default:" line then entries else readLines lines inCase entries
    else readLines lines inCase entries

def readSwitchEntries (lines : List Line) (bctrIndex : Nat) : List Nat :=
  readLines ((lines.drop bctrIndex).take 260) false []

/-! ## The lines of a switch -/

def gotoLine (label : Nat) : Line :=
  "\t\tgoto loc_".toList ++ Radix.chars 16 label ++ ";".toList

def errorLine (label : Nat) : Line := "\t\t// ERROR: 0x".toList ++ Radix.chars 16 label

def returnLine : Line := "\t\treturn;".toList

def bctrLine : Line := "\t// bctr ".toList

/-- The lines of a `bctr` at an address with a table, from its comment on, and the code of the
function behind. -/
def bctrLines (emitter : Emitter) (fn : Function) (base : Nat) (insn : Insn)
    (table : RecompilerSwitchTable) (behind : List Line) : List Line :=
  emitter.config.lines bctrLine [] (emitter.recompileInsn fn base insn .bctr (some table)).1 ++
    behind

/-- The lines of the cases from number `i` on. -/
def switchCases (config : RecompilerConfig) (fn : Function) (i : Nat) (labels : List Nat)
    (behind : List Line) : List Line :=
  config.caseLines [] i (labels.map (Emitter.printCase fn)) ++ behind

/-- What hooks print stands around the switch. -/
theorem bctrLines_eq (emitter : Emitter) (fn : Function) (base : Nat) (insn : Insn)
    (table : RecompilerSwitchTable) (behind : List Line) :
    bctrLines emitter fn base insn table behind =
      bctrLine :: (hookLines emitter base false ++ emitter.config.switchLine table.r ::
        switchCases emitter.config fn 0 table.labels (defaultLine :: unreachableLine ::
          closingLine :: (hookLines emitter base true ++ behind))) := by
  have printed : emitter.recompileCase fn base insn .bctr (some table) =
      some ([.switch table.r (table.labels.map (Emitter.printCase fn))], none) := rfl
  rw [bctrLines, Emitter.recompileInsn_of_some printed]
  simp [lines_printedHooks, statementLines, switchCases]

section

variable (config : RecompilerConfig) {fn : Function} (i : Nat) {label : Nat} (labels : List Nat)
  (behind : List Line)

theorem switchCases_inside (inside : Inside fn label) :
    switchCases config fn i (label :: labels) behind =
      caseLine i :: gotoLine label :: switchCases config fn (i + 1) labels behind := by
  rw [switchCases, List.map_cons, Emitter.printCase, if_neg (not_not.mpr inside), caseLines]
  rfl

/-- A case that leaves the function has no `goto` line. -/
theorem switchCases_outside (outside : ¬Inside fn label) :
    switchCases config fn i (label :: labels) behind =
      caseLine i :: errorLine label :: returnLine ::
        switchCases config fn (i + 1) labels behind := by
  rw [switchCases, List.map_cons, Emitter.printCase, if_pos outside, caseLines]
  rfl

end

/-! ## How the lines read -/

@[simp]
theorem caseRe_caseLine (i : Nat) : caseRe (caseLine i) = true := by
  obtain ⟨c, rest, shape, ends⟩ := @exists_chars 10 i (by decide) (by decide)
  have front : skipSpaces (caseLine i) =
      "case".toList ++ ([' '] ++ c :: (rest ++ [':'])) :=
    congrArg (fun digits => skipSpaces ("\tcase ".toList ++ digits ++ ":".toList)) shape
  have behind : c :: (rest ++ [':']) = (c :: rest) ++ ':' :: [] := rfl
  have digits : ∀ d ∈ c :: rest, isDigit d := fun d member =>
    isDigit_of_mem_chars (shape ▸ member)
  rw [caseRe, front]
  simp only [Option.bind_eq_bind]
  rw [literal_append, Option.bind_some, oneOrMore_append _ (by simp) isSpace_of_mem_blank ends,
    Option.bind_some, behind, oneOrMore_append _ (by simp) digits (by decide)]
  rfl

/-- What `gotoRe` reads behind `loc_`. -/
theorem gotoRe_gotoLine (label : Nat) :
    gotoRe (gotoLine label) =
      (exactly 8 isHexDigit (Radix.chars 16 label ++ ";".toList)).bind fun found =>
        (literal ";" found.2).bind fun _ => some (hexValue found.1) := by
  have front : skipSpaces (gotoLine label) =
      "goto".toList ++ ([' '] ++ 'l' :: ("oc_".toList ++ (Radix.chars 16 label ++ ";".toList))) := by
    refine (congrArg skipSpaces (List.append_assoc _ _ _)).trans ?_
    generalize Radix.chars 16 label ++ ";".toList = rest
    rfl
  have loc : 'l' :: ("oc_".toList ++ (Radix.chars 16 label ++ ";".toList)) =
      "loc_".toList ++ (Radix.chars 16 label ++ ";".toList) := rfl
  rw [gotoRe, front]
  simp only [Option.bind_eq_bind]
  rw [literal_append, Option.bind_some, oneOrMore_append _ (by simp) isSpace_of_mem_blank (by decide),
    Option.bind_some, loc, literal_append, Option.bind_some]
  simp only [Option.pure_def]

/-- The label of a case can be read back when it has eight digits. -/
theorem gotoRe_of_length {label : Nat} (eight : (Radix.chars 16 label).length = 8) :
    gotoRe (gotoLine label) = some label := by
  have digits : (Radix.chars 16 label).all isHexDigit :=
    List.all_eq_true.mpr fun c member => isHexDigit_of_mem_chars member
  rw [gotoRe_gotoLine, exactly_append _ eight digits, Option.bind_some]
  exact congrArg some (hexValue_chars label)

theorem gotoRe_of_length_ne {label : Nat} (length : (Radix.chars 16 label).length ≠ 8) :
    gotoRe (gotoLine label) = none := by
  have digits : ∀ c ∈ Radix.chars 16 label, isHexDigit c := fun c member =>
    isHexDigit_of_mem_chars member
  rw [gotoRe_gotoLine]
  generalize Radix.chars 16 label = text at length digits
  unfold exactly
  split_ifs with eight
  · obtain ⟨taken, all⟩ := eight
    rw [List.length_take, List.length_append] at taken
    change min 8 (text.length + 1) = 8 at taken
    by_cases long : 8 < text.length
    · -- the ninth digit stands where the semicolon should
      have behind : (text ++ ";".toList).drop 8 = text[8] :: (text.drop 9 ++ ";".toList) := by
        rw [List.drop_append_of_le_length (by omega), List.drop_eq_getElem_cons long,
          List.cons_append]
      have digit : ';' ≠ text[8] := by
        intro same
        have := digits text[8] (List.getElem_mem long)
        rw [← same] at this
        exact absurd this (by decide)
      rw [Option.bind_some, behind]
      exact congrArg (Option.bind · _) (if_neg digit)
    · have semicolon : ';' ∈ (text ++ ";".toList).take 8 := by
        rw [List.take_of_length_le (by rw [List.length_append]; change text.length + 1 ≤ 8; omega)]
        exact List.mem_append_right _ List.mem_cons_self
      exact absurd (List.all_eq_true.mp all _ semicolon) (by decide)
  · rfl

/-- The labels whose cases can be read back: those in the function with eight digits. -/
def Readable (fn : Function) (label : Nat) : Prop :=
  Inside fn label ∧ 2 ^ 28 ≤ label ∧ label < 2 ^ 32

instance (fn : Function) (label : Nat) : Decidable (Readable fn label) :=
  inferInstanceAs (Decidable (_ ∧ _))

theorem eight_iff (label : Nat) :
    (Radix.chars 16 label).length = 8 ↔ 2 ^ 28 ≤ label ∧ label < 2 ^ 32 :=
  length_chars_iff 8 (by decide)

/-! ## The state of the reader -/

theorem caseRe_eq_false {line rest : Line} {start : Char} (front : skipSpaces line = start :: rest)
    (other : 'c' ≠ start) : caseRe line = false := by
  have fails : literal "case" (start :: rest) = none := if_neg other
  rw [caseRe, front, fails]
  rfl

theorem gotoRe_eq_none {line rest : Line} {start : Char} (front : skipSpaces line = start :: rest)
    (other : 'g' ≠ start) : gotoRe line = none := by
  have fails : literal "goto" (start :: rest) = none := if_neg other
  rw [gotoRe, front, fails]
  rfl

@[simp]
theorem caseRe_gotoLine (label : Nat) : caseRe (gotoLine label) = false :=
  @caseRe_eq_false _ _ 'g' rfl (by decide)

/-- Hexadecimal digits have no letters in lower case. -/
theorem not_mem_chars (label : Nat) : 'd' ∉ Radix.chars 16 label := by
  intro member
  obtain ⟨digit, small, same⟩ := mem_chars (by decide) member
  have : ∀ digit < 16, 'd' ≠ Radix.digitChar digit := by decide
  exact this digit small same

/-- The reader passes over a line. -/
structure Silent (line : Line) : Prop where
  noCase : caseRe line = false
  noGoto : gotoRe line = none
  noDefault : contains "default:" line = false

/-- A line that ends the reading while a case is pending. -/
structure Closes (line : Line) : Prop where
  noCase : caseRe line = false
  noGoto : gotoRe line = none
  isDefault : contains "default:" line = true

instance (line : Line) : Decidable (Closes line) :=
  decidable_of_iff (caseRe line = false ∧ gotoRe line = none ∧ contains "default:" line = true)
    ⟨fun ⟨noCase, noGoto, isDefault⟩ => ⟨noCase, noGoto, isDefault⟩,
      fun ⟨noCase, noGoto, isDefault⟩ => ⟨noCase, noGoto, isDefault⟩⟩

/-- What the reader makes of a line. -/
theorem line_cases (line : Line) :
    caseRe line = true ∨ (caseRe line = false ∧ ∃ target, gotoRe line = some target) ∨
      Closes line ∨ Silent line := by
  cases isCase : caseRe line with
  | true => exact .inl rfl
  | false =>
      cases target : gotoRe line with
      | some target => exact .inr (.inl ⟨rfl, _, rfl⟩)
      | none =>
          cases isDefault : contains "default:" line with
          | true => exact .inr (.inr (.inl ⟨isCase, target, isDefault⟩))
          | false => exact .inr (.inr (.inr ⟨isCase, target, isDefault⟩))

section

variable {line : Line} (lines : List Line) (inCase : Bool) (entries : List Nat)

theorem readLines_isCase (isCase : caseRe line = true) :
    readLines (line :: lines) inCase entries = readLines lines true entries := by
  rw [readLines, if_pos isCase]

theorem readLines_idle (noCase : caseRe line = false) :
    readLines (line :: lines) false entries = readLines lines false entries := by
  rw [readLines, noCase, if_neg Bool.false_ne_true, if_neg Bool.false_ne_true]

theorem readLines_target {target : Nat} (noCase : caseRe line = false)
    (isGoto : gotoRe line = some target) :
    readLines (line :: lines) true entries = readLines lines false (entries ++ [target]) := by
  rw [readLines, noCase, isGoto, if_neg Bool.false_ne_true, if_pos rfl]

theorem readLines_closes (closes : Closes line) :
    readLines (line :: lines) true entries = entries := by
  rw [readLines, closes.noCase, closes.noGoto, closes.isDefault]
  rfl

theorem readLines_silent (silent : Silent line) :
    readLines (line :: lines) inCase entries = readLines lines inCase entries := by
  rw [readLines, silent.noCase, silent.noGoto, silent.noDefault]
  exact ite_self _

end

/-- What has been read stays in front of what is read later. -/
theorem readLines_append (lines : List Line) (inCase : Bool) (entries : List Nat) :
    readLines lines inCase entries = entries ++ readLines lines inCase [] := by
  induction lines generalizing inCase entries with
  | nil => exact (List.append_nil entries).symm
  | cons line lines ih =>
      cases inCase with
      | false =>
          cases isCase : caseRe line with
          | true => simpa only [readLines_isCase _ _ _ isCase] using ih true entries
          | false => simpa only [readLines_idle _ _ isCase] using ih false entries
      | true =>
          obtain isCase | ⟨noCase, target, isGoto⟩ | closes | silent := line_cases line
          · simpa only [readLines_isCase _ _ _ isCase] using ih true entries
          · simp only [readLines_target _ _ noCase isGoto]
            rw [ih false (entries ++ [target]), ih false ([] ++ [target]), List.nil_append,
              List.append_assoc]
          · simp only [readLines_closes _ _ closes, List.append_nil]
          · simpa only [readLines_silent _ _ _ silent] using ih true entries

/-! ## The lines of a case -/

theorem silent_errorLine (label : Nat) : Silent (errorLine label) where
  noCase := @caseRe_eq_false _ _ '/' rfl (by decide)
  noGoto := @gotoRe_eq_none _ _ '/' rfl (by decide)
  noDefault := by
    refine @contains_eq_false _ _ 'd' _ rfl fun member => ?_
    rcases List.mem_append.mp member with front | digits
    · exact absurd front (by decide)
    · exact not_mem_chars label digits

theorem silent_returnLine : Silent returnLine where
  noCase := @caseRe_eq_false _ _ 'r' rfl (by decide)
  noGoto := @gotoRe_eq_none _ _ 'r' rfl (by decide)
  noDefault := @contains_eq_false _ _ 'd' _ rfl (by decide)

theorem silent_gotoLine {label : Nat} (length : ¬(2 ^ 28 ≤ label ∧ label < 2 ^ 32)) :
    Silent (gotoLine label) where
  noCase := caseRe_gotoLine label
  noGoto := gotoRe_of_length_ne fun eight => length ((eight_iff label).mp eight)
  noDefault := by
    refine @contains_eq_false _ _ 'd' _ rfl fun member => ?_
    rcases List.mem_append.mp member with front | last
    · rcases List.mem_append.mp front with start | digits
      · exact absurd start (by decide)
      · exact not_mem_chars label digits
    · exact absurd last (by decide)

theorem readLines_caseLine (i : Nat) (lines : List Line) (inCase : Bool) (entries : List Nat) :
    readLines (caseLine i :: lines) inCase entries = readLines lines true entries :=
  readLines_isCase lines inCase entries (caseRe_caseLine i)

theorem readLines_gotoLine {label : Nat} (eight : 2 ^ 28 ≤ label ∧ label < 2 ^ 32)
    (lines : List Line) (entries : List Nat) :
    readLines (gotoLine label :: lines) true entries =
      readLines lines false (entries ++ [label]) :=
  readLines_target lines entries (caseRe_gotoLine label)
    (gotoRe_of_length ((eight_iff label).mpr eight))

/-! ## The code behind the switch -/

/-- No label is read from lines: there is none between the first `case` line and the first line
behind it that closes. -/
def Quiet (lines : List Line) : Prop :=
  ∀ line ∈ (lines.dropWhile fun line => !caseRe line).takeWhile fun line => ¬Closes line,
    caseRe line ∨ gotoRe line = none

instance (lines : List Line) : Decidable (Quiet lines) := inferInstanceAs (Decidable (∀ _ ∈ _, _))

theorem readLines_pending_iff (lines : List Line) :
    readLines lines true [] = [] ↔
      ∀ line ∈ lines.takeWhile fun line => ¬Closes line, caseRe line ∨ gotoRe line = none := by
  induction lines with
  | nil => simp [readLines]
  | cons line lines ih =>
      rw [List.takeWhile_cons]
      obtain isCase | ⟨noCase, target, isGoto⟩ | closes | silent := line_cases line
      · have stays : ¬Closes line := fun closes => by simp [closes.noCase] at isCase
        rw [readLines_isCase _ _ _ isCase, ih, if_pos (by simpa using stays),
          List.forall_mem_cons]
        exact (and_iff_right (.inl isCase)).symm
      · have stays : ¬Closes line := fun closes => by simp [closes.noGoto] at isGoto
        rw [readLines_target _ _ noCase isGoto, readLines_append, if_pos (by simpa using stays),
          List.forall_mem_cons, isGoto, noCase]
        simp
      · rw [readLines_closes _ _ closes, if_neg (by simpa using closes)]
        simp
      · have stays : ¬Closes line := fun closes => by
          simpa [closes.isDefault] using silent.noDefault
        rw [readLines_silent _ _ _ silent, ih, if_pos (by simpa using stays),
          List.forall_mem_cons]
        exact (and_iff_right (.inr silent.noGoto)).symm

theorem readLines_iff (lines : List Line) : readLines lines false [] = [] ↔ Quiet lines := by
  induction lines with
  | nil => simp [readLines, Quiet]
  | cons line lines ih =>
      rw [Quiet, List.dropWhile_cons]
      cases isCase : caseRe line with
      | true =>
          have same : readLines (line :: lines) false [] = readLines (line :: lines) true [] := by
            rw [readLines_isCase _ _ _ isCase, readLines_isCase _ _ _ isCase]
          rw [same, readLines_pending_iff]
          rfl
      | false =>
          rw [readLines_idle _ _ isCase, ih]
          rfl

/-! ## Reading a switch -/

theorem closes_defaultLine : Closes defaultLine where
  noCase := @caseRe_eq_false _ _ 'd' rfl (by decide)
  noGoto := @gotoRe_eq_none _ _ 'd' rfl (by decide)
  isDefault := by decide

/-- A case that cannot be read back stays pending: whatever is read next is the label of a later
case, if there is anything to be read. -/
theorem readLines_lost (config : RecompilerConfig) (fn : Function) (i : Nat) (labels : List Nat)
    (behind : List Line) (window : Nat) :
    readLines ((switchCases config fn i labels (defaultLine :: behind)).take window) true [] = [] ∨
      ∃ label rest,
        readLines ((switchCases config fn i labels (defaultLine :: behind)).take window) true [] =
          label :: rest ∧ Readable fn label := by
  induction labels generalizing i window with
  | nil =>
      left
      cases window with
      | zero => rfl
      | succ window => exact readLines_closes _ _ closes_defaultLine
  | cons label labels ih =>
      obtain _ | window := window
      · exact .inl rfl
      by_cases inside : Inside fn label
      · rw [switchCases_inside config i labels _ inside, List.take_succ_cons, readLines_caseLine]
        obtain _ | window := window
        · exact .inl rfl
        rw [List.take_succ_cons]
        by_cases eight : 2 ^ 28 ≤ label ∧ label < 2 ^ 32
        · rw [readLines_gotoLine eight, readLines_append]
          exact .inr ⟨label, _, rfl, inside, eight⟩
        · rw [readLines_silent _ _ _ (silent_gotoLine eight)]
          exact ih (i + 1) window
      · rw [switchCases_outside config i labels _ inside, List.take_succ_cons, readLines_caseLine]
        obtain _ | _ | window := window
        · exact .inl rfl
        · exact .inl (readLines_silent _ _ _ (silent_errorLine label))
        rw [List.take_succ_cons, readLines_silent _ _ _ (silent_errorLine label),
          List.take_succ_cons, readLines_silent _ _ _ silent_returnLine]
        exact ih (i + 1) window

/-- A case is pending from its first line on. -/
theorem readLines_switchCases (config : RecompilerConfig) (fn : Function) (i label : Nat)
    (labels : List Nat) (behind : List Line) (window : Nat) :
    readLines ((switchCases config fn i (label :: labels) behind).take window) false [] =
      readLines ((switchCases config fn i (label :: labels) behind).take window) true [] := by
  obtain _ | window := window
  · rfl
  · by_cases inside : Inside fn label
    · rw [switchCases_inside config i labels _ inside, List.take_succ_cons, readLines_caseLine,
        readLines_caseLine]
    · rw [switchCases_outside config i labels _ inside, List.take_succ_cons, readLines_caseLine,
        readLines_caseLine]

/-- The lines of the cases, and of the default behind them. -/
theorem readLines_switchCases_iff (config : RecompilerConfig) (fn : Function) (i : Nat)
    (labels : List Nat) (behind : List Line) (window : Nat) :
    readLines ((switchCases config fn i labels (defaultLine :: behind)).take window) false [] =
        labels ↔
      (∀ label ∈ labels, Readable fn label) ∧ 2 * labels.length ≤ window ∧
        Quiet ((defaultLine :: behind).take (window - 2 * labels.length)) := by
  induction labels generalizing i window with
  | nil => simp [switchCases, caseLines, readLines_iff]
  | cons label labels ih =>
      by_cases readable : Readable fn label
      · rw [switchCases_inside config i labels _ readable.1]
        obtain _ | _ | window := window
        · exact iff_of_false (by simp [readLines]) fun ⟨_, long, _⟩ => absurd long (by simp)
        · apply iff_of_false
          · simp [readLines_caseLine, readLines]
          · rintro ⟨_, long, _⟩
            rw [List.length_cons] at long
            omega
        rw [List.take_succ_cons, readLines_caseLine, List.take_succ_cons,
          readLines_gotoLine readable.2, readLines_append, List.nil_append, List.singleton_append,
          List.cons_inj_right, ih, List.forall_mem_cons, and_iff_right readable, List.length_cons]
        have shorter : window + 1 + 1 - 2 * (labels.length + 1) = window - 2 * labels.length := by
          omega
        have fits : 2 * (labels.length + 1) ≤ window + 1 + 1 ↔ 2 * labels.length ≤ window := by
          omega
        rw [shorter, fits]
      · apply iff_of_false
        · rw [readLines_switchCases]
          intro same
          obtain none | ⟨first, rest, found, other⟩ :=
            readLines_lost config fn i (label :: labels) behind window
          · rw [none] at same
            exact absurd same (List.cons_ne_nil _ _).symm
          · rw [found, List.cons.injEq] at same
            exact readable (same.1 ▸ other)
        · exact fun ⟨readables, _⟩ => readable (readables label List.mem_cons_self)

/-- A line with a parenthesis is none of a case. -/
theorem caseRe_eq_false_of_mem {line : Line} (parenthesis : '(' ∈ line) : caseRe line = false := by
  have skipped : '(' ∈ skipSpaces line := by
    have split := @List.takeWhile_append_dropWhile _ isSpace line
    rw [← split, List.mem_append] at parenthesis
    refine parenthesis.resolve_left fun front => ?_
    exact absurd (List.all_eq_true.mp List.all_takeWhile _ front) (by decide)
  rw [Bool.eq_false_iff]
  intro isCase
  obtain ⟨rest, matched, blank⟩ := (Option.any_eq_true _ _).mp isCase
  simp only [Option.bind_eq_bind, Option.bind_eq_some_iff] at matched
  obtain ⟨word, front, ⟨blanks, second⟩, spaces, ⟨digits, third⟩, number, last⟩ := matched
  change oneOrMore isDigit second = some (digits, third) at number
  change literal ":" third = some rest at last
  -- every character of the line is one of the pattern
  rw [eq_append_of_literal front, (eq_append_of_oneOrMore spaces).1,
    (eq_append_of_oneOrMore number).1, eq_append_of_literal last] at skipped
  simp only [List.mem_append] at skipped
  rcases skipped with text | space | digit | colon | behind
  · exact absurd text (by decide)
  · exact absurd ((eq_append_of_oneOrMore spaces).2 _ space) (by decide)
  · exact absurd ((eq_append_of_oneOrMore number).2 _ digit) (by decide)
  · exact absurd colon (by decide)
  · exact absurd (List.all_eq_true.mp blank _ behind) (by decide)

/-- No line of a hook starts a case, whatever the name of the hook is. -/
theorem caseRe_hookLines {emitter : Emitter} {base : Nat} {afterInstruction : Bool} {line : Line}
    (member : line ∈ hookLines emitter base afterInstruction) : caseRe line = false := by
  obtain ⟨hook, _, ⟨rest, rfl⟩ | ⟨start, among, rest, front⟩⟩ := hookLine_of_mem_hookLines member
  · exact caseRe_eq_false_of_mem (by simp)
  · have others : ['i', 'e', 'r', 'g', '\x7d'].all fun start => 'c' ≠ start := by decide
    exact caseRe_eq_false front (of_decide_eq_true (List.all_eq_true.mp others start among))

/-- While no case is pending, lines that start none are passed over. -/
theorem readLines_idle_append {front : List Line} (rest : List Line) (entries : List Nat)
    (noCase : ∀ line ∈ front, caseRe line = false) (window : Nat) :
    readLines ((front ++ rest).take window) false entries =
      readLines (rest.take (window - front.length)) false entries := by
  induction front generalizing window with
  | nil => rfl
  | cons line front ih =>
      obtain ⟨first, others⟩ := List.forall_mem_cons.mp noCase
      obtain _ | window := window
      · simp
      · rw [List.cons_append, List.take_succ_cons, readLines_idle _ _ first, ih others,
          List.length_cons, Nat.add_sub_add_right]

theorem quiet_append {front : List Line} (rest : List Line)
    (noCase : ∀ line ∈ front, caseRe line = false) (window : Nat) :
    Quiet ((front ++ rest).take window) ↔ Quiet (rest.take (window - front.length)) := by
  rw [← readLines_iff, ← readLines_iff, readLines_idle_append rest [] noCase]

/-- What ends a switch has no labels. -/
theorem noCase_ending : ∀ line ∈ [defaultLine, unreachableLine, closingLine],
    caseRe line = false := by
  intro line member
  simp only [List.mem_cons, List.not_mem_nil, or_false] at member
  rcases member with rfl | rfl | rfl
  · exact closes_defaultLine.noCase
  · exact @caseRe_eq_false _ _ '_' rfl (by decide)
  · exact @caseRe_eq_false _ _ '\x7d' rfl (by decide)

/-- Reading a `switch` gives its labels when each of them lies in the function and has eight
digits, when all of them are among the 260 lines from the comment on, and when what is left of these
lines has no label of a later `switch`. -/
theorem readSwitchEntries_iff (emitter : Emitter) (fn : Function) (base : Nat) (insn : Insn)
    (table : RecompilerSwitchTable) (before behind : List Line) :
    readSwitchEntries (before ++ bctrLines emitter fn base insn table behind) before.length =
        table.labels ↔
      (∀ label ∈ table.labels, Readable fn label) ∧
        (hookLines emitter base false).length + 2 * table.labels.length ≤ 258 ∧
          Quiet (behind.take (255 - 2 * table.labels.length -
            (hookLines emitter base false).length - (hookLines emitter base true).length)) := by
  have comment : caseRe bctrLine = false := @caseRe_eq_false _ _ '/' rfl (by decide)
  have opening : caseRe (emitter.config.switchLine table.r) = false :=
    @caseRe_eq_false _ _ 's' rfl (by decide)
  have front : ∀ line ∈ bctrLine :: (hookLines emitter base false ++
      [emitter.config.switchLine table.r]), caseRe line = false := by
    intro line member
    rw [List.mem_cons, List.mem_append, List.mem_singleton] at member
    rcases member with rfl | hooked | rfl
    · exact comment
    · exact caseRe_hookLines hooked
    · exact opening
  have ending : ∀ line ∈ [defaultLine, unreachableLine, closingLine] ++ hookLines emitter base true,
      caseRe line = false := by
    intro line member
    rcases List.mem_append.mp member with last | hooked
    · exact noCase_ending line last
    · exact caseRe_hookLines hooked
  have shape : bctrLines emitter fn base insn table behind =
      (bctrLine :: (hookLines emitter base false ++ [emitter.config.switchLine table.r])) ++
        switchCases emitter.config fn 0 table.labels (defaultLine :: unreachableLine ::
          closingLine :: (hookLines emitter base true ++ behind)) := by
    simp [bctrLines_eq]
  have tail : defaultLine :: unreachableLine :: closingLine ::
      (hookLines emitter base true ++ behind) =
        ([defaultLine, unreachableLine, closingLine] ++ hookLines emitter base true) ++ behind :=
    rfl
  have frontLength : (bctrLine :: (hookLines emitter base false ++
      [emitter.config.switchLine table.r])).length = (hookLines emitter base false).length + 2 := by
    simp
  have tailLength : ([defaultLine, unreachableLine, closingLine] ++
      hookLines emitter base true).length = (hookLines emitter base true).length + 3 := by
    rw [List.length_append, Nat.add_comm]
    rfl
  rw [readSwitchEntries, List.drop_left, shape, readLines_idle_append _ _ front,
    readLines_switchCases_iff, tail, quiet_append _ ending, frontLength, tailLength]
  have window : 260 - ((hookLines emitter base false).length + 2) - 2 * table.labels.length -
      ((hookLines emitter base true).length + 3) = 255 - 2 * table.labels.length -
        (hookLines emitter base false).length - (hookLines emitter base true).length := by
    omega
  have few := length_hookLines_le emitter base false
  have fits : 2 * table.labels.length ≤ 260 - ((hookLines emitter base false).length + 2) ↔
      (hookLines emitter base false).length + 2 * table.labels.length ≤ 258 := by
    omega
  rw [window, fits]

/-- A case that leaves the function. -/
theorem not_readSwitchEntries : ¬∀ (emitter : Emitter) (fn : Function) (base : Nat) (insn : Insn)
    (table : RecompilerSwitchTable) (before behind : List Line),
    readSwitchEntries (before ++ bctrLines emitter fn base insn table behind) before.length =
      table.labels := by
  intro every
  have same := every ⟨⟨fun _ => false, fun _ => none⟩, {}, .empty, fun _ => false⟩
    ⟨0x82000000, 0x100, []⟩ 0x82000010 ⟨some .bctr, 0x4E800420, []⟩ ⟨11, [0x82001000]⟩ [] []
  exact absurd same (by decide)

end UfcRecomp.Tools
