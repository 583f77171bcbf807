import Mathlib.Data.List.Range
import UfcRecomp.Lib.Loop
import UfcRecomp.Utils.Image

/-!
# Scanning for jump tables

`XenonAnalyse` looks for sequences of instructions in the code sections, word by word, and walks back
from each hit to the comparison that guards the jump. Neither the window behind a position nor the
walk in front of it looks at the bounds of the section.
-/

namespace UfcRecomp.Analyze

open UfcRecomp.Lib UfcRecomp.Ppc UfcRecomp.Utils

/-- A jump table; `labels` are of type `size_t`. -/
structure SwitchTable where
  labels : List Nat := []
  base : Nat := 0
  defaultLabel : Nat := 0
  r : Nat := 0
  type : Nat := 0

/-! ## The source -/

/-- `cr` before a conditional branch was found. -/
def noCr : Word := -1

/-- The conditional branches that guard a jump. -/
def isGuard (id : PpcInst) : Bool :=
  id = .bgt || id = .bgtlr || id = .ble || id = .blelr

section Source

variable (dis : Disassembler) (sec : Section)

/-- The instruction of `ScanTable` in a pass, `i` words in front of a position. -/
def guardInsn (position base i : Nat) : Insn :=
  dis.disassemble (sec.word (4 * ((position : Int) - i))) ((base + 2 ^ 64 - 4 * i) % 2 ^ 64)

/-- The passes of `ScanTable` from one on, and the positions of the words that they read. -/
def scanTableFrom (position base : Nat) : Nat → Nat → Word → SwitchTable → SwitchTable × List Int
  | 0, _, _, table => (table, [])
  | left + 1, i, cr, table =>
    let insn := guardInsn dis sec position base i
    let rest :=
      match insn.opcode with
      | none => scanTableFrom position base left (i + 1) cr table
      | some id =>
        if cr = noCr ∧ isGuard id then
          scanTableFrom position base left (i + 1) (insn.operand 0)
            (if 1 < insn.operands.length then
              { table with defaultLabel := (insn.operand 1).toNat } else table)
        else if cr ≠ noCr ∧ id = PpcInst.cmplwi ∧ insn.operand 0 = cr then
          ({ table with
              r := (insn.operand 1).toNat
              labels := List.replicate (insn.operand 2 + 1).toNat 0
              base := base }, [])
        else scanTableFrom position base left (i + 1) cr table
    (rest.1, ((position : Int) - i) :: rest.2)

/-- `ScanTable` at a position of the section. -/
def scanTable (position : Nat) (table : SwitchTable) : SwitchTable × List Int :=
  scanTableFrom dis sec position (sec.base + 4 * position) 32 0 noCr table

variable {ι : Type} [DecidableEq ι] (identify : Word → Option ι)

/-- The inner loop of `SearchMask`: whether the words from a position on have the identifiers, and
the positions of the words that it reads. -/
def matchWindow : Nat → List ι → Bool × List Int
  | _, [] => (true, [])
  | position, id :: rest =>
    if identify (sec.word (4 * (position : Int))) ≠ some id then (false, [(position : Int)])
    else
      let later := matchWindow (position + 1) rest
      (later.1, (position : Int) :: later.2)

/-- `SearchMask` from a position on, over a number of words. -/
def searchMask (compare : List ι) : Nat → Nat → Option Nat × List Int
  | _, 0 => (none, [])
  | position, count + 1 =>
    let window := matchWindow sec identify position compare
    if window.1 then (some position, window.2)
    else
      let later := searchMask compare (position + 1) count
      (later.1, window.2 ++ later.2)

/-- The number of words of a section. -/
def wordCount : Nat := sec.size / 4

/-- The state of the loop of `scanPattern`: where it is, unless at the null pointer, the hits so
far, and the positions of the words that were read. -/
structure Scan where
  data : Option Nat
  visited : List Nat := []
  reads : List Int := []

/-- A pass of the loop of `scanPattern`. -/
def scanStep (pattern : List ι) (scan : Scan) : Option Scan :=
  match scan.data with
  | none => none
  | some data =>
    if data < wordCount sec then
      let found := searchMask sec identify pattern data (wordCount sec - data)
      match found.1 with
      | none => some { scan with data := none, reads := scan.reads ++ found.2 }
      | some hit =>
        some {
          data := some (hit + 1)
          visited := scan.visited ++ [hit]
          reads := scan.reads ++ found.2 ++ (scanTable dis sec hit {}).2 }
    else none

end Source

/-! ## Windows -/

section Windows

variable {sec : Section} {ι : Type} [DecidableEq ι] {identify : Word → Option ι}

/-- The words from a position on have the identifiers of a pattern. -/
def Window (sec : Section) (identify : Word → Option ι) (pattern : List ι) (position : Nat) : Prop :=
  ∀ c < pattern.length, identify (sec.word (4 * ((position + c : Nat) : Int))) = pattern[c]?

/-- The words from a position to the end of the section have the first identifiers of a pattern that
is longer. -/
def Overhangs (sec : Section) (identify : Word → Option ι) (pattern : List ι) (position : Nat) :
    Prop :=
  wordCount sec < position + pattern.length ∧
    ∀ c, position + c < wordCount sec →
      identify (sec.word (4 * ((position + c : Nat) : Int))) = pattern[c]?

theorem matchWindow_iff (pattern : List ι) (position : Nat) :
    (matchWindow sec identify position pattern).1 = true ↔ Window sec identify pattern position := by
  induction pattern generalizing position with
  | nil => exact iff_of_true rfl nofun
  | cons id rest ih =>
      rw [matchWindow]
      split
      next different =>
        apply iff_of_false Bool.false_ne_true
        intro window
        exact different (window 0 (Nat.zero_lt_succ _))
      next same =>
        rw [not_not] at same
        dsimp only
        rw [ih]
        constructor
        · rintro later c below
          cases c with
          | zero => exact same
          | succ c =>
              have last := later c (Nat.lt_of_succ_lt_succ below)
              rwa [Nat.succ_add_eq_add_succ] at last
        · intro window c below
          have last := window (c + 1) (Nat.succ_lt_succ below)
          rwa [← Nat.succ_add_eq_add_succ] at last

/-- A window is read within the section unless the pattern overhangs it. -/
theorem matchWindow_inside_iff (pattern : List ι) {position : Nat}
    (start : position ≤ wordCount sec) :
    (∀ read ∈ (matchWindow sec identify position pattern).2, 0 ≤ read ∧ read < wordCount sec) ↔
      ¬Overhangs sec identify pattern position := by
  induction pattern generalizing position with
  | nil =>
      apply iff_of_true nofun
      rintro ⟨beyond, -⟩
      exact absurd beyond (Nat.not_lt.mpr start)
  | cons id rest ih =>
      by_cases inside : position < wordCount sec
      · have here : (0 : Int) ≤ position ∧ (position : Int) < wordCount sec := by omega
        rw [matchWindow]
        split
        next different =>
          rw [List.forall_mem_singleton]
          apply iff_of_true here
          rintro ⟨-, same⟩
          exact different (same 0 inside)
        next same =>
          rw [not_not] at same
          dsimp only
          rw [List.forall_mem_cons, and_iff_right here, ih inside, not_iff_not]
          constructor
          · rintro ⟨beyond, later⟩
            refine ⟨by rw [List.length_cons]; omega, ?_⟩
            intro c below
            cases c with
            | zero => exact same
            | succ c =>
                have last := later c (by omega)
                rwa [Nat.succ_add_eq_add_succ] at last
          · rintro ⟨beyond, all⟩
            refine ⟨by rw [List.length_cons] at beyond; omega, ?_⟩
            intro c below
            have last := all (c + 1) (by omega)
            rwa [← Nat.succ_add_eq_add_succ] at last
      · have atEnd : position = wordCount sec := Nat.le_antisymm start (Nat.not_lt.mp inside)
        apply iff_of_false
        · intro every
          have first : (position : Int) ∈ (matchWindow sec identify position (id :: rest)).2 := by
            rw [matchWindow]
            split
            · exact List.mem_singleton_self _
            · exact List.mem_cons_self
          have := (every _ first).2
          omega
        · rw [not_not]
          refine ⟨by rw [List.length_cons]; omega, ?_⟩
          intro c below
          omega

end Windows

/-! ## The walk back -/

section Guard

variable {dis : Disassembler} {sec : Section}

/-- The instruction in a pass is a guard. -/
def Guards (dis : Disassembler) (sec : Section) (position base i : Nat) : Prop :=
  ∃ id, (guardInsn dis sec position base i).opcode = some id ∧ isGuard id = true

/-- The instruction in a pass compares with a condition register. -/
def Compares (dis : Disassembler) (sec : Section) (position base : Nat) (cr : Word) (i : Nat) :
    Prop :=
  (guardInsn dis sec position base i).opcode = some .cmplwi ∧
    (guardInsn dis sec position base i).operand 0 = cr

/-- Going back from a position, the first conditional branch is followed by a comparison that sets
its condition register, some words in front of the position. -/
def GuardAt (dis : Disassembler) (sec : Section) (position distance : Nat) : Prop :=
  let base := sec.base + 4 * position
  ∃ branch < distance, Guards dis sec position base branch ∧
    (∀ i < branch, ¬Guards dis sec position base i) ∧
    Compares dis sec position base ((guardInsn dis sec position base branch).operand 0) distance

/-- A condition register is not the mark for none. -/
theorem cr_decode_ne (insn : Word) (memaddr : Nat) :
    PowerpcOperand.cr.decode insn memaddr ≠ noCr := by
  have bound : ((insn >>> 18) &&& 0x7).toNat ≤ 7 := by
    rw [BitVec.toNat_and]
    exact Nat.and_le_right
  have field : PowerpcOperand.cr.decode insn memaddr =
      BitVec.ofInt 32 (((insn >>> 18) &&& 0x7).toNat : Int) := by
    rw [PowerpcOperand.decode]
    exact congrArg (BitVec.ofInt 32) (Int.add_zero _)
  intro same
  have number : (BitVec.ofInt 32 (((insn >>> 18) &&& 0x7).toNat : Int)).toNat = 2 ^ 32 - 1 := by
    rw [← field, same]
    rfl
  rw [BitVec.toNat_ofInt] at number
  omega

/-- A conditional branch that guards a jump has a condition register as its first operand. -/
theorem operand_of_isGuard {insn : Word} {memaddr : Nat} {id : PpcInst}
    (opcode : (dis.disassemble insn memaddr).opcode = some id) (guard : isGuard id = true) :
    (dis.disassemble insn memaddr).operand 0 ≠ noCr := by
  have rows : (powerpcOpcodes.all fun row =>
      !isGuard row.id || decide (row.operands.head? = some .cr)) = true := by decide
  rw [Disassembler.disassemble] at opcode ⊢
  cases found : powerpcOpcodes.find? fun row => row.Matches insn with
  | none =>
      rw [found] at opcode
      dsimp only at opcode
      split at opcode
      · dsimp only at opcode
        split at opcode
        · cases opcode
          cases guard
        · cases opcode
      · split at opcode
        · cases opcode
          cases guard
        · cases opcode
  | some row =>
      rw [found] at opcode
      cases opcode
      have known := List.all_eq_true.mp rows row (List.mem_of_find?_eq_some found)
      rw [guard, Bool.not_true, Bool.false_or, decide_eq_true_eq] at known
      obtain ⟨rest, operands⟩ := List.head?_eq_some_iff.mp known
      dsimp only
      rw [operands]
      exact cr_decode_ne insn memaddr

variable {position base : Nat}

/-- A pass reads a word; behind it the walk ends, or goes on with the next word. -/
theorem reads_cases (left i : Nat) (cr : Word) (table : SwitchTable) :
    (cr ≠ noCr ∧ Compares dis sec position base cr i ∧
        (scanTableFrom dis sec position base (left + 1) i cr table).2 = [(position : Int) - i]) ∨
      (cr = noCr ∧ Guards dis sec position base i ∧ ∃ next,
        (scanTableFrom dis sec position base (left + 1) i cr table).2 = ((position : Int) - i) ::
          (scanTableFrom dis sec position base left (i + 1)
            ((guardInsn dis sec position base i).operand 0) next).2) ∨
      ((cr ≠ noCr → ¬Compares dis sec position base cr i) ∧
        (cr = noCr → ¬Guards dis sec position base i) ∧
        (scanTableFrom dis sec position base (left + 1) i cr table).2 = ((position : Int) - i) ::
          (scanTableFrom dis sec position base left (i + 1) cr table).2) := by
  rw [scanTableFrom]
  dsimp only
  cases opcode : (guardInsn dis sec position base i).opcode with
  | none =>
      refine .inr (.inr ⟨fun _ compares => ?_, fun _ guards => ?_, rfl⟩)
      · rw [Compares, opcode] at compares
        cases compares.1
      · obtain ⟨id, known, -⟩ := guards
        rw [opcode] at known
        cases known
  | some id =>
      dsimp only
      by_cases guard : cr = noCr ∧ isGuard id = true
      · rw [if_pos guard]
        exact .inr (.inl ⟨guard.1, ⟨id, opcode, guard.2⟩, _, rfl⟩)
      · rw [if_neg guard]
        by_cases compare : cr ≠ noCr ∧ id = .cmplwi ∧
            (guardInsn dis sec position base i).operand 0 = cr
        · rw [if_pos compare]
          obtain ⟨marked, rfl, same⟩ := compare
          exact .inl ⟨marked, ⟨opcode, same⟩, rfl⟩
        · rw [if_neg compare]
          refine .inr (.inr ⟨fun marked compares => ?_, fun unmarked guards => ?_, rfl⟩)
          · obtain ⟨known, same⟩ := compares
            rw [opcode] at known
            exact compare ⟨marked, Option.some.inj known, same⟩
          · obtain ⟨other, known, guards⟩ := guards
            rw [opcode] at known
            cases known
            exact guard ⟨unmarked, guards⟩

/-- Behind the branch, the walk stays in the section when the words last or the comparison comes. -/
theorem reads_of_marked {cr : Word} (marked : cr ≠ noCr) (left : Nat) {i : Nat}
    (start : i ≤ position + 1) (table : SwitchTable) :
    (∀ read ∈ (scanTableFrom dis sec position base left i cr table).2, 0 ≤ read) ↔
      i + left ≤ position + 1 ∨ ∃ distance, i ≤ distance ∧ distance ≤ position ∧
        distance < i + left ∧ Compares dis sec position base cr distance := by
  induction left generalizing i with
  | zero => exact iff_of_true nofun (.inl start)
  | succ left ih =>
      obtain ⟨-, compares, reads⟩ | ⟨unmarked, -⟩ | ⟨other, -, reads⟩ :=
        @reads_cases dis sec position base left i cr table
      · rw [reads, List.forall_mem_singleton]
        constructor
        · intro inside
          exact .inr ⟨i, Nat.le_refl i, by omega, by omega, compares⟩
        · rintro (enough | ⟨distance, above, below, -⟩)
          · omega
          · omega
      · exact absurd unmarked marked
      · rw [reads, List.forall_mem_cons]
        by_cases inside : i ≤ position
        · rw [and_iff_right (by omega), ih (by omega)]
          apply or_congr (by omega)
          constructor
          · rintro ⟨distance, above, below, few, compares⟩
            exact ⟨distance, by omega, below, by omega, compares⟩
          · rintro ⟨distance, above, below, few, compares⟩
            have apart : distance ≠ i := by
              rintro rfl
              exact other marked compares
            exact ⟨distance, by omega, below, by omega, compares⟩
        · apply iff_of_false
          · rintro ⟨low, -⟩
            omega
          · rintro (enough | ⟨distance, above, below, -⟩)
            · omega
            · omega

/-- In front of the branch, it has to come first. -/
theorem reads_of_unmarked (left : Nat) {i : Nat} (start : i ≤ position + 1) (table : SwitchTable) :
    (∀ read ∈ (scanTableFrom dis sec position base left i noCr table).2, 0 ≤ read) ↔
      i + left ≤ position + 1 ∨ ∃ branch distance, i ≤ branch ∧ branch < distance ∧
        distance ≤ position ∧ distance < i + left ∧ Guards dis sec position base branch ∧
        (∀ j, i ≤ j → j < branch → ¬Guards dis sec position base j) ∧
        Compares dis sec position base ((guardInsn dis sec position base branch).operand 0)
          distance := by
  induction left generalizing i table with
  | zero => exact iff_of_true nofun (.inl start)
  | succ left ih =>
      obtain ⟨marked, -⟩ | ⟨-, guards, next, reads⟩ | ⟨-, other, reads⟩ :=
        @reads_cases dis sec position base left i noCr table
      · exact absurd rfl marked
      · obtain ⟨id, opcode, guard⟩ := guards
        have marked : (guardInsn dis sec position base i).operand 0 ≠ noCr :=
          operand_of_isGuard opcode guard
        rw [reads, List.forall_mem_cons]
        by_cases inside : i ≤ position
        · rw [and_iff_right (by omega), reads_of_marked marked left (by omega)]
          apply or_congr (by omega)
          constructor
          · rintro ⟨distance, above, below, few, compares⟩
            exact ⟨i, distance, Nat.le_refl i, above, below, by omega, ⟨id, opcode, guard⟩,
              fun j low high => absurd high (Nat.not_lt.mpr low), compares⟩
          · rintro ⟨branch, distance, above, order, below, few, -, first, compares⟩
            have same : branch = i := by
              by_contra apart
              exact first i (Nat.le_refl i) (by omega) ⟨id, opcode, guard⟩
            subst same
            exact ⟨distance, order, below, by omega, compares⟩
        · apply iff_of_false
          · rintro ⟨low, -⟩
            omega
          · rintro (enough | ⟨branch, distance, above, order, below, -⟩)
            · omega
            · omega
      · rw [reads, List.forall_mem_cons]
        by_cases inside : i ≤ position
        · rw [and_iff_right (by omega), ih (by omega)]
          apply or_congr (by omega)
          constructor
          · rintro ⟨branch, distance, above, order, below, few, guards, first, compares⟩
            refine ⟨branch, distance, by omega, order, below, by omega, guards, ?_, compares⟩
            intro j low high
            by_cases here : j = i
            · rw [here]
              exact other rfl
            · exact first j (by omega) high
          · rintro ⟨branch, distance, above, order, below, few, guards, first, compares⟩
            have apart : branch ≠ i := by
              rintro rfl
              exact other rfl guards
            exact ⟨branch, distance, by omega, order, below, by omega, guards,
              fun j low high => first j (by omega) high, compares⟩
        · apply iff_of_false
          · rintro ⟨low, -⟩
            omega
          · rintro (enough | ⟨branch, distance, above, order, below, -⟩)
            · omega
            · omega

/-- The words that are read are not behind the position. -/
theorem le_of_mem_reads {left i : Nat} {cr : Word} {table : SwitchTable} {read : Int}
    (member : read ∈ (scanTableFrom dis sec position base left i cr table).2) :
    read ≤ position := by
  induction left generalizing i cr table with
  | zero => cases member
  | succ left ih =>
      obtain ⟨-, -, reads⟩ | ⟨-, -, next, reads⟩ | ⟨-, -, reads⟩ :=
        @reads_cases dis sec position base left i cr table
      · rw [reads, List.mem_singleton] at member
        omega
      · rw [reads, List.mem_cons] at member
        obtain rfl | later := member
        · omega
        · exact ih later
      · rw [reads, List.mem_cons] at member
        obtain rfl | later := member
        · omega
        · exact ih later

/-- `ScanTable` reads within the section when there are enough words in front of the position, or
the comparison is among them. -/
theorem scanTable_inside_iff {position : Nat} (start : position < wordCount sec)
    (table : SwitchTable) :
    (∀ read ∈ (scanTable dis sec position table).2, 0 ≤ read ∧ read < wordCount sec) ↔
      31 ≤ position ∨ ∃ distance ≤ position, GuardAt dis sec position distance := by
  have low : (∀ read ∈ (scanTable dis sec position table).2, 0 ≤ read ∧ read < wordCount sec) ↔
      ∀ read ∈ (scanTable dis sec position table).2, 0 ≤ read := by
    constructor
    · exact fun every read member => (every read member).1
    · intro every read member
      have high := le_of_mem_reads member
      exact ⟨every read member, by omega⟩
  rw [low, scanTable, reads_of_unmarked 32 (Nat.zero_le _)]
  constructor
  · rintro (enough | ⟨branch, distance, -, order, below, -, guards, first, compares⟩)
    · exact .inl (by omega)
    · exact .inr ⟨distance, below, branch, order, guards, fun i => first i (Nat.zero_le i), compares⟩
  · rintro (enough | ⟨distance, below, branch, order, guards, first, compares⟩)
    · exact .inl (by omega)
    · by_cases few : distance < 32
      · exact .inr ⟨branch, distance, Nat.zero_le _, order, below, by omega, guards,
          fun i _ => first i, compares⟩
      · exact .inl (by omega)

end Guard

/-! ## The scan -/

section Scans

variable {dis : Disassembler} {sec : Section} {ι : Type} [DecidableEq ι]
  {identify : Word → Option ι} {pattern : List ι}

/-- The words that are read for one position: those of its window, and from a hit those of the walk
back. -/
def positionReads (dis : Disassembler) (sec : Section) (identify : Word → Option ι)
    (pattern : List ι) (position : Nat) : List Int :=
  let window := matchWindow sec identify position pattern
  window.2 ++ if window.1 then (scanTable dis sec position {}).2 else []

/-- The hits among some positions. -/
def hits (sec : Section) (identify : Word → Option ι) (pattern : List ι) (start count : Nat) :
    List Nat :=
  (List.range' start count).filter fun position => (matchWindow sec identify position pattern).1

theorem hits_of_miss {start count : Nat}
    (miss : (matchWindow sec identify start pattern).1 = false) :
    hits sec identify pattern start (count + 1) = hits sec identify pattern (start + 1) count := by
  rw [hits, List.range'_succ, List.filter_cons]
  simp only [miss, Bool.false_eq_true, if_false]
  rfl

theorem hits_append (start few more : Nat) :
    hits sec identify pattern start (few + more) =
      hits sec identify pattern start few ++ hits sec identify pattern (start + few) more := by
  rw [hits, ← List.range'_append_1, List.filter_append]
  rfl

/-- A search answers with the first hit, and reads the windows up to there. -/
theorem searchMask_cases (start count : Nat) :
    ((searchMask sec identify pattern start count).1 = none ∧
        hits sec identify pattern start count = [] ∧
        (searchMask sec identify pattern start count).2 =
          (List.range' start count).flatMap (positionReads dis sec identify pattern)) ∨
      ∃ few < count, (searchMask sec identify pattern start count).1 = some (start + few) ∧
        hits sec identify pattern start (few + 1) = [start + few] ∧
        (searchMask sec identify pattern start count).2 ++ (scanTable dis sec (start + few) {}).2 =
          (List.range' start (few + 1)).flatMap (positionReads dis sec identify pattern) := by
  induction count generalizing start with
  | zero => exact .inl ⟨rfl, rfl, rfl⟩
  | succ count ih =>
      rw [searchMask]
      by_cases here : (matchWindow sec identify start pattern).1 = true
      · rw [if_pos here]
        refine .inr ⟨0, Nat.zero_lt_succ _, rfl, ?_, ?_⟩
        · simp [hits, here]
        · simp [positionReads, here]
      · rw [if_neg here]
        have none : (matchWindow sec identify start pattern).1 = false :=
          Bool.eq_false_iff.mpr here
        obtain ⟨missed, empty, reads⟩ | ⟨few, below, found, hit, reads⟩ := ih (start + 1)
        · refine .inl ⟨missed, ?_, ?_⟩
          · rw [hits_of_miss none]
            exact empty
          · rw [List.range'_succ, List.flatMap_cons, ← reads, positionReads]
            simp [none]
        · refine .inr ⟨few + 1, by omega, ?_, ?_, ?_⟩
          · rw [found, Nat.add_assoc, Nat.add_comm 1]
          · rw [hits_of_miss none, show start + (few + 1) = start + 1 + few by omega]
            exact hit
          · rw [List.range'_succ, List.flatMap_cons, ← reads, positionReads,
              show start + (few + 1) = start + 1 + few by omega]
            simp [none]

/-- From a position on, the scan ends; it visits the hits behind it, and reads the words of all
positions. -/
theorem exists_run_scanStep (count : Nat) {start : Nat} (visited : List Nat) (reads : List Int)
    (size : start + count = wordCount sec) :
    ∃ fuel last, Loop.run (scanStep dis sec identify pattern) fuel ⟨some start, visited, reads⟩ =
        some ⟨last, visited ++ hits sec identify pattern start count,
          reads ++ (List.range' start count).flatMap
            (positionReads dis sec identify pattern)⟩ := by
  induction count using Nat.strong_induction_on generalizing start visited reads with
  | _ count ih =>
      by_cases inside : start < wordCount sec
      · have rest : wordCount sec - start = count := by omega
        obtain ⟨missed, empty, read⟩ | ⟨few, below, found, hit, read⟩ :=
          @searchMask_cases dis sec _ _ identify pattern start count
        · have pass : scanStep dis sec identify pattern ⟨some start, visited, reads⟩ =
              some ⟨none, visited, reads ++ (List.range' start count).flatMap
                (positionReads dis sec identify pattern)⟩ := by
            rw [scanStep]
            simp only [if_pos inside, rest, missed, read]
          refine ⟨2, none, ?_⟩
          rw [Loop.run, pass, empty, List.append_nil]
          rfl
        · have pass : scanStep dis sec identify pattern ⟨some start, visited, reads⟩ =
              some ⟨some (start + few + 1), visited ++ [start + few],
                reads ++ (List.range' start (few + 1)).flatMap
                  (positionReads dis sec identify pattern)⟩ := by
            rw [scanStep]
            simp only [if_pos inside, rest, found, List.append_assoc, read]
          obtain ⟨fuel, last, completed⟩ := ih (count - (few + 1)) (by omega)
            (visited ++ [start + few]) (reads ++ (List.range' start (few + 1)).flatMap
              (positionReads dis sec identify pattern)) (by omega : start + few + 1 + _ = _)
          obtain ⟨more, rfl⟩ := Nat.exists_eq_add_of_le (Nat.succ_le_of_lt below)
          rw [Nat.succ_eq_add_one, Nat.add_sub_cancel_left] at completed
          refine ⟨fuel + 1, last, ?_⟩
          rw [Loop.run, pass]
          dsimp only
          rw [completed, Nat.succ_eq_add_one, hits_append, hit,
            ← @List.range'_append_1 start (few + 1) more, List.flatMap_append, List.append_assoc, List.append_assoc, Nat.add_assoc start]
      · have none : count = 0 := by omega
        subst none
        refine ⟨1, some start, ?_⟩
        rw [Loop.run, scanStep]
        simp only [if_neg inside, hits, List.range'_zero, List.filter_nil, List.flatMap_nil,
          List.append_nil]

/-- The scan of a section ends, visits in increasing order the positions where the pattern is, and
reads no word outside of the section. -/
def Scans (dis : Disassembler) (sec : Section) (identify : Word → Option ι) (pattern : List ι) :
    Prop :=
  ∃ fuel last, Loop.run (scanStep dis sec identify pattern) fuel { data := some 0 } = some last ∧
    last.visited.Pairwise (· < ·) ∧
    (∀ position, position ∈ last.visited ↔ position < wordCount sec ∧
      position + pattern.length ≤ wordCount sec ∧ Window sec identify pattern position) ∧
    ∀ read ∈ last.reads, 0 ≤ read ∧ read < wordCount sec

/-- What is read for a position is in the section. -/
theorem positionReads_inside_iff {position : Nat} (start : position < wordCount sec) :
    (∀ read ∈ positionReads dis sec identify pattern position, 0 ≤ read ∧ read < wordCount sec) ↔
      ¬Overhangs sec identify pattern position ∧ (Window sec identify pattern position →
        31 ≤ position ∨ ∃ distance ≤ position, GuardAt dis sec position distance) := by
  simp only [positionReads, List.forall_mem_append]
  apply and_congr (matchWindow_inside_iff pattern (Nat.le_of_lt start))
  by_cases window : Window sec identify pattern position
  · rw [if_pos ((matchWindow_iff pattern position).mpr window), scanTable_inside_iff start]
    exact ⟨fun holds _ => holds, fun holds => holds window⟩
  · rw [if_neg fun hit => window ((matchWindow_iff pattern position).mp hit)]
    exact iff_of_true nofun fun holds => absurd holds window

/-- The scan reads the words of all positions. -/
theorem inside_of_scans (scans : Scans dis sec identify pattern) {position : Nat}
    (start : position < wordCount sec) :
    ∀ read ∈ positionReads dis sec identify pattern position, 0 ≤ read ∧ read < wordCount sec := by
  obtain ⟨otherFuel, other, otherCompleted, -, -, inside⟩ := scans
  obtain ⟨fuel, last, completed⟩ := @exists_run_scanStep dis sec _ _ identify pattern
    (wordCount sec) 0 [] [] (Nat.zero_add _)
  obtain rfl := Loop.run_deterministic otherCompleted completed
  intro read member
  apply inside
  apply List.mem_append_right
  rw [← List.range_eq_range']
  exact List.mem_flatMap.mpr ⟨position, List.mem_range.mpr start, member⟩

/-- That is so if and only if the pattern does not overhang the end of the section anywhere, and
every hit has the comparison of its guard, or 31 words of the section, in front of it. -/
theorem scans_iff {ι : Type} [DecidableEq ι] (dis : Disassembler) (sec : Section)
    (identify : Word → Option ι) (pattern : List ι) :
    Scans dis sec identify pattern ↔ ∀ position < wordCount sec,
      ¬Overhangs sec identify pattern position ∧ (Window sec identify pattern position →
        31 ≤ position ∨ ∃ distance ≤ position, GuardAt dis sec position distance) := by
  constructor
  · intro scans position start
    exact (positionReads_inside_iff start).mp (inside_of_scans scans start)
  · intro bounded
    obtain ⟨fuel, last, completed⟩ := @exists_run_scanStep dis sec _ _ identify pattern
      (wordCount sec) 0 [] [] (Nat.zero_add _)
    rw [List.nil_append, List.nil_append, ← List.range_eq_range'] at completed
    refine ⟨fuel, _, completed, ?_, ?_, ?_⟩
    · exact (List.pairwise_lt_range' 1 (by decide)).filter _
    · intro position
      rw [hits, List.mem_filter, ← List.range_eq_range', List.mem_range, matchWindow_iff]
      apply and_congr_right
      intro start
      constructor
      · intro window
        refine ⟨?_, window⟩
        by_contra beyond
        apply (bounded position start).1
        refine ⟨Nat.lt_of_not_le beyond, fun c below => window c ?_⟩
        omega
      · exact And.right
    · intro read member
      obtain ⟨position, start, here⟩ := List.mem_flatMap.mp member
      have inside := List.mem_range.mp start
      exact (positionReads_inside_iff inside).mpr (bounded position inside) read here

/-- A section that ends with the first instruction of a pattern. -/
theorem not_scans : ¬∀ (dis : Disassembler) (sec : Section) (pattern : List PpcInst),
    sec.size % 4 = 0 →
      Scans dis sec (fun word => (dis.disassemble word 0).opcode) pattern := by
  intro every
  have scans := every ⟨fun _ => false, fun _ => none⟩
    (.ofAddress ".text" 0x82000000 4 sectionFlagsCode fun offset => if offset = 0 then 0x3C else 0)
    [.lis, .addi] (by decide)
  have inside := inside_of_scans scans (show 0 < _ by decide)
  have beyond := inside 1 (by decide)
  revert beyond
  decide

end Scans

end UfcRecomp.Analyze
