import UfcRecomp.Recompiler.GuestProgram
import UfcRecomp.Recompiler.Labels

/-!
# Lines of a body

Where the statements of a word stand in the body of its function, and where the label of a word is.
-/

namespace UfcRecomp.Recompiler

open UfcRecomp.Ppc UfcRecomp.Utils UfcRecomp.Analyze UfcRecomp.Lib

namespace Emitter

variable (emitter : Emitter) (fn : Function) (code : Int → Word)

/-- The lines that are printed for a word. -/
def wordLines (i : Nat) : TaggedBody :=
  (emitter.printedLabel fn code i ++ emitter.printedInsn fn code i).map fun statement =>
    (emitter.insn fn code i, statement)

/-- Where the lines of a word start. -/
def lineOf (i : Nat) : Nat := startOf (emitter.wordLines fn code) i

/-- The statements of an instruction stand behind each other, up to a line. -/
structure LinesAt (body : TaggedBody) (insn : Insn) (first last : Nat)
    (statements : List Statement) : Prop where
  line (j : Nat) (inside : j < statements.length) :
    body[first + j]? = some (insn, statements[j])
  last : last = first + statements.length

variable {emitter fn code}

theorem taggedBody_eq :
    emitter.taggedBody fn code = blocks (emitter.wordLines fn code) (words fn) :=
  rfl

/-- The lines of a word. -/
theorem linesAt_word {i : Nat} (inside : i < words fn) :
    LinesAt (emitter.taggedBody fn code) (emitter.insn fn code i) (emitter.lineOf fn code i)
      (emitter.lineOf fn code (i + 1))
      (emitter.printedLabel fn code i ++ emitter.printedInsn fn code i) where
  line j bound := by
    have length : j < (emitter.wordLines fn code i).length := by
      rw [wordLines, List.length_map]
      exact bound
    rw [taggedBody_eq, lineOf, getElem?_blocks inside length, List.getElem?_eq_getElem length]
    simp only [wordLines, List.getElem_map]
  last := by
    rw [lineOf, startOf_succ, wordLines, List.length_map]
    rfl

/-- The label of a word is where its lines start. -/
theorem labelPosition_word {i : Nat} (inside : i < words fn)
    (labelled : fn.base + 4 * i ∈ emitter.labels fn code) :
    labelPosition (emitter.taggedBody fn code) (fn.base + 4 * i) =
      some (emitter.lineOf fn code i) := by
  have starts : emitter.wordLines fn code i =
      (emitter.insn fn code i, .label (fn.base + 4 * i)) ::
        (emitter.printedInsn fn code i).map fun statement =>
          (emitter.insn fn code i, statement) := by
    rw [wordLines, printedLabel, if_pos labelled]
    rfl
  rw [labelPosition, taggedBody_eq]
  refine findIdx?_blocks inside starts (by simp) ?_
  -- Words in front have other labels, and their statements are none.
  intro j less line member
  obtain ⟨statement, printed, rfl⟩ := List.mem_map.mp member
  rw [decide_eq_false_iff_not]
  rintro rfl
  rcases List.mem_append.mp printed with label | insn
  · rw [printedLabel] at label
    split_ifs at label
    · have same : fn.base + 4 * i = fn.base + 4 * j := by simpa using label
      omega
    · cases label
  · have notLabel := not_label_of_printedInsn insn
    cases notLabel

end Emitter

end UfcRecomp.Recompiler
