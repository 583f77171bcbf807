import UfcRecomp.Analyze.Taken
import UfcRecomp.Analyze.Termination

/-!
# Where the analysis reads

The loop tests its pointer against the end with `<=`, so that control that comes to the end of the
buffer reads the word there. It comes there with a block that starts there, or because it goes on
behind the last word; it comes in front of the code with a block that starts there.
-/

namespace UfcRecomp.Analyze

open UfcRecomp.Ppc UfcRecomp.Lib UfcRecomp.Lib.Worklist

variable {dis : Disassembler} {buffer : CodeBuffer}

/-- The words that the analysis reads: the second one, then the next word of every pass. -/
inductive CodeBuffer.Reads (dis : Disassembler) (buffer : CodeBuffer) : Int → Prop where
  | second : Reads dis buffer 1
  | pass {state next} (loops : buffer.code 1 ≠ 0x48000004)
      (visits : Loop.Visits (buffer.analyzeStep dis) {} state)
      (step : buffer.analyzeStep dis state = some next) : Reads dis buffer state.data

namespace CodeBuffer

/-- The walk comes to a block without words. -/
def Enters (dis : Disassembler) (buffer : CodeBuffer) (position : Int) : Prop :=
  ∃ work block rest, buffer.Walks dis work ∧ work.pending = block :: rest ∧ block.words = 0 ∧
    block.position = position ∧ position ≤ buffer.last

/-- The walk enters no block in front of the code or at its end, and control does not go on behind
the last word. -/
structure KeepsInside (dis : Disassembler) (buffer : CodeBuffer) : Prop where
  entered : ∀ position, buffer.Enters dis position → 0 ≤ position ∧ position ≠ buffer.last
  ends : buffer.Takes dis (buffer.last - 1) → flow dis (buffer.code (buffer.last - 1)) ≠ .next

namespace Walks

variable {work : Work Block}

/-- The passes read the words that the walk comes to. -/
theorem reads (walks : buffer.Walks dis work) (loops : buffer.code 1 ≠ 0x48000004) {block : Block}
    {rest : List Block} (pending : work.pending = block :: rest)
    (inRange : block.here ≤ buffer.last) : buffer.Reads dis block.here := by
  obtain ⟨state, visits, tracks⟩ := loop_follows.visits .initial walks
  have stack := tracks.pending
  rw [pending] at stack
  cases isStack : state.blockStack with
  | nil => simp [isStack] at stack
  | cons top below =>
      obtain ⟨isFront, here⟩ := tracks.front isStack
      obtain ⟨rfl, -⟩ := List.cons.inj (pending.symm.trans isFront)
      rw [here] at inRange ⊢
      obtain ⟨next, step⟩ : ∃ next, buffer.analyzeStep dis state = some next := by
        rw [CodeBuffer.analyzeStep, if_pos (CodeBuffer.inRange_iff.mpr inRange), isStack]
        exact ⟨_, rfl⟩
      exact .pass loops visits step

/-- The walk comes to the word that a pass reads. -/
theorem of_step {state next : AnalyzeState} (visits : Loop.Visits (buffer.analyzeStep dis) {} state)
    (step : buffer.analyzeStep dis state = some next) : ∃ work block rest,
      buffer.Walks dis work ∧ work.pending = block :: rest ∧ block.here = state.data ∧
        state.data ≤ buffer.last := by
  obtain ⟨work, walks, tracks⟩ := walk_follows.visits .initial visits
  rw [CodeBuffer.analyzeStep] at step
  split_ifs at step with inRange
  cases stack : state.blockStack with
  | nil => simp [stack] at step
  | cons top below =>
      obtain ⟨pending, here⟩ := tracks.front stack
      exact ⟨work, _, _, walks, pending, here, CodeBuffer.inRange_iff.mp inRange⟩

/-- A block with words was entered. -/
theorem entered (walks : buffer.Walks dis work) :
    ∀ block ∈ work.items, 0 < block.words → buffer.Enters dis block.position := by
  induction walks with
  | refl =>
      intro block member some
      obtain rfl := List.mem_singleton.mp member
      cases some
  | tail walks goes ih =>
      intro block member some
      rcases mem_of_turn walks goes member with old | ⟨front, rest, here, rfl | new⟩
      · exact ih block old some
      · rw [Block.close_position, Block.grow_position]
        by_cases fresh : front.words = 0
        · refine ⟨_, front, rest, here.walks, here.pending, fresh, rfl, ?_⟩
          have inRange := here.inRange
          unfold Block.here at inRange
          omega
        · have words := front.words_nonneg
          exact ih front here.member (by omega)
      · rw [Block.words, (here.opened_start rfl new).1] at some
        cases some

end Walks

/-- The walk then comes only to words of the buffer. -/
theorem KeepsInside.inside (keeps : buffer.KeepsInside dis) {work : Work Block}
    (walks : buffer.Walks dis work) {block : Block} {rest : List Block}
    (pending : work.pending = block :: rest) (inRange : block.here ≤ buffer.last) :
    0 ≤ block.here ∧ block.here ≠ buffer.last := by
  have member : block ∈ work.items := (Work.items_perm pending).mem_iff.mpr List.mem_cons_self
  have words := block.words_nonneg
  by_cases fresh : block.words = 0
  · have isStart : block.here = block.position := by
      unfold Block.here
      omega
    rw [isStart] at inRange ⊢
    exact keeps.entered _ ⟨work, block, rest, walks, pending, fresh, rfl, inRange⟩
  · have start := (keeps.entered _ (CodeBuffer.Walks.entered walks block member (by omega))).1
    have laid : Laid dis buffer work := .of_walks walks
    unfold Block.here at inRange ⊢
    refine ⟨by omega, fun isLast => keeps.ends ?_ ?_⟩
    · exact laid.taken block member start _ (by omega) (by omega)
    · exact laid.running block (by rw [pending]; exact List.mem_cons_self) _ (by omega) (by omega)

end CodeBuffer

/-- Control stays in the loop and behind it. -/
private theorem loopBuffer_reach {position : Int} (reach : loopBuffer.Reach everyWord position) :
    position = 0 ∧ flow everyWord (loopBuffer.code position) = .branch 8 ∨
      position = 1 ∧ flow everyWord (loopBuffer.code position) = .next ∨
      position = 2 ∧ flow everyWord (loopBuffer.code position) = .branch (-8) ∨
      position = 3 ∧ flow everyWord (loopBuffer.code position) = .stop := by
  have first : flow everyWord 0x41820008 = .branch 8 := by decide
  have second : flow everyWord 0x38630001 = .next := by decide
  have third : flow everyWord 0x4082FFF8 = .branch (-8) := by decide
  have fourth : flow everyWord 0x4E800020 = .stop := by decide
  induction reach with
  | start => exact .inl ⟨rfl, first⟩
  | @step position next _ _ succ ih =>
      have landed : next = 0 ∨ next = 1 ∨ next = 2 ∨ next = 3 := by
        rcases ih with ⟨rfl, here⟩ | ⟨rfl, here⟩ | ⟨rfl, here⟩ | ⟨rfl, here⟩ <;>
          simp only [CodeBuffer.Succ, here] at succ <;> omega
      rcases landed with rfl | rfl | rfl | rfl
      · exact .inl ⟨rfl, first⟩
      · exact .inr (.inl ⟨rfl, second⟩)
      · exact .inr (.inr (.inl ⟨rfl, third⟩))
      · exact .inr (.inr (.inr ⟨rfl, fourth⟩))

/-- Two nops in front of the end of the buffer. -/
def shortBuffer : CodeBuffer where
  code _ := 0x60000000
  size := 8
  base := 0x82000000
  fits := twoWords_fits

end UfcRecomp.Analyze
