import UfcRecomp.Analyze.Taken
import UfcRecomp.Analyze.Termination

/-!
# The analysis finds the words that control comes to

When control stays in the buffer, the walk takes exactly the words that control comes to without a
hidden one in between. A hidden word stands behind a conditional branch to it, and no other block
has it when the branch is taken.
-/

namespace UfcRecomp.Analyze

open UfcRecomp.Ppc UfcRecomp.Lib UfcRecomp.Lib.Worklist

variable {dis : Disassembler} {buffer : CodeBuffer}

/-- The words that control can come to from word 0 without a hidden one. -/
inductive CodeBuffer.Avoids (dis : Disassembler) (buffer : CodeBuffer) : Int → Prop where
  | start : Avoids dis buffer 0
  | step {position next} (prior : Avoids dis buffer position)
      (inRange : 4 * position ≤ buffer.size) (succ : buffer.Succ dis position next)
      (shown : ¬buffer.Hidden dis next) : Avoids dis buffer next

theorem CodeBuffer.Avoids.reach {position : Int} (avoids : buffer.Avoids dis position) :
    buffer.Reach dis position := by
  induction avoids with
  | start => exact .start
  | step _ inRange succ _ ih => exact ih.step inRange succ

/-- Branches of a function stay in the buffer or are tail calls, and no path runs past its end. -/
structure CodeBuffer.StaysInside (dis : Disassembler) (buffer : CodeBuffer) : Prop where
  branches : ∀ position displacement, buffer.Reach dis position →
    flow dis (buffer.code position) = .branch displacement →
      0 ≤ 4 * position + displacement ∧ 4 * position + displacement < buffer.size
  jumps : ∀ position displacement, buffer.Reach dis position →
    flow dis (buffer.code position) = .jump displacement →
      (0 ≤ 4 * position + displacement ∧ 4 * position + displacement < buffer.size) ∨
        sizeT (buffer.base + 4 * position + displacement) < buffer.base
  ends : ∀ position, buffer.Reach dis position → 4 * position < buffer.size

namespace CodeBuffer.StaysInside

/-- Control then comes only to words of the buffer. -/
theorem inside (stays : buffer.StaysInside dis) {position : Int}
    (reach : buffer.Reach dis position) : 0 ≤ position ∧ 4 * position < buffer.size := by
  refine ⟨?_, stays.ends position reach⟩
  induction reach with
  | start => exact Int.le_refl 0
  | @step position next prior inRange succ ih =>
      unfold CodeBuffer.Succ at succ
      cases flows : flow dis (buffer.code position) with
      | next => simp only [flows] at succ; omega
      | conditionalReturn => simp only [flows] at succ; omega
      | stop => simp [flows] at succ
      | branch displacement =>
          have target := stays.branches position displacement prior flows
          simp only [flows] at succ
          omega
      | jump displacement =>
          have target := stays.jumps position displacement prior flows
          simp only [flows] at succ
          omega

/-- The analysis of such a function returns. -/
theorem returns (stays : buffer.StaysInside dis) (sorter : Sorted.Sorter Block.base) :
    ∃ fuel fn, buffer.analyze dis sorter fuel = some fn :=
  analyze_of_terminates sorter (terminates_of_acc fun _ reach =>
    acc_of_nonneg (fun _ reach => (stays.inside reach).1) reach)

/-- The word behind one that control comes to. -/
theorem next_inside (stays : buffer.StaysInside dis) {position next : Int}
    (reach : buffer.Reach dis position) (succ : buffer.Succ dis position next) :
    buffer.Reach dis next ∧ 0 ≤ next ∧ 4 * next < buffer.size := by
  have here := stays.inside reach
  have there := reach.step (by omega) succ
  exact ⟨there, stays.inside there⟩

end CodeBuffer.StaysInside

/-- Control comes to the words of a block without a hidden one. -/
structure Block.Avoids (dis : Disassembler) (buffer : CodeBuffer) (block : Block) : Prop where
  entry : block.position = 0 ∨
    ∃ prior, buffer.Avoids dis prior ∧ buffer.Succ dis prior block.position
  words : ∀ position, block.position ≤ position → position < block.position + block.words →
    buffer.Avoids dis position

theorem Block.Avoids.reach (stays : buffer.StaysInside dis) {block : Block}
    (avoids : block.Avoids dis buffer) : buffer.Reach dis block.position := by
  rcases avoids.entry with start | ⟨prior, before, succ⟩
  · exact start ▸ .start
  · exact (stays.next_inside before.reach succ).1

namespace AtWord

variable {work : Work Block} {block : Block} {rest : List Block}

/-- The next word of a block is not hidden when it is taken. -/
theorem avoids (here : AtWord dis buffer work block rest) {last : Work Block}
    (ended : Ended dis buffer last) (stays : buffer.StaysInside dis)
    (avoids : block.Avoids dis buffer) : buffer.Avoids dis block.here := by
  have nonneg := (stays.inside (avoids.reach stays)).1
  have words := block.words_nonneg
  have shown : ¬buffer.Hidden dis block.here := fun hidden =>
    ended.not_takes_of_hidden (by unfold Block.here; omega) hidden (here.takes nonneg)
  by_cases fresh : block.words = 0
  · have isStart : block.here = block.position := by
      unfold Block.here
      omega
    rw [isStart] at shown ⊢
    rcases avoids.entry with start | ⟨prior, before, succ⟩
    · exact start ▸ .start
    · have inside := stays.inside before.reach
      exact before.step (by omega) succ shown
  · have before := avoids.words (block.here - 1) (by unfold Block.here; omega)
      (by unfold Block.here; omega)
    have inside := stays.inside before.reach
    refine before.step (by omega) ?_ shown
    have flows := here.laid.running block (by rw [here.pending]; exact List.mem_cons_self)
      (block.here - 1) (by unfold Block.here; omega) (by unfold Block.here; omega)
    simp [CodeBuffer.Succ, flows]

end AtWord

namespace Ended

variable {last : Work Block}

/-- Control comes to the words of every block without a hidden one. -/
theorem block_avoids (ended : Ended dis buffer last) (stays : buffer.StaysInside dis)
    {work : Work Block} (walks : buffer.Walks dis work) :
    ∀ block ∈ work.items, block.Avoids dis buffer := by
  induction walks with
  | refl =>
      intro block member
      obtain rfl := List.mem_singleton.mp member
      refine ⟨.inl rfl, fun position low high => ?_⟩
      change position < 0 + 0 at high
      change 0 ≤ position at low
      omega
  | @tail work next walks goes ih =>
      intro block member
      rcases mem_of_turn walks goes member with old | ⟨front, rest, here, taken⟩
      · exact ih block old
      have frontAvoids := ih front here.member
      have avoids := here.avoids ended stays frontAvoids
      rcases taken with rfl | new
      · refine ⟨?_, fun position low high => ?_⟩
        · rw [Block.close_position, Block.grow_position]
          exact frontAvoids.entry
        · rw [Block.close_position, Block.grow_position] at low high
          rw [Block.close_words, here.grow_words] at high
          by_cases isLast : position = front.here
          · exact isLast ▸ avoids
          · unfold Block.here at isLast
            exact frontAvoids.words position low (by omega)
      · obtain ⟨empty, -, after, succ, -, start⟩ := here.opened_start rfl new
        have inside := (stays.next_inside avoids.reach succ).2
        obtain rfl := start.resolve_right (by omega)
        refine ⟨.inr ⟨_, avoids, succ⟩, fun position low high => ?_⟩
        rw [Block.words, empty] at high
        omega

/-- No block is pending at the end. -/
theorem pending_eq_nil (ended : Ended dis buffer last) (stays : buffer.StaysInside dis) :
    last.pending = [] := by
  cases pending : last.pending with
  | nil => rfl
  | cons block rest =>
      have member : block ∈ last.items := (Work.items_perm pending).mem_iff.mpr List.mem_cons_self
      have avoids := ended.block_avoids stays ended.walks block member
      have far := CodeBuffer.walk_eq_none_iff.mp ended.ends block (by rw [pending]; rfl)
      have words := block.words_nonneg
      by_cases fresh : block.words = 0
      · have inside := stays.inside (avoids.reach stays)
        unfold Block.here CodeBuffer.last at far
        omega
      · have before := avoids.words (block.here - 1) (by unfold Block.here; omega)
          (by unfold Block.here; omega)
        have flows := ended.laid.running block (by rw [pending]; exact List.mem_cons_self)
          (block.here - 1) (by unfold Block.here; omega) (by unfold Block.here; omega)
        have inside := (@CodeBuffer.StaysInside.next_inside _ _ stays _ block.here before.reach
          (by simp [CodeBuffer.Succ, flows])).2
        unfold CodeBuffer.last at far
        omega

theorem not_abandoned (stays : buffer.StaysInside dis) {position : Int} :
    ¬buffer.Abandoned dis position := by
  rintro ⟨work, walks, ends, block, pending, -⟩
  rw [pending_eq_nil ⟨walks, ends⟩ stays] at pending
  cases pending

/-- The walk takes the words that control comes to without a hidden one. -/
theorem takes_iff_avoids (ended : Ended dis buffer last) (stays : buffer.StaysInside dis)
    (above : buffer.size < buffer.base) {position : Int} :
    buffer.Takes dis position ↔ buffer.Avoids dis position := by
  have nonneg : ∀ block ∈ last.items, 0 ≤ block.position := fun block member =>
    (stays.inside ((ended.block_avoids stays ended.walks block member).reach stays)).1
  have taken : ∀ next, ¬buffer.Hidden dis next → Found buffer last.items next →
      buffer.Takes dis next := by
    rintro next shown ⟨block, member, -, covers⟩
    rcases ended.settled member (nonneg block member) covers with takes | hidden | abandoned
    · exact takes
    · exact absurd hidden shown
    · exact absurd abandoned (not_abandoned stays)
  constructor
  · intro takes
    obtain ⟨block, member, -, low, high⟩ := ended.covers_taken takes
    exact (ended.block_avoids stays ended.walks block member).words position low high
  · intro avoids
    induction avoids with
    | start =>
        have bounds := buffer.last_bounds
        exact ⟨firstBlock, {}, [], .refl, rfl, Int.le_refl 0, rfl, bounds.1, by
          simp [Block.Reached]⟩
    | @step position next prior _ succ shown ih =>
        have there := (stays.next_inside prior.reach succ).2
        have inside : next ≤ buffer.last := CodeBuffer.inRange_iff.mp (by omega)
        have here := (stays.inside prior.reach).1
        by_cases flows : flow dis (buffer.code position) = .next
        · obtain rfl : next = position + 1 := by simpa [CodeBuffer.Succ, flows] using succ
          refine (ended.takes_next_iff here ih (by rw [flows]; rfl) ?_).mpr ?_
          · rintro ⟨returns, -⟩
            rw [flows] at returns
            cases returns
          · rintro (behind | hidden | abandoned)
            · omega
            · exact shown hidden
            · exact not_abandoned stays abandoned
        · obtain ⟨work, block, rest, walks, pending, -, rfl, inRange, running⟩ := ih
          refine taken next shown (ended.found_succ ⟨walks, .of_walks walks, pending, inRange,
            running⟩ rfl flows (fun returns => ?_) succ there.1 inside)
          -- an offset in the buffer is below the base
          obtain rfl : next = block.here + 1 := by simpa [CodeBuffer.Succ, returns] using succ
          refine searchBlock_below ?_
          unfold sizeT
          omega

end Ended

/-! ## The size of a function -/

/-- A function that jumps over a conditional branch to the next word and comes back to it. -/
def skipBuffer : CodeBuffer where
  code position :=
    if position = 0 then 0x48000008
    else if position = 1 then 0x41820004
    else if position = 2 then 0x4182FFFC
    else 0x4E800020
  size := 16
  base := 0x82000000
  fits := fourWords_fits

/-- The words that control comes to, by where control goes from them. -/
private theorem skipBuffer_reach {position : Int}
    (reach : skipBuffer.Reach everyWord position) :
    position = 0 ∧ flow everyWord (skipBuffer.code position) = .jump 8 ∨
      position = 1 ∧ flow everyWord (skipBuffer.code position) = .branch 4 ∨
      position = 2 ∧ flow everyWord (skipBuffer.code position) = .branch (-4) ∨
      position = 3 ∧ flow everyWord (skipBuffer.code position) = .stop := by
  have first : flow everyWord 0x48000008 = .jump 8 := by decide
  have second : flow everyWord 0x41820004 = .branch 4 := by decide
  have third : flow everyWord 0x4182FFFC = .branch (-4) := by decide
  have fourth : flow everyWord 0x4E800020 = .stop := by decide
  induction reach with
  | start => exact .inl ⟨rfl, first⟩
  | @step position next _ _ succ ih =>
      have landed : next = 1 ∨ next = 2 ∨ next = 3 := by
        rcases ih with ⟨rfl, here⟩ | ⟨rfl, here⟩ | ⟨rfl, here⟩ | ⟨rfl, here⟩ <;>
          simp only [CodeBuffer.Succ, here] at succ <;> omega
      rcases landed with rfl | rfl | rfl
      · exact .inr (.inl ⟨rfl, second⟩)
      · exact .inr (.inr (.inl ⟨rfl, third⟩))
      · exact .inr (.inr (.inr ⟨rfl, fourth⟩))

private theorem skipBuffer_stays : skipBuffer.StaysInside everyWord := by
  have size : skipBuffer.size = 16 := rfl
  refine ⟨fun position displacement reach flows => ?_, fun position displacement reach flows => ?_,
    fun position reach => ?_⟩
  · rcases skipBuffer_reach reach with ⟨rfl, here⟩ | ⟨rfl, here⟩ | ⟨rfl, here⟩ | ⟨rfl, here⟩ <;>
      simp only [here, Flow.branch.injEq, reduceCtorEq] at flows <;> omega
  · rcases skipBuffer_reach reach with ⟨rfl, here⟩ | ⟨rfl, here⟩ | ⟨rfl, here⟩ | ⟨rfl, here⟩ <;>
      simp only [here, Flow.jump.injEq, reduceCtorEq] at flows
    omega
  · have := skipBuffer_reach reach
    omega

/-- A conditional branch to the next word, an addition and a return. -/
def branchBuffer : CodeBuffer where
  code position :=
    if position = 0 then 0x41820004 else if position = 1 then 0x38630001 else 0x4E800020
  size := 12
  base := 0x82000000
  fits := by decide

/-- The words that control comes to, by where control goes from them. -/
private theorem branchBuffer_reach {position : Int}
    (reach : branchBuffer.Reach everyWord position) :
    position = 0 ∧ flow everyWord (branchBuffer.code position) = .branch 4 ∨
      position = 1 ∧ flow everyWord (branchBuffer.code position) = .next ∨
      position = 2 ∧ flow everyWord (branchBuffer.code position) = .stop := by
  have first : flow everyWord 0x41820004 = .branch 4 := by decide
  have second : flow everyWord 0x38630001 = .next := by decide
  have third : flow everyWord 0x4E800020 = .stop := by decide
  induction reach with
  | start => exact .inl ⟨rfl, first⟩
  | @step position next _ _ succ ih =>
      have landed : next = 1 ∨ next = 2 := by
        rcases ih with ⟨rfl, here⟩ | ⟨rfl, here⟩ | ⟨rfl, here⟩ <;>
          simp only [CodeBuffer.Succ, here] at succ <;> omega
      rcases landed with rfl | rfl
      · exact .inr (.inl ⟨rfl, second⟩)
      · exact .inr (.inr ⟨rfl, third⟩)

private theorem branchBuffer_stays : branchBuffer.StaysInside everyWord := by
  have size : branchBuffer.size = 12 := rfl
  refine ⟨fun position displacement reach flows => ?_, fun position displacement reach flows => ?_,
    fun position reach => ?_⟩
  · rcases branchBuffer_reach reach with ⟨rfl, here⟩ | ⟨rfl, here⟩ | ⟨rfl, here⟩ <;>
      simp only [here, Flow.branch.injEq, reduceCtorEq] at flows
    omega
  · rcases branchBuffer_reach reach with ⟨rfl, here⟩ | ⟨rfl, here⟩ | ⟨rfl, here⟩ <;>
      simp only [here, reduceCtorEq] at flows
  · have := branchBuffer_reach reach
    omega

end UfcRecomp.Analyze
