import Mathlib.Order.Interval.Finset.Nat
import UfcRecomp.Analyze.Invariant
import UfcRecomp.Lib.Worklist

/-!
# The analysis as a walk over blocks

The stack of the loop holds the blocks that are pending, with the running one on top. A pass depends
on the other blocks only by which of them hold an address, and the next word is the one behind the
running block. The loop is therefore depth-first work on blocks, without indices and pointers.
-/

namespace UfcRecomp.Analyze

open UfcRecomp.Ppc UfcRecomp.Lib UfcRecomp.Lib.Worklist

/-- The word that a block takes next. -/
def Block.here (block : Block) : Int := block.position + block.words

instance (block : Block) : Decidable block.Reached := inferInstanceAs (Decidable (_ ∧ _))

namespace CodeBuffer

variable (dis : Disassembler) (buffer : CodeBuffer)

/-- What the walk does with a block among others. It ends where the next word lies behind the
buffer. -/
def visit (others : List Block) (block : Block) : Option (Turn Block) :=
  let kind := flow dis (buffer.code block.here)
  let closed := block.grow.close kind
  if block.here ≤ buffer.last then
    if block.Reached then some (.leave block [])
    else if kind = .next then some (.stay block.grow)
    else some (.leave closed (buffer.opened (closed :: others) block.grow block.here kind).reverse)
  else none

/-- One turn of the walk. -/
abbrev walk : Work Block → Option (Work Block) := Worklist.step (buffer.visit dis)

end CodeBuffer

/-- The walk starts with one block at word 0. -/
def firstBlock : Work Block := ⟨[], [{}]⟩

variable {dis : Disassembler} {buffer : CodeBuffer}

/-! ## Turns -/

namespace CodeBuffer

/-- The effect of one turn. -/
inductive Turns (dis : Disassembler) (buffer : CodeBuffer) (work : Work Block) :
    Work Block → Prop where
  /-- The block has come to its projection. -/
  | projected {block rest} (pending : work.pending = block :: rest)
      (inRange : block.here ≤ buffer.last) (reached : block.Reached) :
      Turns dis buffer work ⟨block :: work.explored, rest⟩
  /-- The block goes on behind the word. -/
  | advance {block rest} (pending : work.pending = block :: rest)
      (inRange : block.here ≤ buffer.last) (running : ¬block.Reached)
      (flows : flow dis (buffer.code block.here) = .next) :
      Turns dis buffer work ⟨work.explored, block.grow :: rest⟩
  /-- The block ends with the word. -/
  | turn {block rest kind} (pending : work.pending = block :: rest)
      (inRange : block.here ≤ buffer.last) (running : ¬block.Reached)
      (flows : flow dis (buffer.code block.here) = kind) (ends : kind ≠ .next) :
      Turns dis buffer work ⟨block.grow.close kind :: work.explored,
        (buffer.opened (block.grow.close kind :: (work.explored ++ rest)) block.grow block.here
          kind).reverse ++ rest⟩

/-- Every turn of the walk has one of the three effects. -/
theorem walk_eq_some_iff {work next : Work Block} :
    buffer.walk dis work = some next ↔ buffer.Turns dis work next := by
  constructor
  · intro goes
    cases pending : work.pending with
    | nil => simp [walk, Worklist.step, pending] at goes
    | cons block rest =>
        rw [walk, step_cons pending, visit] at goes
        split_ifs at goes with inRange reached flows
        · obtain rfl := Option.some.inj goes
          exact .projected pending inRange reached
        · obtain rfl := Option.some.inj goes
          exact .advance pending inRange reached flows
        · obtain rfl := Option.some.inj goes
          exact .turn pending inRange reached rfl flows
        · cases goes
  · rintro (⟨pending, inRange, reached⟩ | ⟨pending, inRange, running, flows⟩ |
      ⟨pending, inRange, running, rfl, ends⟩)
    · rw [walk, step_cons pending, visit, if_pos inRange, if_pos reached]
      rfl
    · rw [walk, step_cons pending, visit, if_pos inRange, if_neg running, if_pos flows]
      rfl
    · rw [walk, step_cons pending, visit, if_pos inRange, if_neg running, if_neg ends]
      rfl

/-- The walk ends without a block and behind the buffer. -/
theorem walk_eq_none_iff {work : Work Block} :
    buffer.walk dis work = none ↔ ∀ block ∈ work.pending.head?, buffer.last < block.here := by
  cases pending : work.pending with
  | nil => simp [walk, Worklist.step, pending]
  | cons block rest =>
      rw [walk, step_cons pending, Option.map_eq_none_iff, visit]
      split_ifs with inRange <;> simp <;> omega

end CodeBuffer

/-- A search fails below the base, and when no block holds the address. -/
theorem searchBlock_eq_none_iff {base address : Nat} {blocks : List Block} :
    searchBlock base blocks address = none ↔
      address < base ∨ ∀ block ∈ blocks, ¬block.Holds base address := by
  by_cases below : address < base
  · exact iff_of_true (searchBlock_below below) (.inl below)
  · rw [searchBlock_eq_none (Nat.not_lt.mp below), or_iff_right below]

theorem searchBlock_congr {left right : List Block} (same : Same left right)
    (base address : Nat) :
    searchBlock base left address = none ↔ searchBlock base right address = none := by
  simp only [searchBlock_eq_none_iff, same _]

theorem same_append {left right : List Block} (same : Same left right) (more : List Block) :
    Same (left ++ more) (right ++ more) := by
  intro block
  simp only [List.mem_append, same block]

/-- The opened blocks depend on which blocks there are. -/
theorem opened_congr {left right : List Block} (same : Same left right) (curBlock : Block)
    (position : Int) (kind : Flow) :
    buffer.opened left curBlock position kind = buffer.opened right curBlock position kind := by
  cases kind with
  | next | stop => rfl
  | conditionalReturn | jump displacement =>
      simp only [CodeBuffer.opened, searchBlock_congr same]
  | branch displacement =>
      simp only [CodeBuffer.opened, searchBlock_congr same]
      generalize (if searchBlock buffer.base right (sizeT (buffer.base + 4 * position + 4)) = none
        then [(⟨sizeT (4 * position + 4), 0, sizeT (displacement - 4)⟩ : Block)] else []) = fresh
      simp only [searchBlock_congr (same_append same fresh)]

theorem unordered_visit : Unordered (buffer.visit dis) := by
  intro left right same block
  have closed : ∀ closed : Block, Same (closed :: left) (closed :: right) := by
    intro closed other
    rw [List.mem_cons, List.mem_cons, same other]
  simp only [CodeBuffer.visit, opened_congr (closed _)]

/-! ## The loop and the walk -/

namespace AnalyzeState

/-- The blocks that have left the stack. -/
def Left (state : AnalyzeState) (block : Block) : Prop :=
  ∃ index < state.blocks.length, index ∉ state.blockStack ∧ state.current index = block

/-- The walk has the blocks of a state. -/
structure Tracks (dis : Disassembler) (buffer : CodeBuffer) (state : AnalyzeState)
    (work : Work Block) : Prop where
  sound : state.Sound dis buffer
  pending : work.pending = state.blockStack.map state.current
  explored : ∀ block, block ∈ work.explored ↔ state.Left block

theorem mem_set_iff {blocks : List Block} {top : Nat} (inside : top < blocks.length)
    (closed block : Block) : block ∈ blocks.set top closed ↔
      block = closed ∨ ∃ index < blocks.length, index ≠ top ∧ blocks.getD index {} = block := by
  rw [List.mem_iff_getElem]
  constructor
  · rintro ⟨index, valid, rfl⟩
    rw [List.length_set] at valid
    by_cases isTop : index = top
    · subst isTop
      exact .inl (List.getElem_set_self _)
    · refine .inr ⟨index, valid, isTop, ?_⟩
      rw [List.getElem_set_ne (Ne.symm isTop), List.getD_eq_getElem _ _ valid]
  · rintro (rfl | ⟨index, valid, notTop, rfl⟩)
    · exact ⟨top, by simpa using inside, List.getElem_set_self _⟩
    · refine ⟨index, by simpa using valid, ?_⟩
      rw [List.getElem_set_ne (Ne.symm notTop), List.getD_eq_getElem _ _ valid]

/-- The stack of a resumed state holds the fresh blocks, the last one on top. -/
theorem resume_pending {blocks fresh : List Block} {rest : List Nat} {data : Int}
    (valid : ∀ index ∈ rest, index < blocks.length) :
    (resume blocks fresh rest data).blockStack.map (resume blocks fresh rest data).current =
      fresh.reverse ++ rest.map fun index => blocks.getD index {} := by
  rw [resume_blockStack, List.map_append, List.map_reverse]
  congr 1
  · congr 1
    refine List.ext_getElem (by simp) fun index _ inside => ?_
    simp only [List.getElem_map, List.getElem_range', current, resume_blocks]
    rw [List.getD_append_right _ _ _ _ (by omega), Nat.one_mul, Nat.add_sub_cancel_left,
      List.getD_eq_getElem _ _ inside]
  · exact List.map_congr_left fun index member => current_resume_of_mem (valid index member)

theorem left_resume_iff {blocks fresh : List Block} {rest : List Nat} {data : Int} {block : Block} :
    (resume blocks fresh rest data).Left block ↔
      ∃ index < blocks.length, index ∉ rest ∧ blocks.getD index {} = block := by
  constructor
  · rintro ⟨index, valid, free, isBlock⟩
    rw [resume_blocks, List.length_append] at valid
    rw [mem_resume_blockStack] at free
    push Not at free
    have old : index < blocks.length := by
      by_contra new
      have := free.1 (by omega)
      omega
    exact ⟨index, old, free.2, (current_resume_of_mem old).symm.trans isBlock⟩
  · rintro ⟨index, valid, free, isBlock⟩
    refine ⟨index, ?_, ?_, (current_resume_of_mem valid).trans isBlock⟩
    · rw [resume_blocks, List.length_append]
      omega
    · rw [mem_resume_blockStack]
      push Not
      exact ⟨fun low => absurd valid (by omega), free⟩

namespace Tracks

variable {state next : AnalyzeState} {work : Work Block}

/-- All blocks of the state. -/
theorem mem_iff (tracks : Tracks dis buffer state work) (block : Block) :
    block ∈ work.items ↔ block ∈ state.blocks := by
  rw [Work.items, List.mem_append, tracks.explored, tracks.pending, List.mem_map]
  constructor
  · rintro (⟨index, valid, -, rfl⟩ | ⟨index, member, rfl⟩)
    · exact current_mem valid
    · exact current_mem (tracks.sound.valid index member)
  · intro member
    obtain ⟨index, valid, rfl⟩ := List.getElem_of_mem member
    have isBlock : state.current index = state.blocks[index] := List.getD_eq_getElem _ _ valid
    by_cases stacked : index ∈ state.blockStack
    · exact .inr ⟨index, stacked, isBlock⟩
    · exact .inl ⟨index, valid, stacked, isBlock⟩

/-- The blocks besides the running one. -/
theorem others_iff (tracks : Tracks dis buffer state work) {top : Nat} {rest : List Nat}
    (stack : state.blockStack = top :: rest) (block : Block) :
    block ∈ work.explored ++ rest.map state.current ↔
      ∃ index < state.blocks.length, index ≠ top ∧ state.current index = block := by
  have nodup := tracks.sound.nodup
  rw [stack, List.nodup_cons] at nodup
  rw [List.mem_append, tracks.explored, List.mem_map, Left, stack]
  constructor
  · rintro (⟨index, valid, free, rfl⟩ | ⟨index, member, rfl⟩)
    · exact ⟨index, valid, fun isTop => free (isTop ▸ List.mem_cons_self), rfl⟩
    · exact ⟨index, tracks.sound.valid index (stack ▸ List.mem_cons_of_mem _ member),
        fun isTop => nodup.1 (isTop ▸ member), rfl⟩
  · rintro ⟨index, valid, notTop, rfl⟩
    by_cases member : index ∈ rest
    · exact .inr ⟨index, member, rfl⟩
    · refine .inl ⟨index, valid, ?_, rfl⟩
      rw [List.mem_cons, not_or]
      exact ⟨notTop, member⟩

/-- The running block takes the word that is next. -/
theorem front (tracks : Tracks dis buffer state work) {top : Nat} {rest : List Nat}
    (stack : state.blockStack = top :: rest) :
    work.pending = state.current top :: rest.map state.current ∧
      (state.current top).here = state.data := by
  refine ⟨by rw [tracks.pending, stack, List.map_cons], ?_⟩
  exact (tracks.sound.here top (by rw [stack]; rfl)).symm

/-- The walk takes a turn for each pass of the loop. -/
theorem pass (tracks : Tracks dis buffer state work) (pass : buffer.Pass dis state next) :
    ∃ work', buffer.walk dis work = some work' ∧ Tracks dis buffer next work' := by
  have sound := tracks.sound
  have nextSound := sound.pass pass
  simp only [CodeBuffer.walk_eq_some_iff]
  cases pass with
  | @projected top rest inRange stack reached =>
      obtain ⟨pending, here⟩ := tracks.front stack
      rw [CodeBuffer.inRange_iff, ← here] at inRange
      refine ⟨_, .projected pending inRange reached, nextSound, ?_, fun block => ?_⟩
      · rw [resume_pending fun index member => (sound.below_top stack {} member).2.2]
        rfl
      · have nodup := sound.nodup
        rw [stack, List.nodup_cons] at nodup
        rw [List.mem_cons, tracks.explored, left_resume_iff, Left, stack]
        constructor
        · rintro (rfl | ⟨index, valid, free, rfl⟩)
          · exact ⟨top, sound.valid top (by simp [stack]), nodup.1, rfl⟩
          · exact ⟨index, valid, fun member => free (List.mem_cons_of_mem _ member), rfl⟩
        · rintro ⟨index, valid, free, rfl⟩
          by_cases isTop : index = top
          · exact .inl (isTop ▸ rfl)
          · refine .inr ⟨index, valid, ?_, rfl⟩
            rw [List.mem_cons, not_or]
            exact ⟨isTop, free⟩
  | @advance top rest inRange stack running flows =>
      obtain ⟨pending, here⟩ := tracks.front stack
      rw [CodeBuffer.inRange_iff, ← here] at inRange
      rw [← here] at flows
      have inside := sound.valid top (by simp [stack])
      refine ⟨_, .advance pending inRange running flows, nextSound, ?_, fun block => ?_⟩
      · have below : rest.map (fun index =>
            (state.blocks.set top (state.current top).grow).getD index {}) =
              rest.map state.current :=
          List.map_congr_left fun index member => (sound.below_top stack _ member).1
        have isTop : (state.blocks.set top (state.current top).grow).getD top {} =
            (state.current top).grow := by
          rw [List.getD_eq_getElem?_getD, List.getElem?_set_self inside, Option.getD_some]
        change _ = state.blockStack.map fun index =>
          (state.blocks.set top (state.current top).grow).getD index {}
        rw [stack, List.map_cons, below, isTop]
      · rw [tracks.explored, Left, Left]
        have kept : ∀ index, index ∉ state.blockStack →
            (state.blocks.set top (state.current top).grow).getD index {} =
              state.current index := by
          intro index free
          refine getD_set_of_ne fun isTop => free ?_
          rw [isTop, stack]
          exact List.mem_cons_self
        constructor
        · rintro ⟨index, valid, free, rfl⟩
          exact ⟨index, by simpa using valid, free, kept index free⟩
        · rintro ⟨index, valid, free, rfl⟩
          exact ⟨index, by simpa using valid, free, (kept index free).symm⟩
  | @turn top rest kind blocks inRange stack running flows ends closed =>
      obtain ⟨pending, here⟩ := tracks.front stack
      rw [CodeBuffer.inRange_iff, ← here] at inRange
      rw [← here] at flows
      have inside := sound.valid top (by simp [stack])
      have nodup := sound.nodup
      rw [stack, List.nodup_cons] at nodup
      have same : Same ((state.current top).grow.close kind ::
          (work.explored ++ rest.map state.current)) blocks := by
        intro block
        rw [List.mem_cons, tracks.others_iff stack, closed, mem_set_iff inside]
        rfl
      refine ⟨_, .turn pending inRange running flows ends, nextSound, ?_, fun block => ?_⟩
      · have below : rest.map (fun index => blocks.getD index {}) = rest.map state.current := by
          refine List.map_congr_left fun index member => ?_
          rw [closed]
          exact (sound.below_top stack _ member).1
        rw [resume_pending, opened_congr same, here, below]
        · intro index member
          rw [closed, List.length_set]
          exact (sound.below_top stack {} member).2.2
      · rw [List.mem_cons, tracks.explored, left_resume_iff, Left, stack, closed, List.length_set]
        have isTop : (state.blocks.set top ((state.current top).grow.close kind)).getD top {} =
            (state.current top).grow.close kind := by
          rw [List.getD_eq_getElem?_getD, List.getElem?_set_self inside, Option.getD_some]
        constructor
        · rintro (rfl | ⟨index, valid, free, rfl⟩)
          · exact ⟨top, inside, nodup.1, isTop⟩
          · rw [List.mem_cons, not_or] at free
            exact ⟨index, valid, free.2, getD_set_of_ne free.1⟩
        · rintro ⟨index, valid, free, rfl⟩
          by_cases same : index = top
          · subst same
            exact .inl isTop
          · refine .inr ⟨index, valid, ?_, (getD_set_of_ne same).symm⟩
            rw [List.mem_cons, not_or]
            exact ⟨same, free⟩

/-- The walk ends where the loop does. -/
theorem last (tracks : Tracks dis buffer state work) (ends : buffer.analyzeStep dis state = none) :
    buffer.walk dis work = none := by
  rw [CodeBuffer.walk_eq_none_iff]
  cases stack : state.blockStack with
  | nil => simp [tracks.pending, stack]
  | cons top rest =>
      obtain ⟨pending, here⟩ := tracks.front stack
      intro block isFront
      rw [pending] at isFront
      obtain rfl := Option.some.inj isFront
      by_contra inRange
      rw [here, Int.not_lt, ← CodeBuffer.inRange_iff] at inRange
      simp [CodeBuffer.analyzeStep, inRange, stack] at ends

theorem initial : Tracks dis buffer {} firstBlock where
  sound := .initial
  pending := rfl
  explored block := by
    refine iff_of_false List.not_mem_nil ?_
    rintro ⟨index, valid, free, -⟩
    simp at valid free
    omega

end Tracks

end AnalyzeState

/-- The walk follows the loop. -/
theorem walk_follows : Loop.Follows (buffer.analyzeStep dis) (buffer.walk dis)
    (AnalyzeState.Tracks dis buffer) (AnalyzeState.Tracks dis buffer) where
  pass tracks goes := by
    obtain ⟨work, turn, tracks⟩ := tracks.pass (CodeBuffer.pass_of_step goes)
    exact ⟨work, work, turn, .refl, tracks⟩
  last tracks ends := ⟨_, .refl, tracks.last ends, tracks⟩

/-- The loop follows the walk. -/
theorem loop_follows : Loop.Follows (buffer.walk dis) (buffer.analyzeStep dis)
    (fun work state => AnalyzeState.Tracks dis buffer state work)
    (fun work state => AnalyzeState.Tracks dis buffer state work) where
  pass {work next state} tracks goes := by
    cases step : buffer.analyzeStep dis state with
    | none => exact absurd (goes.symm.trans (tracks.last step)) (Option.some_ne_none _)
    | some after =>
        obtain ⟨work', turn, tracks⟩ := tracks.pass (CodeBuffer.pass_of_step step)
        obtain rfl := Option.some.inj (turn.symm.trans goes)
        exact ⟨after, after, rfl, .refl, tracks⟩
  last {work state} tracks ends := by
    refine ⟨state, .refl, ?_, tracks⟩
    cases step : buffer.analyzeStep dis state with
    | none => rfl
    | some after =>
        obtain ⟨work', turn, -⟩ := tracks.pass (CodeBuffer.pass_of_step step)
        exact absurd (turn.symm.trans ends) (Option.some_ne_none _)

/-- The loop ends when the walk does. -/
theorem terminates_walk_iff : Loop.Terminates (buffer.analyzeStep dis) {} ↔
    Loop.Terminates (buffer.walk dis) firstBlock := by
  constructor
  · rintro ⟨fuel, final, completed⟩
    obtain ⟨more, last, completed, -⟩ := walk_follows.exists_run .initial completed
    exact ⟨more, last, completed⟩
  · rintro ⟨fuel, final, completed⟩
    obtain ⟨more, last, completed, -⟩ := loop_follows.exists_run .initial completed
    exact ⟨more, last, completed⟩

/-! ## When the walk goes on forever -/

/-- The numbers of a block are those of `size_t`. -/
def Block.Fits (block : Block) : Prop :=
  block.base < 2 ^ 64 ∧ block.size < 2 ^ 64 ∧ block.projectedSize < 2 ^ 64

theorem finite_fits : {block : Block | block.Fits}.Finite := by
  have numbers := (Set.finite_Iio (2 ^ 64)).prod ((Set.finite_Iio (2 ^ 64)).prod
    (Set.finite_Iio (2 ^ 64)))
  refine (@Set.Finite.preimage _ _
    (fun block : Block => (block.base, block.size, block.projectedSize)) _ ?_ numbers).subset ?_
  · rintro ⟨base, size, projectedSize⟩ _ ⟨base', size', projectedSize'⟩ _ same
    simpa using same
  · exact fun block fits => fits

theorem npos_lt : npos < 2 ^ 64 := by decide

theorem fits_of_mem_opened {blocks : List Block} {curBlock block : Block} {position : Int}
    {kind : Flow} (member : block ∈ buffer.opened blocks curBlock position kind) : block.Fits := by
  have small := sizeT_lt
  cases kind with
  | next | stop => simp [CodeBuffer.opened] at member
  | conditionalReturn =>
      simp only [CodeBuffer.opened, List.mem_ite_nil_right, List.mem_singleton] at member
      obtain ⟨-, rfl⟩ := member
      exact ⟨small _, Nat.two_pow_pos 64, npos_lt⟩
  | jump displacement =>
      simp only [CodeBuffer.opened, List.mem_ite_nil_right, List.mem_singleton] at member
      obtain ⟨-, rfl⟩ := member
      refine ⟨small _, Nat.two_pow_pos 64, ?_⟩
      change CodeBuffer.projection _ _ _ < _
      unfold CodeBuffer.projection
      split_ifs
      · exact small _
      · exact npos_lt
  | branch displacement =>
      simp only [CodeBuffer.opened, List.mem_append, List.mem_ite_nil_right,
        List.mem_singleton] at member
      rcases member with ⟨-, rfl⟩ | ⟨-, rfl⟩
      · exact ⟨small _, Nat.two_pow_pos 64, small _⟩
      · exact ⟨small _, Nat.two_pow_pos 64, npos_lt⟩

theorem Block.Fits.grow {block : Block} (fits : block.Fits) : block.grow.Fits := by
  have size : block.grow.size = sizeT (block.size + 4) := rfl
  exact ⟨fits.1, size ▸ sizeT_lt _, fits.2.2⟩

theorem Block.Fits.close {block : Block} (fits : block.Fits) (kind : Flow) :
    (block.close kind).Fits := by
  cases kind with
  | branch displacement => exact ⟨fits.1, fits.2.1, npos_lt⟩
  | _ => exact fits

theorem fits_of_visits {work : Work Block}
    (visits : Loop.Visits (buffer.walk dis) firstBlock work) :
    ∀ block ∈ work.items, block.Fits := by
  refine @Loop.Visits.invariant _ _ (fun work => ∀ block ∈ work.items, block.Fits) _ _ visits ?_ ?_
  · intro block member
    obtain rfl := List.mem_singleton.mp member
    exact ⟨Nat.two_pow_pos 64, Nat.two_pow_pos 64, npos_lt⟩
  · intro work next fits goes block member
    cases CodeBuffer.walk_eq_some_iff.mp goes with
    | projected pending _ _ =>
        exact fits block ((Work.items_perm pending).mem_iff.mpr member)
    | advance pending _ _ _ =>
        simp only [(Work.items_perm pending).mem_iff, List.forall_mem_cons] at fits
        rcases List.mem_cons.mp ((items_stay_perm ..).mem_iff.mp member) with rfl | old
        · exact fits.1.grow
        · exact fits.2 block old
    | turn pending _ _ _ _ =>
        simp only [(Work.items_perm pending).mem_iff, List.forall_mem_cons] at fits
        rw [(items_leave_perm ..).mem_iff, List.mem_append, List.mem_reverse,
          List.mem_cons] at member
        rcases member with fresh | rfl | old
        · exact fits_of_mem_opened fresh
        · exact fits.1.grow.close _
        · exact fits.2 block old

/-- The loop ends exactly when the walk never comes back to a block that it works off with the same
blocks known. -/
theorem terminates_iff_not_recurs :
    Loop.Terminates (buffer.analyzeStep dis) {} ↔ ¬Recurs (buffer.visit dis) firstBlock :=
  terminates_walk_iff.trans (terminates_iff unordered_visit finite_fits fun _ visits =>
    fits_of_visits visits)

end UfcRecomp.Analyze
