import UfcRecomp.Analyze.Flow

/-!
# What holds throughout the analysis

`AnalyzeState.Sound` describes the states the loop visits for any buffer: the stack
holds blocks without words below the top one, a block holds only words that control
comes to, and the next word is the one behind the top block.
-/

namespace UfcRecomp.Analyze

open UfcRecomp.Ppc UfcRecomp.Lib

/-- The index of the word at `dataEnd`. -/
def CodeBuffer.last (buffer : CodeBuffer) : Int := buffer.size / 4

theorem CodeBuffer.inRange_iff {buffer : CodeBuffer} {position : Int} :
    4 * position ≤ buffer.size ↔ position ≤ buffer.last := by
  unfold CodeBuffer.last
  omega

theorem CodeBuffer.last_bounds (buffer : CodeBuffer) :
    0 ≤ buffer.last ∧ buffer.base + 4 * buffer.last < 2 ^ 62 := by
  have fits := buffer.fits
  unfold CodeBuffer.last
  omega

/-- The address of a word in or behind the code is not below the base. -/
theorem CodeBuffer.base_le_address (buffer : CodeBuffer) {position : Int} (low : 0 ≤ position)
    (high : position ≤ buffer.last + 2 ^ 24) :
    buffer.base ≤ sizeT (buffer.base + 4 * position) := by
  have bounds := buffer.last_bounds
  unfold sizeT
  omega

namespace Block

/-- The index of the word that a block starts with. -/
def position (block : Block) : Int := pointerIndex (block.base / 4)

/-- The number of words that a block has taken. -/
def words (block : Block) : Int := block.size / 4

theorem words_nonneg (block : Block) : 0 ≤ block.words := by
  unfold words
  omega

/-- Where the block for a word starts; words far below the code wrap behind its end. -/
theorem position_of_base {block : Block} {position : Int} (base : block.base = sizeT (4 * position))
    (low : -2 ^ 61 - 2 ^ 24 ≤ position) (high : position < 2 ^ 61) :
    block.position = position ∨ 2 ^ 61 - 2 ^ 24 ≤ block.position ∧ position < -2 ^ 61 := by
  unfold Block.position pointerIndex sizeT at *
  split_ifs <;> omega

theorem position_bounds {block : Block} (bounded : block.base < 2 ^ 64) :
    -2 ^ 61 ≤ block.position ∧ block.position < 2 ^ 61 := by
  unfold Block.position pointerIndex
  split_ifs <;> omega

/-- What every block of the analysis satisfies. -/
structure Sound (dis : Disassembler) (buffer : CodeBuffer) (block : Block) : Prop where
  /-- Blocks consist of whole words. -/
  aligned : 4 ∣ block.base ∧ 4 ∣ block.size
  bounded : block.base < 2 ^ 64
  /-- No block goes on behind the word at the end of the buffer. -/
  extent : block.size = 0 ∨ block.position + block.words ≤ buffer.last + 1
  /-- Control comes to the start of the block, unless it lies behind the buffer. -/
  entry : buffer.Reach dis block.position ∨ buffer.last < block.position
  /-- Control comes to every word of the block. -/
  taken : ∀ position, block.position ≤ position → position < block.position + block.words →
    buffer.Reach dis position

end Block

variable {dis : Disassembler} {buffer : CodeBuffer}

/-- A branch goes at most 32 MiB away. -/
theorem CodeBuffer.Succ.near {position next : Int} (succ : buffer.Succ dis position next) :
    position - 2 ^ 23 ≤ next ∧ next ≤ position + 2 ^ 23 := by
  unfold CodeBuffer.Succ at succ
  cases flows : flow dis (buffer.code position) with
  | next => simp only [flows] at succ; omega
  | conditionalReturn => simp only [flows] at succ; omega
  | stop => simp [flows] at succ
  | branch displacement =>
      have bounds := branch_displacement flows
      simp only [flows] at succ
      omega
  | jump displacement =>
      have bounds := jump_displacement flows
      simp only [flows] at succ
      omega

/-- What no block of a longer list holds, no block of a shorter one does. -/
theorem searchBlock_none_of_append {base address : Nat} {blocks more : List Block}
    (missing : searchBlock base (blocks ++ more) address = none) :
    searchBlock base blocks address = none := by
  unfold searchBlock at missing ⊢
  split_ifs at missing ⊢
  · rfl
  · rw [List.findIdx?_eq_none_iff] at missing ⊢
    exact fun block member => missing block (List.mem_append_left _ member)

/-- An opened block is fresh and starts at a successor of the word, which no block holds unless
the word is a conditional return. -/
theorem succ_of_mem_opened {blocks : List Block} {curBlock block : Block} {position : Int}
    {kind : Flow} (flows : flow dis (buffer.code position) = kind)
    (member : block ∈ buffer.opened blocks curBlock position kind) :
    block.size = 0 ∧ ∃ next, buffer.Succ dis position next ∧ block.base = sizeT (4 * next) ∧
      (kind = .conditionalReturn ∨
        searchBlock buffer.base blocks (sizeT (buffer.base + 4 * next)) = none) := by
  have nextWord : sizeT (4 * position + 4) = sizeT (4 * (position + 1)) := by
    rw [Int.mul_add]
    rfl
  cases kind with
  | next => simp [CodeBuffer.opened] at member
  | stop => simp [CodeBuffer.opened] at member
  | conditionalReturn =>
      simp only [CodeBuffer.opened, List.mem_ite_nil_right, List.mem_singleton] at member
      obtain ⟨-, rfl⟩ := member
      exact ⟨rfl, position + 1, by simp [CodeBuffer.Succ, flows], nextWord, .inl rfl⟩
  | jump displacement =>
      obtain ⟨⟨words, rfl⟩, -, -⟩ := jump_displacement flows
      simp only [CodeBuffer.opened, List.mem_ite_nil_right, List.mem_singleton] at member
      obtain ⟨⟨above, missing⟩, rfl⟩ := member
      refine ⟨rfl, position + words, ?_, by rw [Int.mul_add], .inr ?_⟩
      · simp only [CodeBuffer.Succ, flows]
        exact ⟨Int.mul_add _ _ _, above⟩
      · rwa [Int.mul_add, ← Int.add_assoc]
  | branch displacement =>
      obtain ⟨⟨words, rfl⟩, -, -⟩ := branch_displacement flows
      simp only [CodeBuffer.opened, List.mem_append, List.mem_ite_nil_right,
        List.mem_singleton] at member
      rcases member with ⟨missing, rfl⟩ | ⟨missing, rfl⟩
      · refine ⟨rfl, position + 1, by simp [CodeBuffer.Succ, flows], nextWord, .inr ?_⟩
        rwa [Int.mul_add, ← Int.add_assoc]
      · refine ⟨rfl, position + words, ?_, by rw [Int.mul_add], .inr ?_⟩
        · simp only [CodeBuffer.Succ, flows]
          exact .inr (Int.mul_add _ _ _)
        · rw [Int.mul_add, ← Int.add_assoc]
          exact searchBlock_none_of_append missing

/-- A fresh block at a successor of a reached word is sound. -/
theorem Block.Sound.of_succ {block : Block} {position next : Int}
    (reach : buffer.Reach dis position) (low : -2 ^ 61 ≤ position)
    (inRange : position ≤ buffer.last) (succ : buffer.Succ dis position next)
    (base : block.base = sizeT (4 * next)) (fresh : block.size = 0) :
    block.Sound dis buffer := by
  have near := succ.near
  have bounds := buffer.last_bounds
  have words : block.words = 0 := by simp [Block.words, fresh]
  refine ⟨⟨?_, by simp [fresh]⟩, ?_, .inl fresh, ?_, ?_⟩
  · rw [base]
    unfold sizeT
    omega
  · rw [base]
    exact sizeT_lt _
  · rcases block.position_of_base base (by omega) (by omega) with same | ⟨far, -⟩
    · exact .inl (same ▸ reach.step (CodeBuffer.inRange_iff.mpr inRange) succ)
    · exact .inr (by omega)
  · intro at_ atLow atHigh
    omega

/-! ## Blocks that take a word -/

namespace Block

@[simp] theorem close_base (block : Block) (kind : Flow) : (block.close kind).base = block.base := by
  cases kind <;> rfl

@[simp] theorem close_size (block : Block) (kind : Flow) : (block.close kind).size = block.size := by
  cases kind <;> rfl

@[simp] theorem close_position (block : Block) (kind : Flow) :
    (block.close kind).position = block.position := by
  simp [position]

@[simp] theorem close_words (block : Block) (kind : Flow) :
    (block.close kind).words = block.words := by
  simp [words]

@[simp] theorem grow_base (block : Block) : block.grow.base = block.base := rfl

@[simp] theorem grow_position (block : Block) : block.grow.position = block.position := rfl

@[simp] theorem grow_projectedSize (block : Block) :
    block.grow.projectedSize = block.projectedSize := rfl

/-- Dropping the projection keeps a block sound. -/
theorem Sound.close {block : Block} (sound : block.Sound dis buffer) (kind : Flow) :
    (block.close kind).Sound dis buffer where
  aligned := by simpa using sound.aligned
  bounded := by simpa using sound.bounded
  extent := by simpa using sound.extent
  entry := by simpa using sound.entry
  taken := by simpa using sound.taken

/-- A block inside the buffer has room for another word. -/
theorem Sound.grow_size {block : Block} (sound : block.Sound dis buffer)
    (inRange : block.position + block.words ≤ buffer.last) : block.grow.size = block.size + 4 := by
  have start := position_bounds sound.bounded
  have bounds := buffer.last_bounds
  obtain ⟨-, words, aligned⟩ := sound.aligned
  unfold Block.words at inRange
  change sizeT (block.size + 4) = block.size + 4
  unfold sizeT
  omega

theorem Sound.grow_words {block : Block} (sound : block.Sound dis buffer)
    (inRange : block.position + block.words ≤ buffer.last) :
    block.grow.words = block.words + 1 := by
  unfold words at *
  rw [sound.grow_size inRange]
  omega

/-- Taking the word that control has come to keeps a block sound. -/
theorem Sound.grow {block : Block} (sound : block.Sound dis buffer)
    (inRange : block.position + block.words ≤ buffer.last)
    (reach : buffer.Reach dis (block.position + block.words)) : block.grow.Sound dis buffer where
  aligned := by
    rw [sound.grow_size inRange]
    exact ⟨sound.aligned.1, Nat.dvd_add sound.aligned.2 (Nat.dvd_refl 4)⟩
  bounded := sound.bounded
  extent := .inr (by rw [sound.grow_words inRange, grow_position]; omega)
  entry := sound.entry
  taken := by
    intro position low high
    rw [sound.grow_words inRange, grow_position] at high
    by_cases isLast : position = block.position + block.words
    · exact isLast ▸ reach
    · exact sound.taken position low (by omega)

end Block

/-! ## States of the loop -/

namespace AnalyzeState

/-- What every visited state satisfies. -/
structure Sound (dis : Disassembler) (buffer : CodeBuffer) (state : AnalyzeState) : Prop where
  /-- No block is on the stack twice. -/
  nodup : state.blockStack.Nodup
  valid : ∀ index ∈ state.blockStack, index < state.blocks.length
  /-- Below the top, the stack holds blocks that have not been entered. -/
  waiting : ∀ index ∈ state.blockStack.tail, (state.current index).size = 0
  blocks : ∀ block ∈ state.blocks, block.Sound dis buffer
  /-- The next word is the one behind the top block. -/
  here : ∀ top, state.blockStack.head? = some top →
    state.data = (state.current top).position + (state.current top).words
  /-- Control comes to the next word, unless it lies behind the buffer. -/
  arrived : state.blockStack ≠ [] → buffer.Reach dis state.data ∨ buffer.last < state.data

theorem current_mem {state : AnalyzeState} {index : Nat} (valid : index < state.blocks.length) :
    state.current index ∈ state.blocks := by
  rw [current, List.getD_eq_getElem _ _ valid]
  exact List.getElem_mem valid

/-- A stack index of a resumed state is the index of a fresh block or was on the stack. -/
theorem mem_resume_blockStack {blocks fresh : List Block} {rest : List Nat} {data : Int}
    {index : Nat} : index ∈ (resume blocks fresh rest data).blockStack ↔
      (blocks.length ≤ index ∧ index < blocks.length + fresh.length) ∨ index ∈ rest := by
  have stack : (resume blocks fresh rest data).blockStack =
      (List.range' blocks.length fresh.length).reverse ++ rest := by
    simp only [resume, restoreData]
    split <;> rfl
  rw [stack, List.mem_append, List.mem_reverse, List.mem_range'_1]

@[simp] theorem resume_blocks (blocks fresh : List Block) (rest : List Nat) (data : Int) :
    (resume blocks fresh rest data).blocks = blocks ++ fresh := by
  simp only [resume, restoreData]
  split <;> rfl

theorem resume_blockStack (blocks fresh : List Block) (rest : List Nat) (data : Int) :
    (resume blocks fresh rest data).blockStack =
      (List.range' blocks.length fresh.length).reverse ++ rest := by
  simp only [resume, restoreData]
  split <;> rfl

/-- The loop goes on at the start of a block that has not been entered. -/
theorem resume_data {blocks fresh : List Block} {rest : List Nat} {data : Int} {top : Nat}
    (head : (resume blocks fresh rest data).blockStack.head? = some top)
    (bounded : ((resume blocks fresh rest data).current top).base < 2 ^ 64)
    (entered : ((resume blocks fresh rest data).current top).size = 0) :
    (resume blocks fresh rest data).data =
      ((resume blocks fresh rest data).current top).position := by
  rw [resume_blockStack] at head
  have stop : ((blocks ++ fresh).getD top {}).stop = ((blocks ++ fresh).getD top {}).base := by
    rw [current, resume_blocks] at bounded entered
    unfold Block.stop sizeT
    omega
  cases stack : (List.range' blocks.length fresh.length).reverse ++ rest with
  | nil => simp [stack] at head
  | cons first others =>
      obtain rfl : first = top := by simpa [stack] using head
      rw [current, resume_blocks, Block.position, ← stop]
      simp [resume, restoreData, stack]

theorem current_resume_of_mem {blocks fresh : List Block} {rest : List Nat} {data : Int}
    {index : Nat} (valid : index < blocks.length) :
    (resume blocks fresh rest data).current index = blocks.getD index {} := by
  rw [current, resume_blocks, List.getD_append _ _ _ _ valid]

theorem current_resume_fresh {blocks fresh : List Block} {rest : List Nat} {data : Int}
    {index : Nat} (low : blocks.length ≤ index) (high : index < blocks.length + fresh.length) :
    (resume blocks fresh rest data).current index ∈ fresh := by
  rw [current, resume_blocks, List.getD_append_right _ _ _ _ low,
    List.getD_eq_getElem _ _ (by omega)]
  exact List.getElem_mem _

/-- Resuming with sound blocks, when none of those on the stack has been entered. -/
theorem Sound.resume {blocks fresh : List Block} {rest : List Nat} {data : Int}
    (nodup : rest.Nodup) (valid : ∀ index ∈ rest, index < blocks.length)
    (waiting : ∀ index ∈ rest, (blocks.getD index {}).size = 0)
    (sound : ∀ block ∈ blocks, block.Sound dis buffer)
    (opened : ∀ block ∈ fresh, block.size = 0 ∧ block.Sound dis buffer) :
    (resume blocks fresh rest data).Sound dis buffer := by
  have entered : ∀ index ∈ (AnalyzeState.resume blocks fresh rest data).blockStack,
      index < blocks.length + fresh.length ∧
        ((AnalyzeState.resume blocks fresh rest data).current index).size = 0 := by
    intro index member
    rcases mem_resume_blockStack.mp member with ⟨low, high⟩ | member
    · exact ⟨high, (opened _ (current_resume_fresh low high)).1⟩
    · have inside := valid index member
      rw [current_resume_of_mem inside]
      exact ⟨by omega, waiting index member⟩
  have allSound : ∀ block ∈ (AnalyzeState.resume blocks fresh rest data).blocks,
      block.Sound dis buffer := by
    intro block member
    rw [resume_blocks, List.mem_append] at member
    rcases member with old | new
    · exact sound block old
    · exact (opened block new).2
  have allValid : ∀ index ∈ (AnalyzeState.resume blocks fresh rest data).blockStack,
      index < (AnalyzeState.resume blocks fresh rest data).blocks.length := by
    intro index member
    rw [resume_blocks, List.length_append]
    exact (entered index member).1
  have start : ∀ top, (AnalyzeState.resume blocks fresh rest data).blockStack.head? = some top →
      (AnalyzeState.resume blocks fresh rest data).data =
        ((AnalyzeState.resume blocks fresh rest data).current top).position ∧
      ((AnalyzeState.resume blocks fresh rest data).current top).Sound dis buffer := by
    intro top head
    have member := List.mem_of_head? head
    have topSound := allSound _ (current_mem (allValid top member))
    exact ⟨resume_data head topSound.bounded (entered top member).2, topSound⟩
  refine ⟨?_, allValid, ?_, allSound, ?_, ?_⟩
  · rw [resume_blockStack]
    refine List.Nodup.append (List.nodup_reverse.mpr (List.nodup_range' ..)) nodup ?_
    intro index new old
    rw [List.mem_reverse, List.mem_range'_1] at new
    have inside := valid index old
    omega
  · intro index member
    exact (entered index (List.mem_of_mem_tail member)).2
  · intro top head
    have empty := (entered top (List.mem_of_head? head)).2
    rw [(start top head).1, Block.words, empty]
    omega
  · intro nonempty
    obtain ⟨top, others, stack⟩ := List.exists_cons_of_ne_nil nonempty
    have head := congrArg List.head? stack
    rw [(start top head).1]
    exact (start top head).2.entry

/-- The blocks after the top one was replaced. -/
theorem Sound.set_top {state : AnalyzeState} (sound : state.Sound dis buffer) {block : Block}
    (replaced : block.Sound dis buffer) (top : Nat) :
    ∀ other ∈ state.blocks.set top block, other.Sound dis buffer := by
  intro other member
  rcases List.mem_or_eq_of_mem_set member with old | rfl
  · exact sound.blocks other old
  · exact replaced

/-- Replacing a block leaves the others. -/
theorem getD_set_of_ne {blocks : List Block} {block : Block} {top index : Nat}
    (different : index ≠ top) : (blocks.set top block).getD index {} = blocks.getD index {} := by
  rw [List.getD_eq_getElem?_getD, List.getD_eq_getElem?_getD,
    List.getElem?_set_ne (Ne.symm different)]

/-- Replacing the top block leaves the blocks below it on the stack. -/
theorem Sound.below_top {state : AnalyzeState} (sound : state.Sound dis buffer) {top : Nat}
    {rest : List Nat} (stack : state.blockStack = top :: rest) (block : Block) {index : Nat}
    (member : index ∈ rest) :
    (state.blocks.set top block).getD index {} = state.current index ∧
      (state.current index).size = 0 ∧ index < state.blocks.length := by
  have nodup := sound.nodup
  rw [stack, List.nodup_cons] at nodup
  have different : index ≠ top := fun same => nodup.1 (same ▸ member)
  refine ⟨getD_set_of_ne different, sound.waiting index (by rw [stack]; exact member), ?_⟩
  exact sound.valid index (by rw [stack]; exact List.mem_cons_of_mem _ member)

/-- The running block of a sound state, at a word of the buffer. -/
theorem Sound.top {state : AnalyzeState} (sound : state.Sound dis buffer) {top : Nat}
    {rest : List Nat} (stack : state.blockStack = top :: rest)
    (inRange : 4 * state.data ≤ buffer.size) :
    (state.current top).Sound dis buffer ∧ buffer.Reach dis state.data ∧
      state.data = (state.current top).position + (state.current top).words ∧
      (state.current top).position + (state.current top).words ≤ buffer.last := by
  have here := sound.here top (by rw [stack]; rfl)
  have last := CodeBuffer.inRange_iff.mp inRange
  have topSound := sound.blocks _ (current_mem (sound.valid top (by simp [stack])))
  refine ⟨topSound, ?_, here, by omega⟩
  rcases sound.arrived (by simp [stack]) with reach | behind
  · exact reach
  · omega

/-- The initial state is sound. -/
theorem Sound.initial : ({} : AnalyzeState).Sound dis buffer where
  nodup := List.nodup_singleton 0
  valid := by simp
  waiting := by simp
  blocks := by
    intro block member
    obtain rfl := List.mem_singleton.mp member
    refine ⟨by simp, by simp, .inl rfl, .inl .start, ?_⟩
    intro position low high
    change position < 0 + 0 at high
    change 0 ≤ position at low
    omega
  here := by
    intro top head
    obtain rfl : 0 = top := by simpa using head
    rfl
  arrived _ := .inl .start

/-- One pass keeps a state sound. -/
theorem Sound.pass {state next : AnalyzeState} (sound : state.Sound dis buffer)
    (pass : buffer.Pass dis state next) : next.Sound dis buffer := by
  cases pass with
  | @projected top rest inRange stack reached =>
      have nodup := sound.nodup
      rw [stack, List.nodup_cons] at nodup
      refine .resume nodup.2 ?_ ?_ sound.blocks (by simp)
      · intro index member
        exact sound.valid index (by rw [stack]; exact List.mem_cons_of_mem _ member)
      · intro index member
        exact sound.waiting index (by rw [stack]; exact member)
  | @advance top rest inRange stack running flows =>
      obtain ⟨topSound, reach, here, room⟩ := sound.top stack inRange
      have inside := sound.valid top (by simp [stack])
      have current_top : ({
          blocks := state.blocks.set top (state.current top).grow
          blockStack := state.blockStack
          data := state.data + 1 } : AnalyzeState).current top = (state.current top).grow := by
        simp [current, List.getD_eq_getElem?_getD, inside]
      refine ⟨sound.nodup, by simpa using sound.valid, ?_, ?_, ?_, ?_⟩
      · intro index member
        rw [stack] at member
        have below := sound.below_top stack (state.current top).grow member
        exact (congrArg Block.size below.1).trans below.2.1
      · exact sound.set_top (topSound.grow room (here ▸ reach)) top
      · intro head isHead
        obtain rfl : top = head := by simpa [stack] using isHead
        rw [current_top, topSound.grow_words room, Block.grow_position]
        change state.data + 1 = _
        omega
      · intro nonempty
        have succ : buffer.Succ dis state.data (state.data + 1) := by
          simp [CodeBuffer.Succ, flows]
        exact .inl (reach.step inRange succ)
  | @turn top rest kind blocks inRange stack running flows ends closed =>
      obtain ⟨topSound, reach, here, room⟩ := sound.top stack inRange
      have low := Block.position_bounds topSound.bounded
      have words := (state.current top).words_nonneg
      have nodup := sound.nodup
      rw [stack, List.nodup_cons] at nodup
      have closedSound := (topSound.grow room (here ▸ reach)).close kind
      refine .resume nodup.2 ?_ ?_ (closed ▸ sound.set_top closedSound top) ?_
      · intro index member
        rw [closed, List.length_set]
        exact (sound.below_top stack (state.current top) member).2.2
      · intro index member
        have below := sound.below_top stack ((state.current top).grow.close kind) member
        rw [closed, below.1]
        exact below.2.1
      · intro block member
        obtain ⟨fresh, next, succ, base, -⟩ := succ_of_mem_opened flows member
        refine ⟨fresh, .of_succ reach (by omega) (CodeBuffer.inRange_iff.mp inRange) succ base fresh⟩

/-- Every visited state is sound. -/
theorem Sound.of_visits {state : AnalyzeState}
    (visits : Loop.Visits (buffer.analyzeStep dis) {} state) : state.Sound dis buffer :=
  visits.invariant .initial fun sound step => sound.pass (CodeBuffer.pass_of_step step)

end AnalyzeState

/-! ## What a search finds -/

/-- The words of a block; a block without words stands for its first one. -/
def Block.Covers (block : Block) (position : Int) : Prop :=
  if block.words = 0 then position = block.position
  else block.position ≤ position ∧ position < block.position + block.words

/-- A search finds a word of the code exactly in the blocks that cover it and whose start has
an address. -/
theorem Block.Sound.holds_iff {block : Block} (sound : block.Sound dis buffer) {position : Int}
    (low : 0 ≤ position) (high : position ≤ buffer.last + 2 ^ 24) :
    block.Holds buffer.base (sizeT (buffer.base + 4 * position)) ↔
      0 ≤ buffer.base + 4 * block.position ∧ block.Covers position := by
  have start := position_bounds sound.bounded
  have bounds := buffer.last_bounds
  obtain ⟨⟨baseWords, baseAligned⟩, ⟨sizeWords, sizeAligned⟩⟩ := sound.aligned
  have bounded := sound.bounded
  have words : block.words = sizeWords := by unfold Block.words; omega
  have first : (sizeT (buffer.base + block.base) : Int) =
      if 0 ≤ buffer.base + 4 * block.position then buffer.base + 4 * block.position
      else 2 ^ 64 + buffer.base + 4 * block.position := by
    unfold Block.position pointerIndex sizeT at *
    split_ifs <;> omega
  have address : (sizeT (buffer.base + 4 * position) : Int) = buffer.base + 4 * position :=
    sizeT_eq (by omega) (by omega)
  have extent := sound.extent
  have last : block.size ≠ 0 → 0 ≤ buffer.base + 4 * block.position →
      (sizeT (sizeT (buffer.base + block.base) + block.size) : Int) =
        buffer.base + 4 * block.position + block.size := by
    intro nonempty above
    rw [if_pos above] at first
    rw [first, sizeT_eq] <;> omega
  have fresh : block.size = 0 → sizeT (sizeT (buffer.base + block.base) + block.size) =
      sizeT (buffer.base + block.base) := by
    intro empty
    have small := sizeT_lt (buffer.base + block.base)
    rw [empty]
    unfold sizeT at *
    omega
  unfold Holds Covers
  simp only [words]
  by_cases empty : block.size = 0
  · have noWords : (sizeWords : Int) = 0 := by omega
    rw [if_neg (by rw [fresh empty]; simp), if_pos noWords]
    split_ifs at first <;> omega
  · have someWords : ¬(sizeWords : Int) = 0 := by omega
    rw [if_neg someWords]
    by_cases above : 0 ≤ buffer.base + 4 * block.position
    · have lastEq := last empty above
      rw [if_pos above] at first
      rw [if_pos (by omega)]
      omega
    · rw [if_neg above] at first
      split_ifs <;> omega

/-- The later blocks contain every earlier one, perhaps with more words. -/
def Keeps (before after : List Block) : Prop :=
  ∀ block ∈ before, ∃ later ∈ after, later.base = block.base ∧ block.size ≤ later.size ∧
    ∀ position, block.Covers position → later.Covers position

theorem Keeps.refl (blocks : List Block) : Keeps blocks blocks :=
  fun block member => ⟨block, member, rfl, Nat.le_refl _, fun _ covers => covers⟩

/-- Opening more blocks keeps those there are. -/
theorem Keeps.append {before after : List Block} (keeps : Keeps before after)
    (fresh : List Block) : Keeps before (after ++ fresh) := by
  intro block member
  obtain ⟨later, among, kept⟩ := keeps block member
  exact ⟨later, List.mem_append_left _ among, kept⟩

/-- A search of an address behind the base fails when no block holds the address. -/
theorem searchBlock_eq_none {base address : Nat} {blocks : List Block} (above : base ≤ address) :
    searchBlock base blocks address = none ↔ ∀ block ∈ blocks, ¬block.Holds base address := by
  rw [searchBlock, if_neg (by omega), List.findIdx?_eq_none_iff]
  simp

/-- A search of an address below the base fails. -/
theorem searchBlock_below {base address : Nat} {blocks : List Block} (below : address < base) :
    searchBlock base blocks address = none :=
  if_pos below

/-- Growing keeps what a block covers. -/
theorem Block.Sound.grow_covers {block : Block} (sound : block.Sound dis buffer)
    (inRange : block.position + block.words ≤ buffer.last) {position : Int}
    (covers : block.Covers position) : block.grow.Covers position := by
  have words := block.words_nonneg
  unfold Covers at *
  rw [sound.grow_words inRange, grow_position]
  split_ifs at * <;> omega

theorem Block.close_covers {block : Block} {kind : Flow} {position : Int} :
    (block.close kind).Covers position ↔ block.Covers position := by
  simp [Covers]

namespace AnalyzeState

/-- Taking a word keeps every block, the top one with more words. -/
theorem Sound.set_keeps {state : AnalyzeState} (sound : state.Sound dis buffer) {top : Nat}
    {rest : List Nat} (stack : state.blockStack = top :: rest)
    (inRange : 4 * state.data ≤ buffer.size) (kind : Flow) :
    Keeps state.blocks (state.blocks.set top ((state.current top).grow.close kind)) := by
  intro block member
  obtain ⟨topSound, reach, here, room⟩ := sound.top stack inRange
  have inside := sound.valid top (by simp [stack])
  obtain ⟨index, valid, rfl⟩ := List.getElem_of_mem member
  by_cases isTop : index = top
  · have current_eq : state.current top = state.blocks[index] := by
      rw [current, List.getD_eq_getElem _ _ inside]
      simp [isTop]
    refine ⟨_, List.mem_set inside _, ?_, ?_, ?_⟩
    · simp [current_eq]
    · rw [Block.close_size, topSound.grow_size room, current_eq]
      omega
    · intro position covers
      exact Block.close_covers.mpr (topSound.grow_covers room (current_eq ▸ covers))
  · refine ⟨state.blocks[index], ?_, rfl, Nat.le_refl _, fun _ covers => covers⟩
    rw [List.mem_iff_getElem]
    exact ⟨index, by simpa using valid, List.getElem_set_ne (Ne.symm isTop) _⟩

/-- A pass keeps every block, perhaps with more words. -/
theorem Sound.pass_keeps {state next : AnalyzeState} (sound : state.Sound dis buffer)
    (pass : buffer.Pass dis state next) : Keeps state.blocks next.blocks := by
  cases pass with
  | projected inRange stack reached =>
      rw [resume_blocks]
      exact (Keeps.refl _).append []
  | advance inRange stack running flows => exact sound.set_keeps stack inRange .next
  | @turn top rest kind blocks inRange stack running flows ends closed =>
      rw [resume_blocks, closed]
      exact (sound.set_keeps stack inRange kind).append _

end AnalyzeState

end UfcRecomp.Analyze
