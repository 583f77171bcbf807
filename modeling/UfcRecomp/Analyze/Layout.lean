import UfcRecomp.Analyze.Extent
import UfcRecomp.Analyze.Walk

/-!
# What the walk takes and what it loses

A word is taken when the walk comes to it in a block that starts in the code. The blocks of a walk
fit together: control goes on inside a block, a block that comes to its projection hands the next
word over to a later block, and two blocks start at one word only behind a conditional return.
-/

namespace UfcRecomp.Analyze

open UfcRecomp.Ppc UfcRecomp.Lib UfcRecomp.Lib.Worklist

variable {dis : Disassembler} {buffer : CodeBuffer}

namespace CodeBuffer

/-- The walk comes to a worklist. -/
abbrev Walks (dis : Disassembler) (buffer : CodeBuffer) : Work Block → Prop :=
  Loop.Visits (buffer.walk dis) firstBlock

/-- The walk takes a word, in a block that starts in the code or behind it. -/
def Takes (dis : Disassembler) (buffer : CodeBuffer) (position : Int) : Prop :=
  ∃ work block rest, buffer.Walks dis work ∧ work.pending = block :: rest ∧ 0 ≤ block.position ∧
    block.here = position ∧ position ≤ buffer.last ∧ ¬block.Reached

/-- The walk takes a conditional branch to the word behind it, and a search does not find that word.
The block that it opens there is projected to its own start and never takes a word. -/
def Hidden (dis : Disassembler) (buffer : CodeBuffer) (position : Int) : Prop :=
  ∃ work block rest, buffer.Walks dis work ∧ work.pending = block :: rest ∧
    block.here + 1 = position ∧ block.here ≤ buffer.last ∧ ¬block.Reached ∧
    flow dis (buffer.code block.here) = .branch 4 ∧
    searchBlock buffer.base (block.grow.close (.branch 4) :: (work.explored ++ rest))
      (sizeT (buffer.base + 4 * position)) = none

/-- The walk ends behind the buffer while a block without words is pending. -/
def Abandoned (dis : Disassembler) (buffer : CodeBuffer) (position : Int) : Prop :=
  ∃ work, buffer.Walks dis work ∧ buffer.walk dis work = none ∧
    ∃ block ∈ work.pending, block.words = 0 ∧ block.position = position

/-- The word behind a word from which control goes on, when it is not taken. -/
def Lost (dis : Disassembler) (buffer : CodeBuffer) (position : Int) : Prop :=
  buffer.last < position ∨ buffer.Hidden dis position ∨ buffer.Abandoned dis position

/-- A conditional return behind which no block is opened: a search always finds the offset behind
it, which it takes for an address. -/
def Overlooked (dis : Disassembler) (buffer : CodeBuffer) (position : Int) : Prop :=
  flow dis (buffer.code position) = .conditionalReturn ∧
    ∀ work block rest, buffer.Walks dis work → work.pending = block :: rest →
      block.here = position → position ≤ buffer.last → ¬block.Reached →
        searchBlock buffer.base (block.grow.close .conditionalReturn :: (work.explored ++ rest))
          (sizeT (4 * position + 4)) ≠ none

end CodeBuffer

/-! ## The blocks of a walk -/

theorem Keeps.trans {first second third : List Block} (front : Keeps first second)
    (back : Keeps second third) : Keeps first third := by
  intro block member
  obtain ⟨middle, among, base, size, covers⟩ := front block member
  obtain ⟨last, inLast, lastBase, lastSize, lastCovers⟩ := back middle among
  exact ⟨last, inLast, lastBase.trans base, Nat.le_trans size lastSize,
    fun position covered => lastCovers position (covers position covered)⟩

theorem Keeps.of_subset {before after : List Block} (subset : before ⊆ after) :
    Keeps before after :=
  fun block member => ⟨block, subset member, rfl, Nat.le_refl _, fun _ covers => covers⟩

namespace CodeBuffer.Walks

variable {work next : Work Block}

theorem state (walks : buffer.Walks dis work) :
    ∃ state, AnalyzeState.Tracks dis buffer state work :=
  have ⟨state, _, tracks⟩ := loop_follows.visits .initial walks
  ⟨state, tracks⟩

theorem sound (walks : buffer.Walks dis work) : ∀ block ∈ work.items, block.Sound dis buffer := by
  obtain ⟨state, tracks⟩ := walks.state
  exact fun block member => tracks.sound.blocks block ((tracks.mem_iff block).mp member)

/-- Behind the running block, no block has been entered. -/
theorem waiting (walks : buffer.Walks dis work) {block : Block} {rest : List Block}
    (pending : work.pending = block :: rest) {other : Block} (member : other ∈ rest) :
    other.size = 0 := by
  obtain ⟨state, tracks⟩ := walks.state
  have stack := tracks.pending
  rw [pending] at stack
  cases isStack : state.blockStack with
  | nil => simp [isStack] at stack
  | cons top below =>
      rw [isStack, List.map_cons] at stack
      obtain ⟨-, rfl⟩ := List.cons.inj stack
      obtain ⟨index, among, rfl⟩ := List.mem_map.mp member
      exact tracks.sound.waiting index (by rw [isStack]; exact among)

/-- Control comes to the next word of the running block. -/
theorem reach (walks : buffer.Walks dis work) {block : Block} {rest : List Block}
    (pending : work.pending = block :: rest) (inRange : block.here ≤ buffer.last) :
    buffer.Reach dis block.here := by
  obtain ⟨state, tracks⟩ := walks.state
  have stack := tracks.pending
  rw [pending] at stack
  cases isStack : state.blockStack with
  | nil => simp [isStack] at stack
  | cons top below =>
      obtain ⟨isFront, here⟩ := tracks.front isStack
      obtain ⟨rfl, -⟩ := List.cons.inj (pending.symm.trans isFront)
      rw [here] at inRange ⊢
      exact (tracks.sound.top isStack (CodeBuffer.inRange_iff.mpr inRange)).2.1

/-- A turn keeps every block, perhaps with more words. -/
theorem keeps (walks : buffer.Walks dis work) (turn : buffer.walk dis work = some next) :
    Keeps work.items next.items := by
  obtain ⟨state, tracks⟩ := walks.state
  cases step : buffer.analyzeStep dis state with
  | none => exact absurd (turn.symm.trans (tracks.last step)) (Option.some_ne_none _)
  | some after =>
      have pass := CodeBuffer.pass_of_step step
      obtain ⟨work', turn', tracks'⟩ := tracks.pass pass
      obtain rfl := Option.some.inj (turn.symm.trans turn')
      have before : Keeps work.items state.blocks :=
        .of_subset fun block => (tracks.mem_iff block).mp
      have after : Keeps after.blocks next.items :=
        .of_subset fun block => (tracks'.mem_iff block).mpr
      exact (before.trans (tracks.sound.pass_keeps pass)).trans after

theorem keeps_of_visits (walks : buffer.Walks dis work)
    (path : Loop.Visits (buffer.walk dis) work next) : Keeps work.items next.items := by
  induction path with
  | refl => exact .refl _
  | tail path turn ih => exact ih.trans (CodeBuffer.Walks.keeps (walks.trans path) turn)

end CodeBuffer.Walks

/-! ## What a search finds -/

/-- A block with an address covers a word. -/
def Found (buffer : CodeBuffer) (blocks : List Block) (position : Int) : Prop :=
  ∃ block ∈ blocks, 0 ≤ buffer.base + 4 * block.position ∧ block.Covers position

/-- A block that starts behind a given one covers a word. -/
def Handed (buffer : CodeBuffer) (blocks : List Block) (block : Block) (position : Int) : Prop :=
  ∃ other ∈ blocks, 0 ≤ buffer.base + 4 * other.position ∧ other.Covers position ∧
    (0 ≤ block.position → block.position < other.position)

theorem search_iff {blocks : List Block} (sound : ∀ block ∈ blocks, block.Sound dis buffer)
    {position : Int} (low : 0 ≤ position) (high : position ≤ buffer.last + 2 ^ 24) :
    searchBlock buffer.base blocks (sizeT (buffer.base + 4 * position)) = none ↔
      ¬Found buffer blocks position := by
  rw [searchBlock_eq_none (buffer.base_le_address low high)]
  constructor
  · rintro missing ⟨block, member, covers⟩
    exact missing block member (((sound block member).holds_iff low high).mpr covers)
  · intro missing block member holds
    exact missing ⟨block, member, ((sound block member).holds_iff low high).mp holds⟩

theorem position_of_keeps {block later : Block} (base : later.base = block.base) :
    later.position = block.position := by
  rw [Block.position, base, Block.position]

theorem Found.mono {before after : List Block} (keeps : Keeps before after) {position : Int}
    (found : Found buffer before position) : Found buffer after position := by
  obtain ⟨block, member, addressed, covers⟩ := found
  obtain ⟨later, among, base, -, kept⟩ := keeps block member
  exact ⟨later, among, position_of_keeps base ▸ addressed, kept position covers⟩

theorem Handed.mono {before after : List Block} (keeps : Keeps before after) {block : Block}
    {position : Int} (handed : Handed buffer before block position) :
    Handed buffer after block position := by
  obtain ⟨other, member, addressed, covers, behind⟩ := handed
  obtain ⟨later, among, base, -, kept⟩ := keeps other member
  have start := position_of_keeps base
  exact ⟨later, among, start ▸ addressed, kept position covers, start ▸ behind⟩

/-- A fresh block covers its start only. -/
theorem Block.covers_of_fresh {block : Block} (fresh : block.size = 0) {position : Int} :
    block.Covers position ↔ position = block.position := by
  simp [Covers, words, fresh]

theorem Block.covers_start (block : Block) : block.Covers block.position := by
  have words := block.words_nonneg
  unfold Covers
  split_ifs <;> omega

theorem Block.Covers.bounds {block : Block} {position : Int} (covers : block.Covers position) :
    block.position ≤ position ∧ position ≤ block.position + block.words := by
  have words := block.words_nonneg
  unfold Covers at covers
  split_ifs at covers <;> omega

/-- A block that covers a word covers the words between its start and that word. -/
theorem Block.Covers.before {block : Block} {first position : Int} (covers : block.Covers position)
    (low : block.position ≤ first) (high : first ≤ position) : block.Covers first := by
  unfold Covers at *
  split_ifs at * <;> omega

/-- When a word is not found, a later word that is found is in a block that starts in between. -/
theorem handed_of_found {blocks : List Block} {block : Block} {first position : Int}
    (found : Found buffer blocks position) (missing : ¬Found buffer blocks first)
    (before : block.position ≤ first) (behind : first ≤ position) :
    Handed buffer blocks block position := by
  obtain ⟨other, member, addressed, covers⟩ := found
  refine ⟨other, member, addressed, covers, fun _ => ?_⟩
  by_contra early
  exact missing ⟨other, member, addressed, covers.before (by omega) behind⟩

/-- The blocks that a conditional branch opens: the one behind it, unless a search finds that word,
and the one at its target. -/
theorem opened_branch (buffer : CodeBuffer) (blocks : List Block) (curBlock : Block)
    (position words : Int) :
    ∃ left right, buffer.opened blocks curBlock position (.branch (4 * words)) = left ++ right ∧
      (searchBlock buffer.base blocks (sizeT (buffer.base + 4 * (position + 1))) = none ∧
          left = [⟨sizeT (4 * (position + 1)), 0, sizeT (4 * words - 4)⟩] ∨
        searchBlock buffer.base blocks (sizeT (buffer.base + 4 * (position + 1))) ≠ none ∧
          left = []) ∧
      (searchBlock buffer.base (blocks ++ left) (sizeT (buffer.base + 4 * (position + words))) =
          none ∧ right = [⟨sizeT (4 * (position + words)), 0, npos⟩] ∨
        searchBlock buffer.base (blocks ++ left) (sizeT (buffer.base + 4 * (position + words))) ≠
          none ∧ right = []) := by
  have next : (buffer.base : Int) + 4 * position + 4 = buffer.base + 4 * (position + 1) := by omega
  have target : (buffer.base : Int) + 4 * position + 4 * words =
      buffer.base + 4 * (position + words) := by omega
  have left : 4 * position + 4 = 4 * (position + 1) := by omega
  have right : 4 * position + 4 * words = 4 * (position + words) := by omega
  have opens : ∀ (missing : Prop) [Decidable missing] (fresh : Block),
      missing ∧ (if missing then [fresh] else []) = [fresh] ∨
        ¬missing ∧ (if missing then [fresh] else []) = [] := by
    intro missing decides fresh
    by_cases holds : missing
    · exact .inl ⟨holds, if_pos holds⟩
    · exact .inr ⟨holds, if_neg holds⟩
  simp only [CodeBuffer.opened, next, target, left, right]
  exact ⟨_, _, rfl, opens _ _, opens _ _⟩

/-! ## How the blocks fit together -/

/-- A projection ends at a word of a later block, at the hidden start of the block itself, or
outside the buffer. -/
def Projects (dis : Disassembler) (buffer : CodeBuffer) (blocks : List Block) (block : Block) :
    Prop :=
  block.projectedSize ≠ npos → ∃ words : Nat, block.projectedSize = 4 * words ∧
    block.words ≤ words ∧ (buffer.last < block.position + words ∨ block.position + words < 0 ∨
      words = 0 ∧ buffer.Hidden dis block.position ∨
        Handed buffer blocks block (block.position + words))

/-- A block that was worked off ends with a word from which control does not go on, in front of a
word that a later block has, or at once, when its start is hidden. -/
def Done (dis : Disassembler) (buffer : CodeBuffer) (blocks : List Block) (block : Block) : Prop :=
  0 < block.words ∧ flow dis (buffer.code (block.position + block.words - 1)) ≠ .next ∨
    0 < block.words ∧ Handed buffer blocks block (block.position + block.words) ∨
      block.words = 0 ∧ buffer.Hidden dis block.position

/-- Two blocks start at one word of the buffer only behind a conditional return. -/
def Apart (dis : Disassembler) (buffer : CodeBuffer) (left right : Block) : Prop :=
  left.position = right.position → 0 ≤ left.position → left.position ≤ buffer.last →
    flow dis (buffer.code (left.position - 1)) = .conditionalReturn

/-- Control goes from word to word inside a block. -/
def Block.Runs (dis : Disassembler) (buffer : CodeBuffer) (block : Block) : Prop :=
  ∀ position, block.position ≤ position → position + 1 < block.position + block.words →
    flow dis (buffer.code position) = .next

/-- The words of a block that starts in the code are taken. -/
def Block.Taken (dis : Disassembler) (buffer : CodeBuffer) (block : Block) : Prop :=
  0 ≤ block.position → ∀ position, block.position ≤ position →
    position < block.position + block.words → buffer.Takes dis position

/-- What holds of the blocks of a walk. -/
structure Laid (dis : Disassembler) (buffer : CodeBuffer) (work : Work Block) : Prop where
  interior : ∀ block ∈ work.items, block.Runs dis buffer
  /-- Control goes on behind a pending block. -/
  running : ∀ block ∈ work.pending, ∀ position, block.position ≤ position →
    position < block.position + block.words → flow dis (buffer.code position) = .next
  /-- Only a conditional branch leaves a block behind another one. -/
  behind : ∀ block ∈ work.pending.tail, ∃ displacement,
    flow dis (buffer.code (block.position - 1)) = .branch displacement
  projects : ∀ block ∈ work.items, Projects dis buffer work.items block
  done : ∀ block ∈ work.explored, 0 ≤ block.position → Done dis buffer work.items block
  apart : work.items.Pairwise (Apart dis buffer)
  taken : ∀ block ∈ work.items, block.Taken dis buffer

theorem Projects.mono {before after : List Block} (keeps : Keeps before after) {block : Block}
    (projects : Projects dis buffer before block) : Projects dis buffer after block := by
  intro projected
  obtain ⟨words, size, within, aims⟩ := projects projected
  exact ⟨words, size, within, aims.imp_right (Or.imp_right (Or.imp_right (Handed.mono keeps)))⟩

theorem Done.mono {before after : List Block} (keeps : Keeps before after) {block : Block}
    (done : Done dis buffer before block) : Done dis buffer after block :=
  done.imp_right (Or.imp_left (And.imp_right (Handed.mono keeps)))

theorem Projects.close {blocks : List Block} {block : Block}
    (projects : Projects dis buffer blocks block) (kind : Flow) :
    Projects dis buffer blocks (block.close kind) := by
  cases kind with
  | branch displacement => exact fun projected => absurd rfl projected
  | _ => exact projects

/-- The projection of a block that takes another word. -/
theorem Projects.grow {blocks : List Block} {block : Block}
    (projects : Projects dis buffer blocks block) (sound : block.Sound dis buffer)
    (running : ¬block.Reached) (room : block.here ≤ buffer.last) :
    Projects dis buffer blocks block.grow := by
  intro projected
  obtain ⟨words, size, within, aims⟩ := projects projected
  refine ⟨words, size, ?_, aims⟩
  have notYet : block.size < block.projectedSize := by
    by_contra far
    exact running ⟨projected, by omega⟩
  obtain ⟨-, count, aligned⟩ := sound.aligned
  rw [sound.grow_words room]
  unfold Block.words at within ⊢
  omega

theorem Apart.symm {left right : Block} (apart : Apart dis buffer left right) :
    Apart dis buffer right left := by
  intro same nonneg inside
  rw [same] at nonneg inside ⊢
  exact apart same.symm nonneg inside

instance : Std.Symm (Apart dis buffer) := ⟨fun _ _ => Apart.symm⟩

/-! ## Taking a word -/

/-- The walk is about to take a word. -/
structure AtWord (dis : Disassembler) (buffer : CodeBuffer) (work : Work Block) (block : Block)
    (rest : List Block) : Prop where
  walks : buffer.Walks dis work
  laid : Laid dis buffer work
  pending : work.pending = block :: rest
  inRange : block.here ≤ buffer.last
  running : ¬block.Reached

namespace AtWord

variable {work : Work Block} {block : Block} {rest blocks : List Block}

theorem member (here : AtWord dis buffer work block rest) : block ∈ work.items :=
  (Work.items_perm here.pending).mem_iff.mpr List.mem_cons_self

theorem other (here : AtWord dis buffer work block rest) {other : Block}
    (among : other ∈ work.explored ++ rest) : other ∈ work.items :=
  (Work.items_perm here.pending).mem_iff.mpr (List.mem_cons_of_mem _ among)

theorem sound (here : AtWord dis buffer work block rest) : block.Sound dis buffer :=
  here.walks.sound block here.member

theorem grow_words (here : AtWord dis buffer work block rest) :
    block.grow.words = block.words + 1 :=
  here.sound.grow_words here.inRange

theorem grow_sound (here : AtWord dis buffer work block rest) : block.grow.Sound dis buffer :=
  here.sound.grow here.inRange (here.walks.reach here.pending here.inRange)

theorem bounds (here : AtWord dis buffer work block rest) :
    -2 ^ 61 ≤ block.here ∧ block.here ≤ buffer.last := by
  have start := Block.position_bounds here.sound.bounded
  have words := block.words_nonneg
  have inRange := here.inRange
  unfold Block.here at *
  omega

theorem takes (here : AtWord dis buffer work block rest) (nonneg : 0 ≤ block.position) :
    buffer.Takes dis block.here :=
  ⟨work, block, rest, here.walks, here.pending, nonneg, rfl, here.inRange, here.running⟩

/-- The blocks with the one that took the word. -/
theorem closed_sound (here : AtWord dis buffer work block rest) (kind : Flow) :
    ∀ other ∈ block.grow.close kind :: (work.explored ++ rest), other.Sound dis buffer := by
  intro other among
  rcases List.mem_cons.mp among with rfl | old
  · exact here.grow_sound.close kind
  · exact here.walks.sound other (here.other old)

theorem closed_keeps (here : AtWord dis buffer work block rest) (kind : Flow) :
    Keeps work.items (block.grow.close kind :: (work.explored ++ rest)) := by
  intro other among
  rcases List.mem_cons.mp ((Work.items_perm here.pending).mem_iff.mp among) with rfl | old
  · refine ⟨_, List.mem_cons_self, by simp, ?_, fun position covers => ?_⟩
    · rw [Block.close_size, here.sound.grow_size here.inRange]
      omega
    · exact Block.close_covers.mpr (here.sound.grow_covers here.inRange covers)
  · exact ⟨other, List.mem_cons_of_mem _ old, rfl, Nat.le_refl _, fun _ covers => covers⟩

/-- Where an opened block starts. A start far in front of the code wraps behind the buffer. -/
theorem opened_start (here : AtWord dis buffer work block rest) {kind : Flow}
    (flows : flow dis (buffer.code block.here) = kind) {blocks : List Block} {fresh : Block}
    (member : fresh ∈ buffer.opened blocks block.grow block.here kind) :
    fresh.size = 0 ∧ fresh.Sound dis buffer ∧ ∃ next, buffer.Succ dis block.here next ∧
      (kind = .conditionalReturn ∨
        searchBlock buffer.base blocks (sizeT (buffer.base + 4 * next)) = none) ∧
      (fresh.position = next ∨ buffer.last < fresh.position ∧ next < 0) := by
  obtain ⟨empty, next, succ, base, reason⟩ := succ_of_mem_opened flows member
  have bounds := here.bounds
  have last := buffer.last_bounds
  have near := succ.near
  refine ⟨empty, .of_succ (here.walks.reach here.pending here.inRange) bounds.1 bounds.2 succ base
    empty, next, succ, reason, ?_⟩
  exact (Block.position_of_base base (by omega) (by omega)).imp_right fun far => by omega

/-- A block opened at a word of the buffer is the only one that starts there, unless it stands
behind a conditional return. -/
theorem opened_apart (here : AtWord dis buffer work block rest) {kind : Flow}
    (flows : flow dis (buffer.code block.here) = kind) {fresh other : Block}
    (member : fresh ∈ buffer.opened (block.grow.close kind :: (work.explored ++ rest)) block.grow
      block.here kind)
    (among : other ∈ block.grow.close kind :: (work.explored ++ rest)) :
    Apart dis buffer fresh other := by
  intro same nonneg inside
  obtain ⟨-, -, next, succ, reason, start⟩ := here.opened_start flows member
  obtain rfl := start.resolve_right (by omega)
  rcases reason with rfl | missing
  · simp only [CodeBuffer.Succ, flows] at succ
    rw [succ, Int.add_sub_cancel, flows]
  · rw [search_iff (here.closed_sound kind) nonneg (by omega)] at missing
    exact absurd ⟨other, among, by omega, same ▸ other.covers_start⟩ missing

theorem opened_sound (here : AtWord dis buffer work block rest) {kind : Flow}
    (flows : flow dis (buffer.code block.here) = kind) {blocks : List Block}
    (sound : ∀ other ∈ blocks, other.Sound dis buffer) :
    ∀ other ∈ blocks ++ buffer.opened blocks block.grow block.here kind,
      other.Sound dis buffer := by
  intro other member
  rcases List.mem_append.mp member with old | new
  · exact sound other old
  · exact (here.opened_start flows new).2.1

/-- The two blocks that a conditional branch opens start apart. -/
theorem opened_pairwise (here : AtWord dis buffer work block rest) {kind : Flow}
    (flows : flow dis (buffer.code block.here) = kind) {blocks : List Block}
    (sound : ∀ other ∈ blocks, other.Sound dis buffer) :
    (buffer.opened blocks block.grow block.here kind).Pairwise (Apart dis buffer) := by
  have openedSound := here.opened_sound flows sound
  have bounds := here.bounds
  have last := buffer.last_bounds
  cases kind with
  | next | stop => exact .nil
  | conditionalReturn | jump displacement =>
      rw [CodeBuffer.opened]
      split_ifs
      · exact List.pairwise_singleton _ _
      · exact .nil
  | branch displacement =>
      obtain ⟨⟨words, rfl⟩, low, high⟩ := branch_displacement flows
      obtain ⟨left, right, opens, lefts, rights⟩ :=
        opened_branch buffer blocks block.grow block.here words
      rw [opens] at openedSound ⊢
      rcases rights with ⟨missing, rfl⟩ | ⟨-, rfl⟩
      · rcases lefts with ⟨-, rfl⟩ | ⟨-, rfl⟩
        · refine List.pairwise_pair.mpr fun same nonneg inside => ?_
          generalize (⟨sizeT (4 * (block.here + 1)), 0, sizeT (4 * words - 4)⟩ : Block) = left
            at *
          have start := @Block.position_of_base ⟨sizeT (4 * (block.here + words)), 0, npos⟩
            (block.here + words) rfl (by omega) (by omega)
          have isStart := start.resolve_right (by omega)
          rw [← isStart, search_iff (fun other among => openedSound other (by
            rw [← List.singleton_append, ← List.append_assoc]
            exact List.mem_append_left _ among)) (by omega) (by omega)] at missing
          refine absurd ⟨left, List.mem_append_right _ (List.mem_singleton.mpr rfl), by omega, ?_⟩
            missing
          rw [← same]
          exact left.covers_start
        · exact List.pairwise_singleton _ _
      · rcases lefts with ⟨-, rfl⟩ | ⟨-, rfl⟩
        · exact List.pairwise_singleton _ _
        · exact .nil

/-- A found word behind the start of a block is in a later one, when a search did not find the
start. -/
theorem handed_of_missing (sound : ∀ other ∈ blocks, other.Sound dis buffer) {fresh : Block}
    (missing : searchBlock buffer.base blocks (sizeT (buffer.base + 4 * fresh.position)) = none)
    (high : fresh.position ≤ buffer.last + 2 ^ 24) {position : Int}
    (found : Found buffer blocks position) (behind : fresh.position ≤ position) :
    Handed buffer blocks fresh position := by
  by_cases low : 0 ≤ fresh.position
  · rw [search_iff sound low high] at missing
    exact handed_of_found found missing (Int.le_refl _) behind
  · obtain ⟨other, member, addressed, covers⟩ := found
    exact ⟨other, member, addressed, covers, fun nonneg => absurd nonneg low⟩

/-- The block behind a conditional branch is projected to the target. -/
theorem left_projects (here : AtWord dis buffer work block rest) {words : Int}
    (flows : flow dis (buffer.code block.here) = .branch (4 * words)) {right : List Block}
    (isClosed : blocks = block.grow.close (.branch (4 * words)) :: (work.explored ++ rest))
    {left : Block} (isLeft : left = ⟨sizeT (4 * (block.here + 1)), 0, sizeT (4 * words - 4)⟩)
    (missing : searchBlock buffer.base blocks (sizeT (buffer.base + 4 * (block.here + 1))) = none)
    (rights : searchBlock buffer.base (blocks ++ [left])
        (sizeT (buffer.base + 4 * (block.here + words))) = none ∧
          right = [⟨sizeT (4 * (block.here + words)), 0, npos⟩] ∨
      searchBlock buffer.base (blocks ++ [left])
        (sizeT (buffer.base + 4 * (block.here + words))) ≠ none ∧ right = [])
    (sound : ∀ other ∈ blocks ++ [left], other.Sound dis buffer) :
    Projects dis buffer (blocks ++ ([left] ++ right)) left := by
  have bounds := here.bounds
  have last := buffer.last_bounds
  obtain ⟨-, low, high⟩ := branch_displacement flows
  have base : left.base = sizeT (4 * (block.here + 1)) := by rw [isLeft]
  have size : left.projectedSize = sizeT (4 * words - 4) := by rw [isLeft]
  have fresh : left.size = 0 := by rw [isLeft]
  have empty : left.words = 0 := by rw [Block.words, fresh]; rfl
  have start := Block.position_of_base base (by omega) (by omega)
  intro _
  rw [size]
  by_cases forward : 1 ≤ words
  · have value : (sizeT (4 * words - 4) : Int) = 4 * words - 4 := sizeT_eq (by omega) (by omega)
    refine ⟨(words - 1).toNat, by omega, by omega, ?_⟩
    by_cases inside : 0 ≤ block.here + words ∧ block.here + words ≤ buffer.last
    · have isStart : left.position = block.here + 1 := start.resolve_right (by omega)
      have target : left.position + ((words - 1).toNat : Int) = block.here + words := by omega
      refine .inr (.inr ?_)
      rw [target]
      by_cases next : words = 1
      · subst next
        refine .inl ⟨rfl, work, block, rest, here.walks, here.pending, isStart.symm, here.inRange,
          here.running, flows, ?_⟩
        rw [isStart, ← missing, isClosed]
        rfl
      · refine .inr ?_
        rcases rights with ⟨missing, rfl⟩ | ⟨found, rfl⟩
        · have rightStart := @Block.position_of_base ⟨sizeT (4 * (block.here + words)), 0, npos⟩
            _ rfl (by omega) (by omega)
          have isRight := rightStart.resolve_right (by omega)
          generalize (⟨sizeT (4 * (block.here + words)), 0, npos⟩ : Block) = other at isRight ⊢
          refine ⟨other, by simp, by omega, ?_, by omega⟩
          rw [← isRight]
          exact other.covers_start
        · rw [Ne, search_iff sound inside.1 (by omega), not_not] at found
          obtain ⟨other, member, addressed, covers⟩ := found
          have among : other ∈ blocks := by
            refine (List.mem_append.mp member).resolve_right fun isLeft => ?_
            rw [List.mem_singleton.mp isLeft, Block.covers_of_fresh fresh] at covers
            omega
          rw [← isStart] at missing
          refine (handed_of_missing (fun other among =>
            sound other (List.mem_append_left _ among)) missing (by omega)
            ⟨other, among, addressed, covers⟩ (by omega)).mono (.of_subset ?_)
          exact List.subset_append_left _ _
    · omega
  · have value : (sizeT (4 * words - 4) : Int) = 2 ^ 64 + (4 * words - 4) := by
      unfold sizeT
      omega
    refine ⟨(2 ^ 62 + words - 1).toNat, by omega, by omega, .inl ?_⟩
    omega

/-- A block that goes on with a jump to the next word hands over its projection. -/
theorem jump_projects (here : AtWord dis buffer work block rest) {words : Int}
    (flows : flow dis (buffer.code block.here) = .jump (4 * words))
    (isClosed : blocks = block.grow.close (.jump (4 * words)) :: (work.explored ++ rest))
    {fresh : Block} (isFresh : fresh = ⟨sizeT (4 * (block.here + words)), 0,
      CodeBuffer.projection block.grow block.here (4 * words)⟩)
    (missing : searchBlock buffer.base blocks (sizeT (buffer.base + 4 * (block.here + words))) =
      none) : Projects dis buffer blocks fresh := by
  have bounds := here.bounds
  have last := buffer.last_bounds
  have grown := here.grow_sound
  have grownWords := here.grow_words
  have someWords := block.words_nonneg
  have ended : block.position + block.words = block.here := rfl
  obtain ⟨-, low, high⟩ := jump_displacement flows
  have base : fresh.base = sizeT (4 * (block.here + words)) := by rw [isFresh]
  have noSize : fresh.size = 0 := by rw [isFresh]
  have empty : fresh.words = 0 := by rw [Block.words, noSize]; rfl
  intro projected
  have size : fresh.projectedSize = CodeBuffer.projection block.grow block.here (4 * words) := by
    rw [isFresh]
  have continuous : block.grow.projectedSize ≠ npos ∧
      sizeT (4 * block.here + 4 * words) = block.grow.stop := by
    by_contra separate
    exact projected (size.trans (if_neg separate))
  obtain rfl : words = 1 := by
    have same := continuous.2
    rw [grown.stop_congr, Block.grow_position, grownWords] at same
    unfold sizeT at same
    omega
  have isStart : fresh.position = block.here + 1 :=
    (Block.position_of_base base (by omega) (by omega)).resolve_right (by omega)
  have fits : block.projectedSize < 2 ^ 64 :=
    (fits_of_visits here.walks block here.member).2.2
  obtain ⟨target, projection, within, aims⟩ :=
    ((here.laid.projects block here.member).mono (here.closed_keeps (.jump (4 * 1)))).grow
      here.sound here.running here.inRange continuous.1
  rw [← isClosed, Block.grow_position] at aims
  have carried : fresh.projectedSize = sizeT (block.grow.projectedSize - block.grow.size) :=
    size.trans (if_pos continuous)
  obtain ⟨-, count, aligned⟩ := grown.aligned
  have countWords : block.grow.words = count := by
    unfold Block.words
    omega
  rw [Block.grow_projectedSize] at projection carried
  refine ⟨target - count, ?_, by omega, ?_⟩
  · rw [carried, projection, aligned]
    unfold sizeT
    omega
  · have same : fresh.position + ((target - count : Nat) : Int) = block.position + target := by
      omega
    rw [same]
    rcases aims with behind | before | ⟨rfl, -⟩ | ⟨other, member, addressed, covers, -⟩
    · exact .inl behind
    · exact .inr (.inl before)
    · omega
    · rw [← isStart] at missing
      have sound := here.closed_sound (.jump (4 * 1))
      rw [← isClosed] at sound
      exact .inr (.inr (.inr (handed_of_missing sound missing (by omega)
        ⟨other, member, addressed, covers⟩ (by omega))))

/-- The projections of the opened blocks. -/
theorem opened_projects (here : AtWord dis buffer work block rest) {kind : Flow}
    (flows : flow dis (buffer.code block.here) = kind)
    (isClosed : blocks = block.grow.close kind :: (work.explored ++ rest)) {fresh : Block}
    (member : fresh ∈ buffer.opened blocks block.grow block.here kind) :
    Projects dis buffer (blocks ++ buffer.opened blocks block.grow block.here kind) fresh := by
  have sound := here.closed_sound kind
  rw [← isClosed] at sound
  cases kind with
  | next | stop => simp [CodeBuffer.opened] at member
  | conditionalReturn =>
      simp only [CodeBuffer.opened, List.mem_ite_nil_right, List.mem_singleton] at member
      obtain ⟨-, rfl⟩ := member
      exact fun projected => absurd rfl projected
  | jump displacement =>
      obtain ⟨⟨words, rfl⟩, -, -⟩ := jump_displacement flows
      refine Projects.mono (.of_subset (List.subset_append_left _ _)) ?_
      simp only [CodeBuffer.opened, List.mem_ite_nil_right, List.mem_singleton] at member
      obtain ⟨⟨-, missing⟩, isFresh⟩ := member
      rw [← Int.mul_add] at isFresh
      rw [Int.add_assoc, ← Int.mul_add] at missing
      exact here.jump_projects flows isClosed isFresh missing
  | branch displacement =>
      obtain ⟨⟨words, rfl⟩, -, -⟩ := branch_displacement flows
      have openedSound := here.opened_sound flows sound
      obtain ⟨left, right, opens, lefts, rights⟩ :=
        opened_branch buffer blocks block.grow block.here words
      rw [opens] at member openedSound ⊢
      rcases List.mem_append.mp member with isLeft | isRight
      · rcases lefts with ⟨missing, rfl⟩ | ⟨-, rfl⟩
        · obtain rfl := List.mem_singleton.mp isLeft
          refine here.left_projects flows isClosed rfl missing rights fun other among => ?_
          refine openedSound other ?_
          rw [← List.append_assoc]
          exact List.mem_append_left _ among
        · cases isLeft
      · rcases rights with ⟨-, rfl⟩ | ⟨-, rfl⟩
        · obtain rfl := List.mem_singleton.mp isRight
          exact fun projected => absurd rfl projected
        · cases isRight

theorem found_of_fresh {items : List Block} {fresh : Block} (member : fresh ∈ items) {next : Int}
    (base : fresh.base = sizeT (4 * next)) (low : 0 ≤ next) (high : next ≤ buffer.last) :
    Found buffer items next := by
  have last := buffer.last_bounds
  have start : fresh.position = next :=
    (Block.position_of_base base (by omega) (by omega)).resolve_right (by omega)
  exact ⟨fresh, member, by omega, start ▸ fresh.covers_start⟩

/-- After a word that ends its block, a search finds the successors of the word. -/
theorem opened_found (here : AtWord dis buffer work block rest) {kind : Flow}
    (flows : flow dis (buffer.code block.here) = kind) (ends : kind ≠ .next)
    (isClosed : blocks = block.grow.close kind :: (work.explored ++ rest))
    (unseen : kind = .conditionalReturn →
      searchBlock buffer.base blocks (sizeT (4 * block.here + 4)) = none) {next : Int}
    (succ : buffer.Succ dis block.here next) (low : 0 ≤ next) (high : next ≤ buffer.last) :
    Found buffer (blocks ++ buffer.opened blocks block.grow block.here kind) next := by
  have last := buffer.last_bounds
  have sound := here.closed_sound kind
  rw [← isClosed] at sound
  have openedSound := here.opened_sound flows sound
  have finds : ∀ items more, (∀ other ∈ items, Block.Sound dis buffer other) →
      searchBlock buffer.base items (sizeT (buffer.base + 4 * next)) ≠ none → items ⊆ more →
        Found buffer more next := by
    intro items more sound found subset
    rw [Ne, search_iff sound low (by omega), not_not] at found
    exact found.mono (.of_subset subset)
  unfold CodeBuffer.Succ at succ
  rw [flows] at succ
  cases kind with
  | next => exact absurd rfl ends
  | stop => exact succ.elim
  | conditionalReturn =>
      have opens : buffer.opened blocks block.grow block.here .conditionalReturn =
          [⟨sizeT (4 * block.here + 4), 0, npos⟩] := if_pos (unseen rfl)
      rw [opens]
      refine found_of_fresh (List.mem_append_right _ List.mem_cons_self) ?_ low high
      change sizeT _ = _
      rw [show next = block.here + 1 from succ, Int.mul_add]
      rfl
  | jump displacement =>
      obtain ⟨target, above⟩ := succ
      rw [Int.add_assoc, ← target] at above
      by_cases missing : searchBlock buffer.base blocks (sizeT (buffer.base + 4 * next)) = none
      · refine @found_of_fresh buffer _ ⟨sizeT (4 * block.here + displacement), 0,
          CodeBuffer.projection block.grow block.here displacement⟩ ?_ next ?_ low high
        · simp [CodeBuffer.opened, Int.add_assoc, ← target, above, missing]
        · change sizeT _ = _
          rw [target]
      · exact finds _ _ sound missing (List.subset_append_left _ _)
  | branch displacement =>
      obtain ⟨⟨words, rfl⟩, -, -⟩ := branch_displacement flows
      obtain ⟨left, right, opens, lefts, rights⟩ :=
        opened_branch buffer blocks block.grow block.here words
      rw [opens] at openedSound ⊢
      rcases succ with rfl | target
      · rcases lefts with ⟨-, rfl⟩ | ⟨found, -⟩
        · exact found_of_fresh (List.mem_append_right _ (List.mem_append_left _
            List.mem_cons_self)) rfl low high
        · exact finds _ _ sound found (List.subset_append_left _ _)
      · obtain rfl : next = block.here + words := by omega
        rcases rights with ⟨-, rfl⟩ | ⟨found, -⟩
        · exact found_of_fresh (List.mem_append_right _ (List.mem_append_right _
            List.mem_cons_self)) rfl low high
        · rw [← List.append_assoc] at openedSound ⊢
          exact finds _ _ (fun other among => openedSound other (List.mem_append_left _ among))
            found (List.subset_append_left _ _)

/-- Only the block behind a conditional branch is opened behind another one. -/
theorem opened_behind (here : AtWord dis buffer work block rest) {kind : Flow}
    (flows : flow dis (buffer.code block.here) = kind) {other : Block}
    (among : other ∈ ((buffer.opened blocks block.grow block.here kind).reverse ++ rest).tail) :
    other ∈ rest ∨
      other.position = block.here + 1 ∧ ∃ displacement, kind = .branch displacement := by
  cases kind with
  | next | stop => exact .inl (List.mem_of_mem_tail among)
  | conditionalReturn | jump displacement =>
      rw [CodeBuffer.opened] at among
      split_ifs at among
      · exact .inl among
      · exact .inl (List.mem_of_mem_tail among)
  | branch displacement =>
      obtain ⟨⟨words, rfl⟩, -, -⟩ := branch_displacement flows
      obtain ⟨left, right, opens, lefts, rights⟩ :=
        opened_branch buffer blocks block.grow block.here words
      rw [opens] at among
      rcases lefts with ⟨-, rfl⟩ | ⟨-, rfl⟩ <;> rcases rights with ⟨-, rfl⟩ | ⟨-, rfl⟩
      · rcases List.mem_cons.mp among with rfl | old
        · have bounds := here.bounds
          have last := buffer.last_bounds
          refine .inr ⟨?_, _, rfl⟩
          exact (Block.position_of_base rfl (by omega) (by omega)).resolve_right (by omega)
        · exact .inl old
      · exact .inl among
      · exact .inl among
      · exact .inl (List.mem_of_mem_tail among)

/-- What holds of the blocks after a word was taken. -/
theorem took (here : AtWord dis buffer work block rest) {kind : Flow}
    (flows : flow dis (buffer.code block.here) = kind)
    (isClosed : blocks = block.grow.close kind :: (work.explored ++ rest)) {items : List Block}
    (perm : items.Perm (blocks ++ buffer.opened blocks block.grow block.here kind)) :
    (∀ other ∈ items, other.Runs dis buffer) ∧ (∀ other ∈ items, Projects dis buffer items other) ∧
      items.Pairwise (Apart dis buffer) ∧ ∀ other ∈ items, other.Taken dis buffer := by
  have grownWords := here.grow_words
  have empty : ∀ other ∈ buffer.opened blocks block.grow block.here kind, other.words = 0 := by
    intro other new
    rw [Block.words, (here.opened_start flows new).1]
    rfl
  have closed : ∀ {motive : Block → Prop}, motive (block.grow.close kind) →
      (∀ other ∈ work.items, motive other) →
      (∀ other ∈ buffer.opened blocks block.grow block.here kind, motive other) →
      ∀ other ∈ items, motive other := by
    intro motive top old new other among
    rcases List.mem_append.mp (perm.mem_iff.mp among) with before | fresh
    · rw [isClosed] at before
      rcases List.mem_cons.mp before with rfl | before
      · exact top
      · exact old other (here.other before)
    · exact new other fresh
  have keeps : Keeps work.items items := by
    refine (here.closed_keeps kind).trans (.of_subset ?_)
    rw [← isClosed]
    exact fun other among => perm.mem_iff.mpr (List.mem_append_left _ among)
  have sound := here.closed_sound kind
  rw [← isClosed] at sound
  refine ⟨closed ?_ here.laid.interior ?_, closed ?_ ?_ ?_, ?_, closed ?_ here.laid.taken ?_⟩
  · intro position low high
    rw [Block.close_position, Block.grow_position] at low high
    rw [Block.close_words, grownWords] at high
    exact here.laid.running block (by rw [here.pending]; exact List.mem_cons_self) position low
      (by omega)
  · intro other new position low high
    rw [empty other new] at high
    omega
  · exact (((here.laid.projects block here.member).mono keeps).grow here.sound here.running
      here.inRange).close kind
  · exact fun other among => (here.laid.projects other among).mono keeps
  · exact fun other new => (here.opened_projects flows isClosed new).mono
      (.of_subset perm.symm.subset)
  · rw [perm.pairwise_iff Apart.symm]
    refine List.pairwise_append.mpr ⟨?_, here.opened_pairwise flows sound, ?_⟩
    · have old := ((Work.items_perm here.pending).pairwise_iff Apart.symm).mp here.laid.apart
      rw [List.pairwise_cons] at old
      rw [isClosed, List.pairwise_cons]
      refine ⟨fun other among => ?_, old.2⟩
      have apart := old.1 other among
      unfold Apart at apart ⊢
      rwa [Block.close_position, Block.grow_position]
    · intro other among fresh new
      subst isClosed
      exact (here.opened_apart flows new among).symm
  · intro nonneg position low high
    rw [Block.close_position, Block.grow_position] at nonneg low high
    rw [Block.close_words, grownWords] at high
    by_cases isLast : position = block.here
    · exact isLast ▸ here.takes nonneg
    · unfold Block.here at isLast
      exact here.laid.taken block here.member nonneg position low (by omega)
  · intro other new nonneg position low high
    rw [empty other new] at high
    omega

end AtWord

namespace Laid

theorem initial : Laid dis buffer firstBlock where
  interior := by
    intro block member position low high
    obtain rfl := List.mem_singleton.mp member
    change position + 1 < 0 + 0 at high
    change 0 ≤ position at low
    omega
  running := by
    intro block member position low high
    obtain rfl := List.mem_singleton.mp member
    change position < 0 + 0 at high
    change 0 ≤ position at low
    omega
  behind := by
    intro block member
    cases member
  projects := by
    intro block member projected
    obtain rfl := List.mem_singleton.mp member
    exact absurd rfl projected
  done := by
    intro block member
    cases member
  apart := List.pairwise_singleton _ _
  taken := by
    intro block member nonneg position low high
    obtain rfl := List.mem_singleton.mp member
    change position < 0 + 0 at high
    change 0 ≤ position at low
    omega

variable {work next : Work Block}

/-- A block that has come to its projection is done. -/
theorem done_of_reached (walks : buffer.Walks dis work) (laid : Laid dis buffer work)
    {block : Block} {rest : List Block} (pending : work.pending = block :: rest)
    (inRange : block.here ≤ buffer.last) (reached : block.Reached) (nonneg : 0 ≤ block.position) :
    Done dis buffer work.items block := by
  have member : block ∈ work.items :=
    (Work.items_perm pending).mem_iff.mpr List.mem_cons_self
  obtain ⟨-, count, aligned⟩ := (walks.sound block member).aligned
  obtain ⟨words, size, within, aims⟩ := laid.projects block member reached.1
  have far := reached.2
  have ended : block.words = words := by
    unfold Block.words at within ⊢
    omega
  unfold Block.here at inRange
  rcases aims with behind | before | ⟨rfl, hidden⟩ | handed
  · omega
  · omega
  · exact .inr (.inr ⟨ended, hidden⟩)
  · rw [← ended] at handed
    refine .inr (.inl ⟨?_, handed⟩)
    obtain ⟨other, -, -, covers, later⟩ := handed
    have bounds := covers.bounds
    have start := later nonneg
    omega

/-- A turn keeps the blocks fitting together. -/
theorem turn (walks : buffer.Walks dis work) (laid : Laid dis buffer work)
    (goes : buffer.walk dis work = some next) : Laid dis buffer next := by
  have keeps := walks.keeps goes
  cases CodeBuffer.walk_eq_some_iff.mp goes with
  | @projected block rest pending inRange reached =>
      have perm : (⟨block :: work.explored, rest⟩ : Work Block).items.Perm work.items :=
        (Work.items_perm pending).symm
      have below := laid.behind
      rw [pending] at below
      refine ⟨fun other among => laid.interior other (perm.mem_iff.mp among), ?_,
        fun other among => below other (List.mem_of_mem_tail among),
        fun other among => (laid.projects other (perm.mem_iff.mp among)).mono keeps, ?_,
        (perm.pairwise_iff Apart.symm).mpr laid.apart,
        fun other among => laid.taken other (perm.mem_iff.mp among)⟩
      · intro other among position low high
        rw [Block.words, walks.waiting pending among] at high
        omega
      · intro other among nonneg
        rcases List.mem_cons.mp among with rfl | old
        · exact (done_of_reached walks laid pending inRange reached nonneg).mono keeps
        · exact (laid.done other old nonneg).mono keeps
  | @advance block rest pending inRange running flows =>
      have here : AtWord dis buffer work block rest := ⟨walks, laid, pending, inRange, running⟩
      have perm : (⟨work.explored, block.grow :: rest⟩ : Work Block).items.Perm
          (block.grow.close .next :: (work.explored ++ rest) ++ []) := by
        rw [List.append_nil]
        exact items_stay_perm ..
      have grown := here.grow_words
      have below := laid.behind
      rw [pending] at below
      obtain ⟨interior, projects, apart, taken⟩ := here.took flows rfl perm
      refine ⟨interior, ?_, below, projects,
        fun other among nonneg => (laid.done other among nonneg).mono keeps, apart, taken⟩
      intro other among position low high
      rcases List.mem_cons.mp among with rfl | old
      · rw [Block.grow_position] at low high
        rw [grown] at high
        by_cases isLast : position = block.here
        · exact isLast ▸ flows
        · unfold Block.here at isLast
          exact laid.running block (by rw [pending]; exact List.mem_cons_self) position low
            (by omega)
      · rw [Block.words, walks.waiting pending old] at high
        omega
  | @turn block rest kind pending inRange running flows ends =>
      have here : AtWord dis buffer work block rest := ⟨walks, laid, pending, inRange, running⟩
      have perm := items_leave_perm work.explored (buffer.opened (block.grow.close kind ::
        (work.explored ++ rest)) block.grow block.here kind).reverse rest (block.grow.close kind)
      have grown := here.grow_words
      have words := block.words_nonneg
      have below := laid.behind
      rw [pending] at below
      obtain ⟨interior, projects, apart, taken⟩ := here.took flows rfl
        (perm.trans (((List.reverse_perm _).append_right _).trans List.perm_append_comm))
      refine ⟨interior, ?_, ?_, projects, ?_, apart, taken⟩
      · intro other among position low high
        have empty : other.size = 0 := by
          rcases List.mem_append.mp among with new | old
          · exact (here.opened_start flows (List.mem_reverse.mp new)).1
          · exact walks.waiting pending old
        rw [Block.words, empty] at high
        omega
      · intro other among
        rcases here.opened_behind flows among with old | ⟨start, displacement, rfl⟩
        · exact below other old
        · rw [start, Int.add_sub_cancel]
          exact ⟨displacement, flows⟩
      · intro other among nonneg
        rcases List.mem_cons.mp among with rfl | old
        · refine .inl ⟨?_, ?_⟩
          · rw [Block.close_words, grown]
            omega
          · have isLast : block.position + (block.words + 1) - 1 = block.here := by
              unfold Block.here
              omega
            rw [Block.close_position, Block.close_words, Block.grow_position, grown, isLast, flows]
            exact ends
        · exact (laid.done other old nonneg).mono keeps

/-- The blocks of a walk fit together. -/
theorem of_walks (walks : buffer.Walks dis work) : Laid dis buffer work := by
  induction walks with
  | refl => exact .initial
  | tail walks goes ih => exact turn walks ih goes

/-- A block without words behind a conditional branch starts at a word that no block has. -/
theorem not_covers_bare (laid : Laid dis buffer work) {bare other : Block}
    (member : bare ∈ work.items) (empty : bare.words = 0) (nonneg : 0 ≤ bare.position)
    (inside : bare.position ≤ buffer.last) {displacement : Int}
    (flows : flow dis (buffer.code (bare.position - 1)) = .branch displacement)
    (among : other ∈ work.items) (low : other.position ≤ bare.position)
    (high : bare.position < other.position + other.words) : False := by
  by_cases same : other.position = bare.position
  · have different : bare ≠ other := by
      rintro rfl
      omega
    have returns := laid.apart.forall member among different same.symm nonneg inside
    rw [flows] at returns
    cases returns
  · have next := laid.interior other among (bare.position - 1) (by omega) (by omega)
    rw [flows] at next
    cases next

end Laid

end UfcRecomp.Analyze
