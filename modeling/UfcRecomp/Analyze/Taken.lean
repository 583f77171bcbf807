import UfcRecomp.Analyze.Layout

/-!
# The words that the analysis takes

At the end of a walk, the taken words are those in the blocks that start in the code. Cutting the
sorted blocks at the first gap between neighbours therefore leaves the longest front of taken words.
A word behind a taken one is lost only at the end of the buffer, behind a conditional branch, or
behind a conditional return that is overlooked.
-/

namespace UfcRecomp.Analyze

open UfcRecomp.Ppc UfcRecomp.Lib UfcRecomp.Lib.Worklist

variable {dis : Disassembler} {buffer : CodeBuffer}

/-! ## The end of a walk -/

namespace AtWord

variable {work : Work Block} {block : Block} {rest blocks : List Block}

/-- The turn that takes the word. -/
theorem exists_turn (here : AtWord dis buffer work block rest) :
    ∃ next, buffer.walk dis work = some next ∧ ∃ opened, next.items.Perm
      (opened ++ block.grow.close (flow dis (buffer.code block.here)) ::
        (work.explored ++ rest)) ∧
      (∀ other, other ∈ opened ↔ other ∈ buffer.opened (block.grow.close
        (flow dis (buffer.code block.here)) :: (work.explored ++ rest)) block.grow block.here
        (flow dis (buffer.code block.here))) := by
  by_cases flows : flow dis (buffer.code block.here) = .next
  · refine ⟨_, CodeBuffer.walk_eq_some_iff.mpr
      (.advance here.pending here.inRange here.running flows), [], ?_, ?_⟩
    · rw [flows]
      exact items_stay_perm ..
    · rw [flows]
      exact fun other => Iff.rfl
  · exact ⟨_, CodeBuffer.walk_eq_some_iff.mpr
      (.turn here.pending here.inRange here.running rfl flows), _, items_leave_perm ..,
      fun other => List.mem_reverse⟩

end AtWord

/-- A block after a turn was there before, took the word or was opened behind it. -/
theorem mem_of_turn {work next : Work Block} (walks : buffer.Walks dis work)
    (goes : buffer.walk dis work = some next) {other : Block} (member : other ∈ next.items) :
    other ∈ work.items ∨ ∃ block rest, AtWord dis buffer work block rest ∧
      (other = block.grow.close (flow dis (buffer.code block.here)) ∨
        other ∈ buffer.opened (block.grow.close (flow dis (buffer.code block.here)) ::
          (work.explored ++ rest)) block.grow block.here
          (flow dis (buffer.code block.here))) := by
  have atWord : ∀ block rest, AtWord dis buffer work block rest →
      other ∈ work.items ∨ other = block.grow.close (flow dis (buffer.code block.here)) ∨
        other ∈ buffer.opened (block.grow.close (flow dis (buffer.code block.here)) ::
          (work.explored ++ rest)) block.grow block.here
          (flow dis (buffer.code block.here)) := by
    intro block rest here
    obtain ⟨after, goes', opened, perm, opens⟩ := here.exists_turn
    obtain rfl := Option.some.inj (goes.symm.trans goes')
    rcases List.mem_append.mp (perm.mem_iff.mp member) with new | old
    · exact .inr (.inr ((opens other).mp new))
    · rcases List.mem_cons.mp old with closed | old
      · exact .inr (.inl closed)
      · exact .inl (here.other old)
  cases CodeBuffer.walk_eq_some_iff.mp goes with
  | projected pending _ _ => exact .inl ((Work.items_perm pending).mem_iff.mpr member)
  | @advance block rest pending inRange running _ =>
      have here : AtWord dis buffer work block rest :=
        ⟨walks, .of_walks walks, pending, inRange, running⟩
      exact (atWord block rest here).imp_right fun taken => ⟨block, rest, here, taken⟩
  | @turn block rest kind pending inRange running _ _ =>
      have here : AtWord dis buffer work block rest :=
        ⟨walks, .of_walks walks, pending, inRange, running⟩
      exact (atWord block rest here).imp_right fun taken => ⟨block, rest, here, taken⟩

/-- A block that is projected to its own start stays as it is. -/
theorem mem_of_visits {work next : Work Block} {block : Block} (member : block ∈ work.items)
    (projected : block.projectedSize = 0) (path : Loop.Visits (buffer.walk dis) work next) :
    block ∈ next.items := by
  have reached : block.Reached := by
    unfold Block.Reached
    rw [projected]
    exact ⟨by decide, Nat.zero_le _⟩
  refine @Loop.Visits.invariant _ _ (fun work => block ∈ work.items) _ _ path member ?_
  intro work next member goes
  cases CodeBuffer.walk_eq_some_iff.mp goes with
  | projected pending _ _ => exact (Work.items_perm pending).mem_iff.mp member
  | advance pending _ running _ =>
      rcases List.mem_cons.mp ((Work.items_perm pending).mem_iff.mp member) with rfl | old
      · exact absurd reached running
      · exact (items_stay_perm ..).mem_iff.mpr (List.mem_cons_of_mem _ old)
  | turn pending _ running _ _ =>
      rcases List.mem_cons.mp ((Work.items_perm pending).mem_iff.mp member) with rfl | old
      · exact absurd reached running
      · exact (items_leave_perm ..).mem_iff.mpr
          (List.mem_append_right _ (List.mem_cons_of_mem _ old))

/-- The walk has come to its end. -/
structure Ended (dis : Disassembler) (buffer : CodeBuffer) (work : Work Block) : Prop where
  walks : buffer.Walks dis work
  ends : buffer.walk dis work = none

namespace Ended

variable {last : Work Block}

theorem laid (ended : Ended dis buffer last) : Laid dis buffer last := .of_walks ended.walks

theorem keeps (ended : Ended dis buffer last) {work : Work Block} (walks : buffer.Walks dis work) :
    Keeps work.items last.items :=
  walks.keeps_of_visits (walks.to_last ended.walks ended.ends)

/-- A taken word is in a block of the code at the end. -/
theorem covers_taken (ended : Ended dis buffer last) {position : Int}
    (takes : buffer.Takes dis position) : ∃ block ∈ last.items, 0 ≤ block.position ∧
      block.position ≤ position ∧ position < block.position + block.words := by
  obtain ⟨work, block, rest, walks, pending, nonneg, rfl, inRange, running⟩ := takes
  have here : AtWord dis buffer work block rest :=
    ⟨walks, .of_walks walks, pending, inRange, running⟩
  obtain ⟨next, goes, opened, perm, -⟩ := here.exists_turn
  obtain ⟨later, among, base, size, covers⟩ := ended.keeps (walks.tail goes) _
    (perm.mem_iff.mpr (List.mem_append_right _ List.mem_cons_self))
  have start : later.position = block.position := position_of_keeps (base.trans (by simp))
  have grown := here.grow_words
  rw [Block.close_size] at size
  have words := block.words_nonneg
  refine ⟨later, among, by omega, ?_, ?_⟩
  · unfold Block.here
    omega
  · unfold Block.here
    unfold Block.words at grown words ⊢
    omega

/-- A pending block at a word of the buffer stands behind a conditional branch. -/
theorem branch_of_pending (ended : Ended dis buffer last) {block : Block}
    (member : block ∈ last.pending) (inside : block.here ≤ buffer.last) :
    block.words = 0 ∧ ∃ displacement,
      flow dis (buffer.code (block.position - 1)) = .branch displacement := by
  have ends := CodeBuffer.walk_eq_none_iff.mp ended.ends
  have behind := ended.laid.behind
  cases pending : last.pending with
  | nil =>
      rw [pending] at member
      cases member
  | cons front rest =>
      rw [pending] at member ends behind
      have far := ends front rfl
      rcases List.mem_cons.mp member with rfl | old
      · omega
      · refine ⟨?_, behind block old⟩
        rw [Block.words, ended.walks.waiting pending old]
        rfl

/-- A word in a block of the code was taken, or it was lost for one of two reasons. -/
theorem settled (ended : Ended dis buffer last) {block : Block} (member : block ∈ last.items)
    (nonneg : 0 ≤ block.position) {position : Int} (covers : block.Covers position) :
    buffer.Takes dis position ∨ buffer.Hidden dis position ∨ buffer.Abandoned dis position := by
  by_cases empty : block.words = 0
  · rw [Block.Covers, if_pos empty] at covers
    subst covers
    rcases List.mem_append.mp member with explored | pending
    · rcases ended.laid.done block explored nonneg with ⟨some, -⟩ | ⟨some, -⟩ | ⟨-, hidden⟩
      · omega
      · omega
      · exact .inr (.inl hidden)
    · exact .inr (.inr ⟨last, ended.walks, ended.ends, block, pending, empty, rfl⟩)
  · rw [Block.Covers, if_neg empty] at covers
    exact .inl (ended.laid.taken block member nonneg position covers.1 covers.2)

/-- A hidden word has a block that never takes it. -/
theorem bare_of_hidden (ended : Ended dis buffer last) {position : Int} (nonneg : 0 ≤ position)
    (hidden : buffer.Hidden dis position) : ∃ block ∈ last.items, block.words = 0 ∧
      block.position = position ∧ flow dis (buffer.code (position - 1)) = .branch 4 := by
  obtain ⟨work, block, rest, walks, pending, rfl, inRange, running, flows, missing⟩ := hidden
  have here : AtWord dis buffer work block rest :=
    ⟨walks, .of_walks walks, pending, inRange, running⟩
  obtain ⟨next, goes, opened, perm, opens⟩ := here.exists_turn
  have bounds := here.bounds
  have far := buffer.last_bounds
  rw [flows] at perm opens
  obtain ⟨left, right, isOpened, lefts, -⟩ := opened_branch buffer
    (block.grow.close (.branch 4) :: (work.explored ++ rest)) block.grow block.here 1
  obtain ⟨-, rfl⟩ := lefts.resolve_right fun found => found.1 missing
  have member : (⟨sizeT (4 * (block.here + 1)), 0, sizeT (4 * 1 - 4)⟩ : Block) ∈ next.items := by
    refine perm.mem_iff.mpr (List.mem_append_left _ ((opens _).mpr ?_))
    change _ ∈ buffer.opened _ _ _ (.branch (4 * 1))
    rw [isOpened]
    exact List.mem_cons_self
  refine ⟨_, mem_of_visits member (show sizeT (4 * 1 - 4) = 0 by decide)
    ((walks.tail goes).to_last ended.walks ended.ends), by simp [Block.words], ?_, ?_⟩
  · exact (Block.position_of_base rfl (by omega) (by omega)).resolve_right (by omega)
  · rw [Int.add_sub_cancel]
    exact flows

theorem not_takes_of_hidden (ended : Ended dis buffer last) {position : Int}
    (nonneg : 0 ≤ position) (hidden : buffer.Hidden dis position) :
    ¬buffer.Takes dis position := by
  intro takes
  obtain ⟨other, among, -, low, high⟩ := ended.covers_taken takes
  obtain ⟨block, member, empty, rfl, flows⟩ := ended.bare_of_hidden nonneg hidden
  obtain ⟨_, _, _, _, _, _, _, inside, _⟩ := takes
  exact ended.laid.not_covers_bare member empty nonneg inside flows among low high

theorem not_takes_of_abandoned {position : Int} (nonneg : 0 ≤ position)
    (abandoned : buffer.Abandoned dis position) : ¬buffer.Takes dis position := by
  obtain ⟨work, walks, ends, block, member, empty, rfl⟩ := abandoned
  intro takes
  have ended : Ended dis buffer work := ⟨walks, ends⟩
  obtain ⟨other, among, -, low, high⟩ := ended.covers_taken takes
  have inside : block.position ≤ buffer.last := by
    obtain ⟨_, _, _, _, _, _, _, inRange, _⟩ := takes
    exact inRange
  obtain ⟨-, displacement, flows⟩ := ended.branch_of_pending member (by
    unfold Block.here
    omega)
  exact ended.laid.not_covers_bare (List.mem_append_right _ member) empty nonneg inside flows among
    low high

theorem not_lost_of_takes (ended : Ended dis buffer last) {position : Int} (nonneg : 0 ≤ position)
    (takes : buffer.Takes dis position) : ¬buffer.Lost dis position := by
  rintro (behind | hidden | abandoned)
  · obtain ⟨_, _, _, _, _, _, _, inside, _⟩ := takes
    omega
  · exact ended.not_takes_of_hidden nonneg hidden takes
  · exact not_takes_of_abandoned nonneg abandoned takes

/-- The successors of a word that ended its block are found at the end. -/
theorem found_succ (ended : Ended dis buffer last) {work : Work Block} {block : Block}
    {rest : List Block} (here : AtWord dis buffer work block rest) {kind : Flow}
    (flows : flow dis (buffer.code block.here) = kind) (ends : kind ≠ .next)
    (unseen : kind = .conditionalReturn →
      searchBlock buffer.base (block.grow.close kind :: (work.explored ++ rest))
        (sizeT (4 * block.here + 4)) = none) {next : Int}
    (succ : buffer.Succ dis block.here next) (low : 0 ≤ next) (high : next ≤ buffer.last) :
    Found buffer last.items next := by
  obtain ⟨after, goes, opened, perm, opens⟩ := here.exists_turn
  rw [flows] at perm opens
  refine ((here.opened_found flows ends rfl unseen succ low high).mono (.of_subset ?_)).mono
    (ended.keeps (here.walks.tail goes))
  intro other among
  rw [perm.mem_iff, List.mem_append, opens]
  exact (List.mem_append.mp among).symm

/-- Behind a taken word from which control goes on, the next word is taken unless it is lost. -/
theorem takes_next_iff (ended : Ended dis buffer last) {position : Int} (nonneg : 0 ≤ position)
    (takes : buffer.Takes dis position)
    (goesOn : (flow dis (buffer.code position)).fallsThrough = true)
    (noticed : ¬buffer.Overlooked dis position) :
    buffer.Takes dis (position + 1) ↔ ¬buffer.Lost dis (position + 1) := by
  constructor
  · exact ended.not_lost_of_takes (by omega)
  · intro kept
    simp only [CodeBuffer.Lost, not_or, Int.not_lt] at kept
    obtain ⟨inside, shown, finished⟩ := kept
    have settled : ∀ block ∈ last.items, 0 ≤ block.position → block.Covers (position + 1) →
        buffer.Takes dis (position + 1) := by
      intro block member inCode covers
      rcases ended.settled member inCode covers with takes | hidden | abandoned
      · exact takes
      · exact absurd hidden shown
      · exact absurd abandoned finished
    by_cases flows : flow dis (buffer.code position) = .next
    · obtain ⟨block, member, inCode, low, high⟩ := ended.covers_taken takes
      by_cases further : position + 1 < block.position + block.words
      · exact ended.laid.taken block member inCode _ (by omega) further
      · have isLast : position + 1 = block.position + block.words := by omega
        rcases List.mem_append.mp member with explored | pending
        · rcases ended.laid.done block explored inCode with ⟨-, ends⟩ | ⟨-, handed⟩ | ⟨none, -⟩
          · rw [← isLast, Int.add_sub_cancel] at ends
            exact absurd flows ends
          · obtain ⟨other, among, -, covers, later⟩ := handed
            have start := later inCode
            exact settled other among (by omega) (isLast ▸ covers)
          · omega
        · have empty := (ended.branch_of_pending pending (by
            unfold Block.here
            omega)).1
          omega
    · have finds : Found buffer last.items (position + 1) := by
        by_cases returns : flow dis (buffer.code position) = .conditionalReturn
        · unfold CodeBuffer.Overlooked at noticed
          push Not at noticed
          obtain ⟨work, block, rest, walks, pending, rfl, inRange, running, unseen⟩ :=
            noticed returns
          exact ended.found_succ ⟨walks, .of_walks walks, pending, inRange, running⟩ returns
            (by simp) (fun _ => unseen) (by simp [CodeBuffer.Succ, returns]) (by omega) inside
        · obtain ⟨work, block, rest, walks, pending, -, rfl, inRange, running⟩ := takes
          refine ended.found_succ ⟨walks, .of_walks walks, pending, inRange, running⟩ rfl flows
            (fun isReturn => absurd isReturn returns) ?_ (by omega) inside
          unfold CodeBuffer.Succ
          cases kind : flow dis (buffer.code block.here) with
          | next => exact absurd kind flows
          | conditionalReturn => exact absurd kind returns
          | branch displacement => exact .inl rfl
          | jump displacement | stop => simp [kind, Flow.fallsThrough] at goesOn
      obtain ⟨block, member, -, covers⟩ := finds
      refine settled block member ?_ covers
      by_contra before
      have bounds := covers.bounds
      refine flows (ended.laid.interior block member position (by omega) ?_)
      unfold Block.Covers at covers
      split_ifs at covers <;> omega

/-! ## The kept blocks -/

variable {blocks : List Block}

/-- A word behind the kept blocks is in no block of the code. -/
theorem not_covered_of_gap (ended : Ended dis buffer last)
    (same : ∀ block, block ∈ last.items ↔ block ∈ blocks) {front dropped : List Block}
    {final : Block} (nonneg : 0 ≤ final.position) (perm : (front ++ final :: dropped).Perm blocks)
    (ascending : (front ++ final :: dropped).Pairwise fun left right => left.base ≤ right.base)
    (behind : ∀ later ∈ dropped, final.stop < later.base) {block : Block} (member : block ∈ blocks)
    (inCode : 0 ≤ block.position) (low : block.position ≤ final.position + final.words)
    (high : final.position + final.words < block.position + block.words) : False := by
  have finalMember : final ∈ last.items := (same final).mpr (perm.subset (by simp))
  have sound := ended.walks.sound
  have laid := ended.laid
  have finalBase := (sound final finalMember).base_eq
  have finalStop := (sound final finalMember).stop_eq nonneg
  have words := final.words_nonneg
  rw [if_pos nonneg] at finalBase
  -- a block that starts by the end of the last kept block is no later than it in the order
  have ordered : ∀ other ∈ last.items, 0 ≤ other.position →
      other.position ≤ final.position + final.words → other.position ≤ final.position := by
    intro other among inCode early
    by_contra later
    have base := (sound other among).base_eq
    rw [if_pos inCode] at base
    rcases List.mem_append.mp (perm.mem_iff.mpr ((same other).mp among)) with inFront | inRest
    · have := (List.pairwise_append.mp ascending).2.2 other inFront final List.mem_cons_self
      omega
    · rcases List.mem_cons.mp inRest with rfl | inDropped
      · exact later (Int.le_refl _)
      · have := behind other inDropped
        omega
  have among := (same block).mpr member
  have before := ordered block among inCode low
  have extent := (sound block among).extent
  have some : block.size ≠ 0 := by
    intro empty
    have noWords : block.words = 0 := by
      rw [Block.words, empty]
      rfl
    omega
  have inside : final.position + final.words ≤ buffer.last := by omega
  by_cases empty : final.words = 0
  · have branches : ∃ displacement,
        flow dis (buffer.code (final.position - 1)) = .branch displacement := by
      rcases List.mem_append.mp finalMember with explored | pending
      · rcases laid.done final explored nonneg with ⟨some, -⟩ | ⟨some, -⟩ | ⟨-, hidden⟩
        · omega
        · omega
        · obtain ⟨-, -, -, -, flows⟩ := ended.bare_of_hidden nonneg hidden
          exact ⟨4, flows⟩
      · exact (ended.branch_of_pending pending inside).2
    obtain ⟨displacement, flows⟩ := branches
    exact laid.not_covers_bare finalMember empty nonneg (by omega) flows among (by omega) (by omega)
  · have next := laid.interior block among (final.position + final.words - 1) (by omega) (by omega)
    rcases List.mem_append.mp finalMember with explored | pending
    · rcases laid.done final explored nonneg with ⟨-, ends⟩ | ⟨-, handed⟩ | ⟨none, -⟩
      · exact ends next
      · obtain ⟨other, inItems, -, covers, later⟩ := handed
        have start := later nonneg
        have early := ordered other inItems (by omega) covers.bounds.1
        omega
      · exact empty none
    · exact empty (ended.branch_of_pending pending inside).1

/-- Blocks in front of the code have huge bases, so that none of them is kept behind one that starts
the function. -/
theorem nonneg_of_mem_contiguous {head block : Block} {rest : List Block}
    (sound : ∀ block ∈ head :: rest, block.Sound dis buffer) (start : head.base = 0)
    (kept : block ∈ Sorted.contiguous Block.base Block.stop (head :: rest)) :
    0 ≤ block.position := by
  have bounds := buffer.last_bounds
  have ends : ∀ any ∈ head :: rest, any.base ≤ 2 ^ 63 - 1 → any.stop ≤ 2 ^ 63 - 1 := by
    intro any held low
    have base := (sound any held).base_eq
    have start := Block.position_bounds (sound any held).bounded
    have extent := (sound any held).extent
    split_ifs at base with nonneg
    · have stop := (sound any held).stop_eq nonneg
      unfold Block.words at *
      omega
    · omega
  have low := Sorted.first_le_of_mem_contiguous ends (by omega) kept
  have among := sound block (Sorted.mem_of_mem_contiguous kept)
  have base := among.base_eq
  have start := Block.position_bounds among.bounded
  split_ifs at base <;> omega

/-- Cutting the blocks at the first gap leaves the longest front of words that were taken. -/
theorem size (ended : Ended dis buffer last)
    (same : ∀ block, block ∈ last.items ↔ block ∈ blocks) (sorter : Sorted.Sorter Block.base)
    {first : Block} (firstMember : first ∈ blocks) (start : first.base = 0) :
    ∃ words : Nat, (buffer.analyzeBlocks sorter blocks).size = 4 * words ∧
      (∀ position : Nat, position < words → buffer.Takes dis position) ∧
      ¬buffer.Takes dis words := by
  have sound : ∀ block ∈ blocks, block.Sound dis buffer :=
    fun block member => ended.walks.sound block ((same block).mpr member)
  obtain ⟨sorted, perm, ascending, kept⟩ := @analyzeBlocks_blocks buffer sorter blocks
  cases sorted with
  | nil => simpa using perm.mem_iff.mpr firstMember
  | cons head rest =>
      obtain ⟨front, final, dropped, split, front_eq, behind, covered⟩ :=
        @Sorted.contiguous_split _ Block.base Block.stop _ _ ascending
      have headStart : head.base = 0 := by
        rcases List.mem_cons.mp (perm.mem_iff.mpr firstMember) with rfl | inRest
        · exact start
        · have := (List.pairwise_cons.mp ascending).1 first inRest
          omega
      have nonneg : ∀ block ∈ front ++ [final], 0 ≤ block.position := fun block member =>
        nonneg_of_mem_contiguous (fun any held => sound any (perm.subset held)) headStart
          (front_eq ▸ member)
      rw [split] at perm ascending
      have among : ∀ block ∈ front ++ [final], block ∈ blocks := by
        intro block member
        refine perm.subset ?_
        rw [List.append_cons]
        exact List.mem_append_left _ member
      have base : ∀ block ∈ front ++ [final], (block.base : Int) = 4 * block.position := by
        intro block member
        rw [(sound block (among block member)).base_eq, if_pos (nonneg block member)]
      have stop : ∀ block ∈ front ++ [final],
          (block.stop : Int) = 4 * (block.position + block.words) :=
        fun block member => (sound block (among block member)).stop_eq (nonneg block member)
      have gap := fun block => @not_covered_of_gap _ _ _ _ ended same _ _ _ (nonneg final (by simp))
        perm ascending behind block
      obtain ⟨words, isWords⟩ := Int.eq_ofNat_of_zero_le
        (show 0 ≤ final.position + final.words by
          have := nonneg final (by simp)
          have := final.words_nonneg
          omega)
      have finalStop := stop final (by simp)
      -- a kept block that went further would cover the word behind the last one
      have furthest : ∀ block ∈ front ++ [final], block.stop ≤ final.stop := by
        intro block member
        by_contra further
        have blockStop := stop block member
        have blockBase := base block member
        have finalBase := base final (by simp)
        have finalWords := final.words_nonneg
        refine gap block (among block member) (nonneg block member) ?_ (by omega)
        rcases List.mem_append.mp member with inFront | isFinal
        · have := (List.pairwise_append.mp ascending).2.2 block inFront final List.mem_cons_self
          omega
        · obtain rfl := List.mem_singleton.mp isFinal
          omega
      refine ⟨words, ?_, ?_, ?_⟩
      · have size : (buffer.analyzeBlocks sorter blocks).size =
            (front ++ [final]).foldl (fun size block => max size block.stop) 0 := by
          rw [← front_eq, ← kept]
          rfl
        obtain ⟨-, upper, attained⟩ := @Sorted.furthest_spec _ Block.stop (front ++ [final]) 0
        rw [← size] at upper attained
        have atFinal := upper final (by simp)
        rcases attained with zero | ⟨block, member, same⟩
        · omega
        · have := furthest block member
          omega
      · intro position inside
        obtain ⟨block, member, low, high⟩ := covered (4 * position) (by omega) (by omega)
        have blockStop := stop block member
        have blockBase := base block member
        exact ended.laid.taken block ((same block).mpr (among block member)) (nonneg block member)
          position (by omega) (by omega)
      · intro takes
        obtain ⟨block, member, inCode, low, high⟩ := ended.covers_taken takes
        exact gap block ((same block).mp member) inCode (by omega) (by omega)

end Ended

/-- A completed loop has the blocks of a walk at its end. -/
theorem exists_ended {fuel : Nat} {final : AnalyzeState}
    (completed : Loop.run (buffer.analyzeStep dis) fuel {} = some final) :
    ∃ last, Ended dis buffer last ∧ ∀ block, block ∈ last.items ↔ block ∈ final.blocks := by
  obtain ⟨visits, atEnd⟩ := Loop.visits_of_run completed
  obtain ⟨last, walks, tracks⟩ := walk_follows.visits .initial visits
  exact ⟨last, ⟨walks, tracks.last atEnd⟩, tracks.mem_iff⟩

/-- A function that was analysed word by word consists of the words up to the first one that the
walk does not take. -/
theorem size_of_analyze {sorter : Sorted.Sorter Block.base}
    (noTailCall : buffer.code 1 ≠ 0x48000004) {fuel : Nat} {fn : Function}
    (returned : buffer.analyze dis sorter fuel = some fn) :
    (∃ last, Ended dis buffer last) ∧ ∃ words : Nat, fn.size = 4 * words ∧
      (∀ position : Nat, position < words → buffer.Takes dis position) ∧
      ¬buffer.Takes dis words := by
  rw [CodeBuffer.analyze, if_neg noTailCall] at returned
  obtain ⟨final, completed, rfl⟩ := Option.map_eq_some_iff.mp returned
  obtain ⟨last, ended, same⟩ := exists_ended completed
  obtain ⟨-, -, first, member, start, -⟩ := completed_loop completed
  exact ⟨⟨last, ended⟩, ended.size same sorter member start⟩

end UfcRecomp.Analyze
