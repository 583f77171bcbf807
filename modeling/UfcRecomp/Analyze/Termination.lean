import Mathlib.Data.Finset.Card
import UfcRecomp.Analyze.Walk

/-!
# When the analysis ends

A block at a word of the buffer is opened only when no block covers the word, which
can happen once for each word. Two kinds of blocks escape this bound: those in front
of the code, which a search never finds, and those behind a conditional return, which
are searched for under the wrong address. The analysis ends when control cannot take
steps of these two kinds for ever, and exactly when the walk does not come back to a
block with nothing new known.
-/

namespace UfcRecomp.Analyze

open UfcRecomp.Ppc UfcRecomp.Lib

variable {dis : Disassembler} {buffer : CodeBuffer}

/-- A step that the analysis may repeat: to a word in front of the code, or to the word behind
an ordinary instruction or a conditional return. -/
def CodeBuffer.Descends (dis : Disassembler) (buffer : CodeBuffer) (position next : Int) : Prop :=
  buffer.Succ dis position next ∧ 4 * position ≤ buffer.size ∧
    (next < 0 ∨ flow dis (buffer.code position) = .next ∨
      flow dis (buffer.code position) = .conditionalReturn)

/-- The number of words of the buffer that a search does not find. -/
def CodeBuffer.uncovered (buffer : CodeBuffer) (blocks : List Block) : Nat :=
  ((Finset.range (buffer.size / 4 + 1)).filter fun position : Nat =>
    searchBlock buffer.base blocks (sizeT (buffer.base + 4 * position)) = none).card

/-- A word that is found stays found. -/
theorem searchBlock_of_keeps {before after : List Block}
    (soundBefore : ∀ block ∈ before, block.Sound dis buffer)
    (soundAfter : ∀ block ∈ after, block.Sound dis buffer)
    (keeps : Keeps before after) {position : Int} (low : 0 ≤ position) (high : position ≤ buffer.last + 2 ^ 24)
    (missing : searchBlock buffer.base after (sizeT (buffer.base + 4 * position)) = none) :
    searchBlock buffer.base before (sizeT (buffer.base + 4 * position)) = none := by
  have above := buffer.base_le_address low high
  rw [searchBlock_eq_none above] at missing ⊢
  intro block member holds
  obtain ⟨later, among, base, -, covers⟩ := keeps block member
  have held := ((soundBefore block member).holds_iff low high).mp holds
  have same : later.position = block.position := by simp [Block.position, base]
  refine missing later among (((soundAfter later among).holds_iff low high).mpr ?_)
  exact ⟨same ▸ held.1, covers position held.2⟩

/-- Keeping what is covered does not raise the number of uncovered words. -/
theorem uncovered_le {before after : List Block}
    (soundBefore : ∀ block ∈ before, block.Sound dis buffer)
    (soundAfter : ∀ block ∈ after, block.Sound dis buffer)
    (keeps : Keeps before after) :
    buffer.uncovered after ≤ buffer.uncovered before := by
  refine Finset.card_le_card fun position member => ?_
  rw [Finset.mem_filter, Finset.mem_range] at member ⊢
  refine ⟨member.1, searchBlock_of_keeps soundBefore soundAfter keeps (by omega) ?_ member.2⟩
  unfold CodeBuffer.last
  omega

/-- Covering a word lowers the number of uncovered words. -/
theorem uncovered_lt {before after : List Block}
    (soundBefore : ∀ block ∈ before, block.Sound dis buffer)
    (soundAfter : ∀ block ∈ after, block.Sound dis buffer)
    (keeps : Keeps before after) {position : Int} (low : 0 ≤ position) (high : position ≤ buffer.last)
    (missing : searchBlock buffer.base before (sizeT (buffer.base + 4 * position)) = none)
    {block : Block} (member : block ∈ after) (start : block.position = position)
    (fresh : block.size = 0) : buffer.uncovered after < buffer.uncovered before := by
  have above := buffer.base_le_address low (by omega)
  have last := CodeBuffer.inRange_iff.mpr high
  refine Finset.card_lt_card (Finset.ssubset_iff_subset_ne.mpr ⟨?_, ?_⟩)
  · intro other among
    rw [Finset.mem_filter, Finset.mem_range] at among ⊢
    refine ⟨among.1, searchBlock_of_keeps soundBefore soundAfter keeps (by omega) ?_ among.2⟩
    unfold CodeBuffer.last
    omega
  · intro same
    obtain ⟨index, rfl⟩ := Int.eq_ofNat_of_zero_le low
    have among : index ∈ (Finset.range (buffer.size / 4 + 1)).filter fun position : Nat =>
        searchBlock buffer.base before (sizeT (buffer.base + 4 * position)) = none := by
      rw [Finset.mem_filter, Finset.mem_range]
      exact ⟨by omega, missing⟩
    rw [← same, Finset.mem_filter, searchBlock_eq_none above] at among
    refine among.2 block member (((soundAfter block member).holds_iff low (by omega)).mpr ?_)
    rw [Block.Covers, Block.words, fresh, start]
    exact ⟨by omega, by simp⟩

/-- Why a block may be opened at a successor of a word: the step descends, it leaves the
buffer, or no block covers the successor. -/
theorem opened_cases {blocks : List Block} {curBlock block : Block} {position : Int} {kind : Flow}
    (flows : flow dis (buffer.code position) = kind) (inRange : 4 * position ≤ buffer.size)
    (member : block ∈ buffer.opened blocks curBlock position kind) :
    ∃ next, buffer.Succ dis position next ∧ block.base = sizeT (4 * next) ∧
      (buffer.Descends dis position next ∨ buffer.last < next ∨ 0 ≤ next ∧ next ≤ buffer.last ∧
        searchBlock buffer.base blocks (sizeT (buffer.base + 4 * next)) = none) := by
  obtain ⟨-, next, succ, base, reason⟩ := succ_of_mem_opened flows member
  refine ⟨next, succ, base, ?_⟩
  rcases reason with returns | missing
  · exact .inl ⟨succ, inRange, .inr (.inr (flows.trans returns))⟩
  · by_cases negative : next < 0
    · exact .inl ⟨succ, inRange, .inl negative⟩
    · by_cases behind : buffer.last < next
      · exact .inr (.inl behind)
      · exact .inr (.inr ⟨by omega, by omega, missing⟩)

/-- Why the analysis of a block may not go on for ever, given the uncovered words at the word
that opened it. -/
def Bounded (dis : Disassembler) (buffer : CodeBuffer) (position : Int) (words : Nat)
    (state : AnalyzeState) (index : Nat) : Prop :=
  buffer.last < (state.current index).position ∨
    buffer.Descends dis position (state.current index).position ∨
    buffer.uncovered state.blocks < words

/-- The continuation of a state whose stack has come down to `rest`. -/
def Resumes (dis : Disassembler) (buffer : CodeBuffer) (state : AnalyzeState)
    (rest : List Nat) : Prop :=
  ∀ later : AnalyzeState, later.Sound dis buffer → later.blockStack = rest →
    buffer.uncovered later.blocks ≤ buffer.uncovered state.blocks →
    (∀ index ∈ rest, later.current index = state.current index) →
    Loop.Terminates (buffer.analyzeStep dis) later

/-- A state whose stack is empty or whose next word lies behind the buffer is at the end. -/
theorem terminates_of_end {state : AnalyzeState}
    (atEnd : state.blockStack = [] ∨ buffer.last < state.data) :
    Loop.Terminates (buffer.analyzeStep dis) state := by
  refine Loop.terminates_of_none ?_
  rw [CodeBuffer.analyzeStep]
  rcases atEnd with empty | behind
  · simp [empty]
  · rw [if_neg (by rw [CodeBuffer.inRange_iff]; omega)]

/-- Blocks that were just opened are worked off one after the other. -/
theorem terminates_of_pushed {position : Int} {words : Nat}
    (ended : ∀ {state : AnalyzeState} {top rest}, state.Sound dis buffer →
      state.blockStack = top :: rest →
      buffer.Descends dis position state.data ∧ buffer.uncovered state.blocks ≤ words ∨
        buffer.uncovered state.blocks < words →
      Resumes dis buffer state rest → Loop.Terminates (buffer.analyzeStep dis) state)
    {pushed rest : List Nat} {state : AnalyzeState} (sound : state.Sound dis buffer)
    (stack : state.blockStack = pushed ++ rest)
    (fresh : ∀ index ∈ pushed, (state.current index).size = 0)
    (few : buffer.uncovered state.blocks ≤ words)
    (bounded : ∀ index ∈ pushed, Bounded dis buffer position words state index)
    (resumes : Resumes dis buffer state rest) :
    Loop.Terminates (buffer.analyzeStep dis) state := by
  induction pushed generalizing state with
  | nil => exact resumes state sound stack (Nat.le_refl _) fun _ _ => rfl
  | cons top pushed ih =>
      have here := sound.here top (by simp [stack])
      have empty : (state.current top).words = 0 := by
        simp [Block.words, fresh top List.mem_cons_self]
      rw [empty, Int.add_zero] at here
      rcases bounded top List.mem_cons_self with behind | descends | fewer
      · exact terminates_of_end (.inr (here ▸ behind))
      all_goals
        refine ended sound stack ?_ ?_
        · first
            | exact .inl ⟨here ▸ descends, few⟩
            | exact .inr fewer
        · intro later laterSound laterStack covers same
          refine ih laterSound laterStack ?_ (Nat.le_trans covers few) ?_ ?_
          · intro index member
            rw [same index (List.mem_append_left _ member)]
            exact fresh index (List.mem_cons_of_mem _ member)
          · intro index member
            have unchanged := same index (List.mem_append_left _ member)
            have before := bounded index (List.mem_cons_of_mem _ member)
            unfold Bounded at before ⊢
            rw [unchanged]
            exact before.imp_right (Or.imp_right fun fewer => by omega)
          · intro final finalSound finalStack finalCovers finalSame
            refine resumes final finalSound finalStack (Nat.le_trans finalCovers covers) ?_
            intro index member
            rw [finalSame index member, same index (List.mem_append_right _ member)]

/-- A block that was opened at a word is worked off in a bounded number of passes. -/
theorem bounded_of_opened {state : AnalyzeState} (sound : state.Sound dis buffer) {top : Nat}
    {rest : List Nat} (stack : state.blockStack = top :: rest)
    (inRange : 4 * state.data ≤ buffer.size) {kind : Flow}
    (flows : flow dis (buffer.code state.data) = kind) {blocks fresh : List Block}
    (closed : blocks = state.blocks.set top ((state.current top).grow.close kind))
    (opens : fresh = buffer.opened blocks (state.current top).grow state.data kind)
    (nextSound : (AnalyzeState.resume blocks fresh rest state.data).Sound dis buffer)
    {index : Nat} (low : blocks.length ≤ index) (high : index < blocks.length + fresh.length) :
    Bounded dis buffer state.data (buffer.uncovered state.blocks)
      (AnalyzeState.resume blocks fresh rest state.data) index := by
  have among := @AnalyzeState.current_resume_fresh blocks fresh rest state.data index low high
  rw [Bounded]
  generalize (AnalyzeState.resume blocks fresh rest state.data).current index = block at among ⊢
  have member : block ∈ buffer.opened blocks (state.current top).grow state.data kind :=
    opens ▸ among
  obtain ⟨empty, -⟩ := succ_of_mem_opened flows member
  obtain ⟨next, succ, base, reason⟩ := opened_cases flows inRange member
  obtain ⟨topSound, reach, here, room⟩ := sound.top stack inRange
  have start := Block.position_bounds topSound.bounded
  have words := (state.current top).words_nonneg
  have near := succ.near
  have bounds := buffer.last_bounds
  rcases Block.position_of_base base (by omega) (by omega) with same | ⟨far, -⟩
  · rw [same]
    rcases reason with descends | behind | ⟨nonneg, inside, missing⟩
    · exact .inr (.inl descends)
    · exact .inl behind
    · have setSound := sound.set_top ((topSound.grow room (here ▸ reach)).close kind) top
      have keeps := sound.set_keeps stack inRange kind
      refine .inr (.inr (uncovered_lt sound.blocks nextSound.blocks ?_ nonneg inside ?_ ?_ same
        empty))
      · rw [AnalyzeState.resume_blocks, closed]
        exact keeps.append fresh
      · exact searchBlock_of_keeps sound.blocks setSound keeps nonneg (by omega)
          (closed ▸ missing)
      · rw [AnalyzeState.resume_blocks]
        exact List.mem_append_right _ among
  · exact .inl (by omega)

/-- A state from whose next word control cannot descend for ever ends, when it ends after the
blocks below the top one were resumed. The induction is on the uncovered words and, while
their number stays, on the steps down from the word. -/
theorem terminates_of_resumes
    (wellFounded : ∀ position, buffer.Reach dis position →
      Acc (fun next position => buffer.Descends dis position next) position)
    {state : AnalyzeState} (sound : state.Sound dis buffer) {top : Nat} {rest : List Nat}
    (stack : state.blockStack = top :: rest) (resumes : Resumes dis buffer state rest) :
    Loop.Terminates (buffer.analyzeStep dis) state := by
  have main : ∀ words position,
      Acc (fun next position => buffer.Descends dis position next) position →
      ∀ {state : AnalyzeState} {top rest}, state.Sound dis buffer →
        state.blockStack = top :: rest → state.data = position →
        buffer.uncovered state.blocks ≤ words → Resumes dis buffer state rest →
        Loop.Terminates (buffer.analyzeStep dis) state := by
    intro words
    induction words using Nat.strong_induction_on with
    | _ words fewer =>
      intro position acc
      induction acc with
      | intro position _ descend =>
        intro state top rest sound stack isHere few resumes
        subst isHere
        cases step : buffer.analyzeStep dis state with
        | none => exact Loop.terminates_of_none step
        | some next =>
            have effect := CodeBuffer.pass_of_step step
            have nextSound := sound.pass effect
            have covers : buffer.uncovered next.blocks ≤ buffer.uncovered state.blocks :=
              uncovered_le sound.blocks nextSound.blocks (sound.pass_keeps effect)
            refine Loop.terminates_of_some step ?_
            cases effect with
            | @projected top' rest' inRange stack' reached =>
                obtain ⟨rfl, rfl⟩ := List.cons.inj (stack.symm.trans stack')
                refine resumes _ nextSound ?_ covers ?_
                · rw [AnalyzeState.resume_blockStack]
                  rfl
                · intro index member
                  refine AnalyzeState.current_resume_of_mem (sound.valid index ?_)
                  rw [stack]
                  exact List.mem_cons_of_mem _ member
            | @advance top' rest' inRange stack' running flows =>
                obtain ⟨rfl, rfl⟩ := List.cons.inj (stack.symm.trans stack')
                have below := fun index => @AnalyzeState.Sound.below_top _ _ _ sound _ _ stack
                  (state.current top).grow index
                have succ : buffer.Succ dis state.data (state.data + 1) := by
                  simp [CodeBuffer.Succ, flows]
                refine descend (state.data + 1) ⟨succ, inRange, .inr (.inl flows)⟩ nextSound stack
                  rfl (Nat.le_trans covers few) ?_
                · intro later laterSound laterStack laterCovers same
                  refine resumes later laterSound laterStack (Nat.le_trans laterCovers covers) ?_
                  intro index member
                  exact (same index member).trans (below index member).1
            | @turn top' rest' kind blocks inRange stack' running flows ends closed =>
                obtain ⟨rfl, rfl⟩ := List.cons.inj (stack.symm.trans stack')
                have below := fun index => @AnalyzeState.Sound.below_top _ _ _ sound _ _ stack
                  ((state.current top).grow.close kind) index
                refine @terminates_of_pushed dis buffer state.data words ?_ _ _ _ nextSound
                  (AnalyzeState.resume_blockStack ..) ?_ (Nat.le_trans covers few) ?_ ?_
                · intro state top rest sound stack reason resumes
                  rcases reason with ⟨descends, few⟩ | less
                  · exact descend _ descends sound stack rfl few resumes
                  · rcases sound.arrived (by simp [stack]) with reach | behind
                    · exact fewer _ less _ (wellFounded _ reach) sound stack rfl (Nat.le_refl _)
                        resumes
                    · exact terminates_of_end (.inr behind)
                · intro index member
                  rw [List.mem_reverse, List.mem_range'_1] at member
                  have among := @AnalyzeState.current_resume_fresh blocks _ rest state.data _
                    member.1 member.2
                  exact (succ_of_mem_opened flows among).1
                · intro index member
                  rw [List.mem_reverse, List.mem_range'_1] at member
                  have bounded := bounded_of_opened sound stack inRange flows closed rfl nextSound
                    member.1 member.2
                  exact bounded.imp_right (Or.imp_right fun less => by omega)
                · intro later laterSound laterStack laterCovers same
                  refine resumes later laterSound laterStack (Nat.le_trans laterCovers covers) ?_
                  intro index member
                  have inside := (below index member).2.2
                  rw [same index member, AnalyzeState.current_resume_of_mem (by simpa [closed]),
                    closed, (below index member).1]
  rcases sound.arrived (by simp [stack]) with reach | behind
  · exact main _ _ (wellFounded _ reach) sound stack rfl (Nat.le_refl _) resumes
  · exact terminates_of_end (.inr behind)

/-- The loop ends when control cannot descend for ever from a word it comes to. -/
theorem terminates_of_acc
    (wellFounded : ∀ position, buffer.Reach dis position →
      Acc (fun next position => buffer.Descends dis position next) position) :
    Loop.Terminates (buffer.analyzeStep dis) {} :=
  terminates_of_resumes wellFounded .initial rfl fun _ _ stack _ _ =>
    terminates_of_end (.inl stack)

/-- Without words in front of the code, control descends only to the end of the buffer. -/
theorem acc_of_nonneg (nonneg : ∀ position, buffer.Reach dis position → 0 ≤ position)
    {position : Int} (reach : buffer.Reach dis position) :
    Acc (fun next position => buffer.Descends dis position next) position := by
  generalize distance : (buffer.last + 1 - position).toNat = words
  induction words using Nat.strong_induction_on generalizing position with
  | _ words ih =>
      refine .intro _ fun next descends => ?_
      have reachNext := reach.step descends.2.1 descends.1
      have inside := CodeBuffer.inRange_iff.mp descends.2.1
      have behind := nonneg next reachNext
      have follows : next = position + 1 := by
        have succ := descends.1
        unfold CodeBuffer.Succ at succ
        rcases descends.2.2 with negative | flows | flows
        · omega
        · simpa [flows] using succ
        · simpa [flows] using succ
      exact ih _ (by omega) reachNext rfl

/-- No block is ever dropped while the loop runs. -/
theorem length_le_of_visits {state later : AnalyzeState}
    (visits : Loop.Visits (buffer.analyzeStep dis) state later) :
    state.blocks.length ≤ later.blocks.length := by
  refine @Loop.Visits.invariant _ _ (fun later => state.blocks.length ≤ later.blocks.length) _ _
    visits (Nat.le_refl _) ?_
  intro state next few step
  refine Nat.le_trans few ?_
  cases CodeBuffer.pass_of_step step with
  | projected inRange stack reached => simp
  | advance inRange stack running flows => simp
  | turn inRange stack running flows ends closed => simp [closed]

/-- The analysis returns when its loop ends. -/
theorem analyze_of_terminates (sorter : Sorted.Sorter Block.base)
    (terminates : Loop.Terminates (buffer.analyzeStep dis) {}) :
    ∃ fuel fn, buffer.analyze dis sorter fuel = some fn := by
  obtain ⟨fuel, final, completed⟩ := terminates
  by_cases tailCall : buffer.code 1 = 0x48000004
  · exact ⟨0, _, if_pos tailCall⟩
  · exact ⟨fuel, _, by rw [CodeBuffer.analyze, if_neg tailCall, completed, Option.map_some]⟩

/-- The analysis returns exactly when it does not look at the words or when the walk never comes back
to a block that it works off with the same blocks known. -/
theorem exists_analyze_iff (sorter : Sorted.Sorter Block.base) :
    (∃ fuel fn, buffer.analyze dis sorter fuel = some fn) ↔
      buffer.code 1 = 0x48000004 ∨ ¬Worklist.Recurs (buffer.visit dis) firstBlock := by
  by_cases tailCall : buffer.code 1 = 0x48000004
  · exact iff_of_true ⟨0, _, if_pos tailCall⟩ (.inl tailCall)
  · rw [or_iff_right tailCall, ← terminates_iff_not_recurs]
    refine ⟨?_, analyze_of_terminates sorter⟩
    rintro ⟨fuel, fn, returned⟩
    rw [CodeBuffer.analyze, if_neg tailCall] at returned
    obtain ⟨final, completed, -⟩ := Option.map_eq_some_iff.mp returned
    exact ⟨fuel, final, completed⟩

/-- The blocks of a loop that ends are bounded. -/
theorem exists_bound_of_terminates (terminates : Loop.Terminates (buffer.analyzeStep dis) {}) :
    ∃ opened, ∀ state, Loop.Visits (buffer.analyzeStep dis) {} state →
      state.blocks.length ≤ opened := by
  obtain ⟨fuel, final, completed⟩ := terminates
  refine ⟨final.blocks.length, fun state visits => ?_⟩
  obtain ⟨less, rest⟩ := Loop.run_of_visits visits completed
  exact length_le_of_visits (Loop.visits_of_run rest).1

/-- A loop over an addition behind a conditional branch. -/
def loopBuffer : CodeBuffer where
  code position :=
    if position = 0 then 0x41820008
    else if position = 1 then 0x38630001
    else if position = 2 then 0x4082FFF8
    else 0x4E800020
  size := 16
  base := 0x82000000
  fits := fourWords_fits

example : ¬Worklist.Recurs (loopBuffer.visit ⟨fun _ => true, fun _ => none⟩) firstBlock :=
  terminates_iff_not_recurs.mp ⟨6, _, rfl⟩

/-- A function that starts with a conditional branch back to a delay loop in front of it. -/
def delayLoopBuffer : CodeBuffer where
  code position :=
    if position = -2 then 0x42000000 else if position = 0 then 0x4182FFF8 else 0x4E800020
  size := 8
  base := 0x82000000
  fits := twoWords_fits

/-- A function of two words behind other code. -/
def behindDelayLoop (code : Int → Word) : CodeBuffer where
  code := code
  size := 8
  base := 0x82000000
  fits := twoWords_fits

/-- The loop is about to enter the delay loop in front of the function. -/
private def AtDelayLoop (state : AnalyzeState) : Prop :=
  ∃ top rest, state.blockStack = top :: rest ∧ state.data = -2 ∧
    state.current top = ⟨2 ^ 64 - 8, 0, npos⟩

private theorem atDelayLoop_step {code : Int → Word} (loop : code (-2) = 0x42000000)
    (dis : Disassembler) {state : AnalyzeState} (holds : AtDelayLoop state) :
    ∃ next, (behindDelayLoop code).analyzeStep dis state = some next ∧ AtDelayLoop next := by
  obtain ⟨top, rest, stack, here, block⟩ := holds
  have flows : flow dis ((behindDelayLoop code).code state.data) = .branch 0 := by
    rw [here]
    change flow dis (code (-2)) = _
    rw [loop]
    rfl
  have inRange : 4 * state.data ≤ (behindDelayLoop code).size := by
    rw [here]
    change _ ≤ ((8 : Nat) : Int)
    decide
  have running : ¬(state.current top).Reached := by simp [block, Block.Reached]
  refine ⟨_, CodeBuffer.step_of_turn inRange stack running flows (by simp), ?_⟩
  generalize state.blocks.set top ((state.current top).grow.close (.branch 0)) = blocks
  have below : ∀ more : List Block, searchBlock (behindDelayLoop code).base (blocks ++ more)
      (sizeT ((behindDelayLoop code).base + 4 * state.data + 0)) = none := by
    intro more
    refine searchBlock_below ?_
    rw [here]
    change sizeT ((0x82000000 : Nat) + 4 * -2 + 0) < 0x82000000
    decide
  obtain ⟨left, opens⟩ : ∃ left, (behindDelayLoop code).opened blocks (state.current top).grow
      state.data (.branch 0) = left ++ [⟨2 ^ 64 - 8, 0, npos⟩] := by
    refine ⟨_, congrArg (_ ++ ·) ((if_pos (below _)).trans ?_)⟩
    rw [here]
    rfl
  rw [opens]
  have pushed : (AnalyzeState.resume blocks (left ++ [⟨2 ^ 64 - 8, 0, npos⟩]) rest
      state.data).blockStack =
        (blocks.length + left.length) :: ((List.range' blocks.length left.length).reverse ++ rest) := by
    rw [AnalyzeState.resume_blockStack, List.length_append, List.length_singleton,
      List.range'_concat]
    simp
  have current : (AnalyzeState.resume blocks (left ++ [⟨2 ^ 64 - 8, 0, npos⟩]) rest
      state.data).current (blocks.length + left.length) = ⟨2 ^ 64 - 8, 0, npos⟩ := by
    simp [AnalyzeState.current]
  refine ⟨_, _, pushed, ?_, current⟩
  rw [AnalyzeState.resume_data (by rw [pushed]; rfl) (by rw [current]; decide) (by rw [current]),
    current]
  decide

/-- A function that branches to a delay loop in front of it is analysed for ever. -/
theorem analyze_behindDelayLoop {code : Int → Word} (loop : code (-2) = 0x42000000)
    (enter : code 0 = 0x4182FFF8) (notTailCall : code 1 ≠ 0x48000004) (dis : Disassembler)
    (sorter : Sorted.Sorter Block.base) (fuel : Nat) :
    (behindDelayLoop code).analyze dis sorter fuel = none := by
  have flows : flow dis ((behindDelayLoop code).code 0) = .branch (-8) := by
    change flow dis (code 0) = _
    rw [enter]
    rfl
  have opens : (behindDelayLoop code).opened [⟨0, 4, npos⟩] ⟨0, 4, npos⟩ 0 (.branch (-8)) =
      [⟨4, 0, 2 ^ 64 - 12⟩, ⟨2 ^ 64 - 8, 0, npos⟩] := rfl
  have entered : (behindDelayLoop code).analyzeStep dis {} = some (.resume [⟨0, 4, npos⟩]
      ((behindDelayLoop code).opened [⟨0, 4, npos⟩] ⟨0, 4, npos⟩ 0 (.branch (-8))) [] 0) :=
    @CodeBuffer.step_of_turn dis (behindDelayLoop code) {} 0 [] _
      (show 4 * 0 ≤ ((8 : Nat) : Int) by decide) rfl
      (by simp [AnalyzeState.current, Block.Reached]) flows (by simp)
  have endless : Loop.run ((behindDelayLoop code).analyzeStep dis) fuel {} = none := by
    refine @Loop.run_eq_none _ _ (fun state => state = {} ∨ AtDelayLoop state) ?_ _ (.inl rfl) fuel
    rintro state (rfl | holds)
    · exact ⟨_, entered, .inr ⟨2, [1], rfl, by rw [opens]; decide, rfl⟩⟩
    · obtain ⟨next, step, holdsNext⟩ := atDelayLoop_step loop dis holds
      exact ⟨next, step, .inr holdsNext⟩
  rw [CodeBuffer.analyze, if_neg (show (behindDelayLoop code).code 1 ≠ _ from notTailCall), endless]
  rfl

end UfcRecomp.Analyze
