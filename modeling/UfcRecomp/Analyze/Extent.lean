import UfcRecomp.Analyze.Invariant

/-!
# How far a function goes

The result is a whole number of words and ends at most one word behind the buffer.
-/

namespace UfcRecomp.Analyze

open UfcRecomp.Ppc UfcRecomp.Lib

variable {dis : Disassembler} {buffer : CodeBuffer}

/-- The blocks that a function keeps are the contiguous front of some sorted list. -/
theorem analyzeBlocks_blocks (sorter : Sorted.Sorter Block.base) (blocks : List Block) :
    ∃ sorted : List Block, sorted.Perm blocks ∧
      sorted.Pairwise (fun left right => left.base ≤ right.base) ∧
      (buffer.analyzeBlocks sorter blocks).blocks =
        Sorted.contiguous Block.base Block.stop sorted := by
  by_cases several : 1 < blocks.length
  · refine ⟨sorter.sort blocks, sorter.perm blocks, sorter.sorted blocks, ?_⟩
    simp [CodeBuffer.analyzeBlocks, several]
  · refine ⟨blocks, List.Perm.refl _, ?_, ?_⟩
    · match blocks with
      | [] => exact .nil
      | [block] => exact List.pairwise_singleton _ _
      | _ :: _ :: rest => simp at several
    · match blocks with
      | [] => rfl
      | [block] => rfl
      | _ :: _ :: rest => simp at several

/-- The end of a function that keeps a non-empty block at its base, when every block ends by a
bound or starts behind it. -/
theorem analyzeBlocks_size {blocks : List Block} (sorter : Sorted.Sorter Block.base) {bound : Nat}
    (split : ∀ block ∈ blocks, block.stop ≤ bound ∨ bound < block.base)
    (aligned : ∀ block ∈ blocks, 4 ∣ block.stop)
    {first : Block} (member : first ∈ blocks) (start : first.base = 0) (nonempty : 4 ≤ first.stop) :
    4 ∣ (buffer.analyzeBlocks sorter blocks).size ∧
      4 ≤ (buffer.analyzeBlocks sorter blocks).size ∧
      (buffer.analyzeBlocks sorter blocks).size ≤ bound := by
  obtain ⟨sorted, perm, ascending, kept⟩ := @analyzeBlocks_blocks buffer sorter blocks
  have size : (buffer.analyzeBlocks sorter blocks).size =
      (Sorted.contiguous Block.base Block.stop sorted).foldl
        (fun size block => max size block.stop) 0 := by
    rw [← kept]
    rfl
  obtain ⟨-, upper, attained⟩ := @Sorted.furthest_spec _ Block.stop
    (Sorted.contiguous Block.base Block.stop sorted) 0
  rw [← size] at upper attained
  have among : ∀ block ∈ Sorted.contiguous Block.base Block.stop sorted, block ∈ blocks :=
    fun block held => perm.subset (Sorted.mem_of_mem_contiguous held)
  cases sorted with
  | nil => simpa using perm.mem_iff.mpr member
  | cons head rest =>
      have firstMember : first ∈ head :: rest := perm.mem_iff.mpr member
      have headStart : head.base = 0 := by
        rcases List.mem_cons.mp firstMember with rfl | inRest
        · exact start
        · have := (List.pairwise_cons.mp ascending).1 first inRest
          omega
      have keepsFirst : first ∈ Sorted.contiguous Block.base Block.stop (head :: rest) := by
        refine Sorted.mem_contiguous_of_first_le ascending ?_ firstMember (by omega)
        intro any _ low
        omega
      have bounded : ∀ block ∈ Sorted.contiguous Block.base Block.stop (head :: rest),
          block.stop ≤ bound := by
        intro block held
        have low := Sorted.first_le_of_mem_contiguous (fun any held low =>
          (split any (perm.subset held)).resolve_right (by omega)) (by omega) held
        exact (split block (among block held)).resolve_right (by omega)
      have atLeast := upper first keepsFirst
      rcases attained with zero | ⟨block, held, same⟩
      · omega
      · rw [same]
        exact ⟨aligned block (among block held), by omega, bounded block held⟩

namespace Block

/-- The end of a block whose words start in or behind the buffer. -/
theorem Sound.stop_eq {block : Block} (sound : block.Sound dis buffer)
    (nonneg : 0 ≤ block.position) : (block.stop : Int) = 4 * (block.position + block.words) := by
  obtain ⟨⟨base, baseEq⟩, ⟨size, sizeEq⟩⟩ := sound.aligned
  have bounds := buffer.last_bounds
  have bounded := sound.bounded
  have start := position_bounds bounded
  have extent := sound.extent
  unfold stop words position pointerIndex sizeT at *
  split_ifs at * <;> omega

/-- The start of a block in front of the code is a huge number. -/
theorem Sound.base_eq {block : Block} (sound : block.Sound dis buffer) :
    (block.base : Int) = if 0 ≤ block.position then 4 * block.position
      else 2 ^ 64 + 4 * block.position := by
  obtain ⟨⟨base, baseEq⟩, -⟩ := sound.aligned
  have bounded := sound.bounded
  unfold position pointerIndex
  split_ifs <;> omega

/-- The end of a block, wherever it starts. -/
theorem Sound.stop_congr {block : Block} (sound : block.Sound dis buffer) :
    block.stop = sizeT (4 * (block.position + block.words)) := by
  have base := sound.base_eq
  obtain ⟨-, ⟨size, sizeEq⟩⟩ := sound.aligned
  rw [Block.stop]
  apply sizeT_congr
  unfold Block.words
  split_ifs at base <;> omega

theorem Sound.stop_dvd {block : Block} (sound : block.Sound dis buffer) : 4 ∣ block.stop := by
  obtain ⟨⟨base, baseEq⟩, ⟨size, sizeEq⟩⟩ := sound.aligned
  unfold stop sizeT
  omega

end Block

namespace AnalyzeState

/-- The first block starts at the base of the function. -/
theorem visits_first {state : AnalyzeState}
    (visits : Loop.Visits (buffer.analyzeStep dis) {} state) :
    ∃ block ∈ state.blocks, block.base = 0 ∧ (state ≠ {} → 4 ≤ block.size) := by
  refine (@Loop.Visits.invariant _ _ (fun state => state.Sound dis buffer ∧
    ∃ block ∈ state.blocks, block.base = 0 ∧ (state ≠ {} → 4 ≤ block.size)) _ _ visits
    ⟨.initial, {}, by simp⟩ ?_).2
  rintro state next ⟨sound, block, member, start, entered⟩ step
  have effect := CodeBuffer.pass_of_step step
  refine ⟨sound.pass effect, ?_⟩
  by_cases initial : state = {}
  · subst initial
    cases effect with
    | @projected top rest inRange stack reached =>
        obtain ⟨rfl, rfl⟩ := List.cons.inj stack
        exact absurd rfl reached.1
    | @advance top rest inRange stack running flows =>
        obtain ⟨rfl, rfl⟩ := List.cons.inj stack
        exact ⟨_, List.mem_singleton.mpr rfl, rfl, fun _ => by decide⟩
    | @turn top rest kind blocks inRange stack running flows ends closed =>
        obtain ⟨rfl, rfl⟩ := List.cons.inj stack
        refine ⟨(({} : AnalyzeState).current 0).grow.close kind, ?_, ?_, fun _ => ?_⟩
        · rw [resume_blocks, closed]
          exact List.mem_append_left _ (List.mem_singleton.mpr rfl)
        · rw [Block.close_base]
          rfl
        · rw [Block.close_size]
          decide
  · obtain ⟨later, among, base, grows, -⟩ := sound.pass_keeps effect block member
    exact ⟨later, among, base.trans start, fun _ => Nat.le_trans (entered initial) grows⟩

end AnalyzeState

/-- A completed loop: its blocks are sound, no pass is left, and the first block has a word. -/
theorem completed_loop {fuel : Nat} {final : AnalyzeState}
    (completed : Loop.run (buffer.analyzeStep dis) fuel {} = some final) :
    final.Sound dis buffer ∧ buffer.analyzeStep dis final = none ∧
      ∃ block ∈ final.blocks, block.base = 0 ∧ 4 ≤ block.stop := by
  obtain ⟨visits, atEnd⟩ := Loop.visits_of_run completed
  have sound := AnalyzeState.Sound.of_visits visits
  obtain ⟨block, member, start, entered⟩ := AnalyzeState.visits_first visits
  refine ⟨sound, atEnd, block, member, start, ?_⟩
  have notInitial : final ≠ {} := by
    rintro rfl
    have bounds := buffer.last_bounds
    simp [CodeBuffer.analyzeStep] at atEnd
  have size := entered notInitial
  have blockSound := sound.blocks block member
  have position : block.position = 0 := by
    rw [Block.position, start]
    rfl
  have stop := blockSound.stop_eq (by omega)
  unfold Block.words at stop
  omega

/-- Whatever the code, a function is a whole number of words and ends at most one word behind
the buffer. -/
theorem analyze_extent {sorter : Sorted.Sorter Block.base} {fuel : Nat} {fn : Function}
    (returned : buffer.analyze dis sorter fuel = some fn) :
    fn.base = buffer.base ∧ 4 ∣ fn.size ∧ 4 ≤ fn.size ∧
      (fn.size ≤ buffer.size + 4 ∨ fn.size = 8) := by
  unfold CodeBuffer.analyze at returned
  split_ifs at returned with tailCall
  · obtain rfl := Option.some.inj returned
    exact ⟨rfl, (by decide : 4 ∣ 8), (by decide : 4 ≤ 8), .inr rfl⟩
  · obtain ⟨final, completed, rfl⟩ := Option.map_eq_some_iff.mp returned
    obtain ⟨sound, -, first, member, start, nonempty⟩ := completed_loop completed
    have bounds := buffer.last_bounds
    have split : ∀ block ∈ final.blocks, block.stop ≤ 4 * (buffer.size / 4 + 1) ∨
        4 * (buffer.size / 4 + 1) < block.base := by
      intro block member
      have blockSound := sound.blocks block member
      have base := blockSound.base_eq
      have extent := blockSound.extent
      unfold CodeBuffer.last at *
      by_cases nonneg : 0 ≤ block.position
      · have stop := blockSound.stop_eq nonneg
        rw [if_pos nonneg] at base
        unfold Block.words at *
        omega
      · have start := Block.position_bounds blockSound.bounded
        rw [if_neg nonneg] at base
        omega
    obtain ⟨aligned, low, high⟩ := @analyzeBlocks_size buffer _ sorter _ split
      (fun block member => (sound.blocks block member).stop_dvd) _ member start nonempty
    exact ⟨rfl, aligned, low, .inl (by omega)⟩

end UfcRecomp.Analyze
