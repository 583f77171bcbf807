import UfcRecomp.Analyze.Termination
import UfcRecomp.Recompiler.Discovery

/-!
# The end of the discovery

Both loops over a code section move forward, so that the discovery ends when every function
it comes to analyse does. The sweep passes over a word only because of a symbol that contains
it or because it is skipped.
-/

namespace UfcRecomp.Recompiler

open UfcRecomp.Ppc UfcRecomp.Utils UfcRecomp.Analyze UfcRecomp.Lib

variable {platform : Platform} {config : RecompilerConfig} {image : Image}

/-! ## Larger bounds -/

theorem analyze_grow {dis : Disassembler} {sorter : Sorted.Sorter Block.base}
    {buffer : CodeBuffer} {fuel more : Nat} (enough : fuel ≤ more) {fn : Function}
    (returned : buffer.analyze dis sorter fuel = some fn) :
    buffer.analyze dis sorter more = some fn := by
  unfold CodeBuffer.analyze at returned ⊢
  split_ifs at returned ⊢ with tailCall
  · exact returned
  · obtain ⟨final, completed, rfl⟩ := Option.map_eq_some_iff.mp returned
    rw [Loop.run_mono enough completed, Option.map_some]

theorem State.analyzeAt_grow {fuel more : Nat} (enough : fuel ≤ more) {sec : Section}
    {offset : Nat} {inside : offset < sec.size} {state : State} {result : Function × State}
    (analysed : state.analyzeAt platform fuel sec offset inside = some result) :
    state.analyzeAt platform more sec offset inside = some result := by
  obtain ⟨fn, returned, rfl⟩ := Option.map_eq_some_iff.mp analysed
  rw [State.analyzeAt, analyze_grow enough returned, Option.map_some]

theorem scanStep_grows (sec : Section) :
    Loop.Grows fun fuel => scanStep platform fuel sec := by
  rintro fuel more ⟨offset, state⟩ next enough pass
  dsimp only [scanStep] at pass ⊢
  split_ifs at pass ⊢
  split at pass
  next target called =>
    obtain ⟨result, analysed, rfl⟩ := Option.map_eq_some_iff.mp pass
    simp only [State.analyzeAt_grow enough analysed, Option.map_some]
  next called => simpa only [called] using pass

theorem sweepStep_grows (sec : Section) :
    Loop.Grows fun fuel => sweepStep platform config fuel sec := by
  rintro fuel more ⟨offset, state⟩ next enough pass
  dsimp only [sweepStep] at pass ⊢
  split_ifs at pass ⊢
  split at pass
  next move => simpa only [move] using pass
  next move => simpa only [move] using pass
  next move =>
    obtain ⟨result, analysed, rfl⟩ := Option.map_eq_some_iff.mp pass
    simp only [State.analyzeAt_grow enough analysed, Option.map_some]

/-- A loop over a section makes no pass behind its end. -/
theorem scanStep_end {fuel : Nat} {sec : Section} {place : Nat × State}
    (behind : sec.size ≤ place.1) : scanStep platform fuel sec place = none :=
  if_neg (Nat.not_lt.mpr behind)

theorem sweepStep_end {fuel : Nat} {sec : Section} {place : Nat × State}
    (behind : sec.size ≤ place.1) : sweepStep platform config fuel sec place = none :=
  dif_neg (Nat.not_lt.mpr behind)

theorem overSection_grow {family : Nat → Nat × State → Option (Nat × State)}
    (grows : Loop.Grows family) {sec : Section}
    (ends : ∀ {fuel place}, sec.size ≤ Prod.fst place → family fuel place = none)
    {fuel more : Nat} (enough : fuel ≤ more) {state next : State}
    (passed : overSection (family fuel) fuel sec state = some next) :
    overSection (family more) more sec state = some next := by
  obtain ⟨offset, completed, behind⟩ := visits_of_overSection passed
  have longer := Loop.run_grow grows enough completed (ends behind)
  rw [overSection, Loop.run_mono enough longer, Option.bind_some, if_neg (Nat.not_lt.mpr behind)]

theorem analyseSection_grow {fuel more : Nat} (enough : fuel ≤ more) {sec : Section}
    {state next : State} (analysed : analyseSection platform config fuel state sec = some next) :
    analyseSection platform config more state sec = some next := by
  obtain ⟨middle, scanned, swept⟩ := Option.bind_eq_some_iff.mp analysed
  have scanned := overSection_grow (scanStep_grows sec) scanStep_end enough scanned
  have swept := overSection_grow (sweepStep_grows sec) sweepStep_end enough swept
  exact Option.bind_eq_some_iff.mpr ⟨middle, scanned, swept⟩

theorem sections_grow {fuel more : Nat} (enough : fuel ≤ more) {sections : List Section}
    {state next : State}
    (analysed : sections.foldlM (analyseSection platform config fuel) state = some next) :
    sections.foldlM (analyseSection platform config more) state = some next := by
  induction sections generalizing state with
  | nil => exact analysed
  | cons sec rest ih =>
      rw [List.foldlM_cons] at analysed ⊢
      obtain ⟨middle, first, analysed⟩ := Option.bind_eq_some_iff.mp analysed
      exact Option.bind_eq_some_iff.mpr ⟨middle, analyseSection_grow enough first, ih analysed⟩

/-! ## The calls of the analysis -/

theorem find_of_skip {sec : Section} {state : State} {offset size : Nat}
    (move : sweepMove config sec state offset = .skip size) :
    config.invalidInstructions.find (sec.word offset) = some size := by
  unfold sweepMove at move
  grind

theorem find_of_known {sec : Section} {state : State} {offset : Nat} {symbol : Symbol}
    (move : sweepMove config sec state offset = .known symbol) :
    state.symbols.find (sec.base + offset) = some symbol := by
  unfold sweepMove at move
  grind

/-- The work on a code section starts from a state. -/
def Starts (platform : Platform) (config : RecompilerConfig) (image : Image) (fuel : Nat)
    (sec : Section) (first : State) : Prop :=
  ∃ pdata before after, image.findSection ".pdata" = some pdata ∧
    image.sections.filter Section.isCode = before ++ sec :: after ∧
    before.foldlM (analyseSection platform config fuel) (knownFunctions config image pdata) =
      some first

/-- `Function::Analyze` is called at an offset of a code section, when the discovery comes to
it. -/
inductive Calls (platform : Platform) (config : RecompilerConfig) (image : Image) :
    (sec : Section) → (offset : Nat) → offset < sec.size → Prop where
  | scan {fuel sec first place target} (starts : Starts platform config image fuel sec first)
      (visits : Loop.Visits (scanStep platform fuel sec) (0, first) place)
      (inside : place.1 < sec.size) (called : place.2.called sec place.1 = some target) :
      Calls platform config image sec target.1 target.2
  | sweep {fuel sec first middle place} (starts : Starts platform config image fuel sec first)
      (scanned : scan platform fuel sec first = some middle)
      (visits : Loop.Visits (sweepStep platform config fuel sec) (0, middle) place)
      (inside : place.1 < sec.size)
      (analyzes : sweepMove config sec place.2 place.1 = .analyze) :
      Calls platform config image sec place.1 inside

/-- Every called analysis returns. -/
def CallsReturn (platform : Platform) (config : RecompilerConfig) (image : Image) : Prop :=
  ∀ sec offset inside, Calls platform config image sec offset inside →
    ∃ fuel fn, (sec.buffer offset inside).analyze platform.dis platform.sortBlocks fuel = some fn

/-- An analysis that returns completes its pass with any large bound. -/
theorem exists_analyzeAt {sec : Section} {offset : Nat} {inside : offset < sec.size}
    (returns : ∃ fuel fn, (sec.buffer offset inside).analyze platform.dis platform.sortBlocks
      fuel = some fn) (fuel : Nat) (state : State) :
    ∃ more fn next, fuel ≤ more ∧ 4 ∣ fn.size ∧ 4 ≤ fn.size ∧
      state.analyzeAt platform more sec offset inside = some (fn, next) := by
  obtain ⟨enough, fn, returned⟩ := returns
  obtain ⟨-, aligned, nonempty, -⟩ := analyze_extent returned
  refine ⟨max fuel enough, fn, state.addFunction (subName fn.base) fn, Nat.le_max_left _ _, aligned,
    nonempty, ?_⟩
  rw [State.analyzeAt, analyze_grow (Nat.le_max_right fuel enough) returned, Option.map_some]

theorem Starts.grow {fuel more : Nat} (enough : fuel ≤ more) {sec : Section} {first : State}
    (starts : Starts platform config image fuel sec first) :
    Starts platform config image more sec first := by
  obtain ⟨pdata, before, after, isPdata, sections, folded⟩ := starts
  exact ⟨pdata, before, after, isPdata, sections, sections_grow enough folded⟩

/-- A completed loop is a completed scan or sweep. -/
theorem overSection_of_run {step : Nat × State → Option (Nat × State)} {fuel : Nat}
    {sec : Section} {state : State} {last : Nat × State}
    (completed : Loop.run step fuel (0, state) = some last) (behind : sec.size ≤ last.1) :
    overSection step fuel sec state = some last.2 := by
  rw [overSection, completed, Option.bind_some, if_neg (Nat.not_lt.mpr behind)]

/-- The scan of a section completes when the called analyses return. -/
theorem scan_completes (returns : CallsReturn platform config image) {fuel : Nat} {sec : Section}
    {first : State} (starts : Starts platform config image fuel sec first) :
    ∃ more next, fuel ≤ more ∧ scan platform more sec first = some next := by
  have progress : ∀ {bound : Nat} {place : Nat × State}, fuel ≤ bound →
      Loop.Visits (scanStep platform bound sec) (0, first) place → sec.size ≤ place.1 ∨
        ∃ more next, bound ≤ more ∧ scanStep platform more sec place = some next ∧
          sec.size - next.1 < sec.size - place.1 := by
    rintro bound ⟨offset, state⟩ enough visits
    by_cases behind : sec.size ≤ offset
    · exact .inl behind
    have inside := Nat.not_le.mp behind
    refine .inr ?_
    cases called : state.called sec offset with
    | none =>
        refine ⟨bound, (offset + 4, state), Nat.le_refl _, ?_, ?_⟩
        · simp [scanStep, inside, called]
        · dsimp only
          omega
    | some target =>
        obtain ⟨more, fn, next, larger, -, -, analysed⟩ := exists_analyzeAt
          (returns _ _ _ (.scan (starts.grow enough) visits inside called)) bound state
        refine ⟨more, (offset + 4, next), larger, ?_, ?_⟩
        · simp [scanStep, inside, called, analysed]
        · dsimp only
          omega
  obtain ⟨more, last, enough, completed, behind⟩ := Loop.exists_run_of_progress
    (scanStep_grows sec) (fun place => sec.size - place.1) scanStep_end progress
  exact ⟨more, last.2, enough, overSection_of_run completed behind⟩

/-- The sweep of a section completes when the called analyses return and no skip is empty. -/
theorem sweep_completes (returns : CallsReturn platform config image)
    (skips : ∀ entry ∈ config.invalidInstructions.entries, 0 < entry.2) {fuel : Nat}
    {sec : Section} {first middle : State} (starts : Starts platform config image fuel sec first)
    (scanned : scan platform fuel sec first = some middle) :
    ∃ more next, fuel ≤ more ∧ sweep platform config more sec middle = some next := by
  have progress : ∀ {bound : Nat} {place : Nat × State}, fuel ≤ bound →
      Loop.Visits (sweepStep platform config bound sec) (0, middle) place → sec.size ≤ place.1 ∨
        ∃ more next, bound ≤ more ∧ sweepStep platform config more sec place = some next ∧
          sec.size - next.1 < sec.size - place.1 := by
    rintro bound ⟨offset, state⟩ enough visits
    by_cases behind : sec.size ≤ offset
    · exact .inl behind
    have inside := Nat.not_le.mp behind
    refine .inr ?_
    cases move : sweepMove config sec state offset with
    | skip size =>
        have positive := skips _ (UnorderedMap.mem_of_find (find_of_skip move))
        refine ⟨bound, (offset + size, { state with
          skipped := state.skipped ++ [(sec.base + offset, size)] }), Nat.le_refl _, ?_, ?_⟩
        · simp [sweepStep, inside, move]
        · dsimp only at positive ⊢
          omega
    | known symbol =>
        have positive := (SymbolTable.find_some (find_of_known move)).2.2
        refine ⟨bound, (offset + symbol.size, state), Nat.le_refl _, ?_, ?_⟩
        · simp [sweepStep, inside, move]
        · dsimp only
          omega
    | analyze =>
        obtain ⟨more, fn, next, larger, -, nonempty, analysed⟩ := exists_analyzeAt
          (returns _ _ _ (.sweep (starts.grow enough) (overSection_grow (scanStep_grows sec)
            scanStep_end enough scanned) visits inside move)) bound state
        refine ⟨more, (offset + fn.size, next), larger, ?_, ?_⟩
        · simp [sweepStep, inside, move, analysed]
        · dsimp only
          omega
  obtain ⟨more, last, enough, completed, behind⟩ := Loop.exists_run_of_progress
    (sweepStep_grows sec) (fun place => sec.size - place.1) sweepStep_end progress
  exact ⟨more, last.2, enough, overSection_of_run completed behind⟩

/-- The work on the rest of the code sections completes. -/
theorem sections_complete (returns : CallsReturn platform config image)
    (skips : ∀ entry ∈ config.invalidInstructions.entries, 0 < entry.2) {pdata : Section}
    (isPdata : image.findSection ".pdata" = some pdata) {before after : List Section}
    (sections : image.sections.filter Section.isCode = before ++ after) {fuel : Nat}
    {first : State} (folded : before.foldlM (analyseSection platform config fuel)
      (knownFunctions config image pdata) = some first) :
    ∃ more last, (before ++ after).foldlM (analyseSection platform config more)
      (knownFunctions config image pdata) = some last := by
  induction after generalizing before fuel first with
  | nil => exact ⟨fuel, first, by rwa [List.append_nil]⟩
  | cons sec after ih =>
      have starts : Starts platform config image fuel sec first :=
        ⟨pdata, before, after, isPdata, sections, folded⟩
      obtain ⟨scanFuel, middle, enough, scanned⟩ := scan_completes returns starts
      obtain ⟨more, next, larger, swept⟩ := sweep_completes returns skips (starts.grow enough)
        scanned
      have analysed : analyseSection platform config more first sec = some next :=
        Option.bind_eq_some_iff.mpr
          ⟨middle, overSection_grow (scanStep_grows sec) scanStep_end larger scanned, swept⟩
      have longer := sections_grow (Nat.le_trans enough larger) folded
      rw [List.append_cons] at sections ⊢
      have folded : (before ++ [sec]).foldlM (analyseSection platform config more)
          (knownFunctions config image pdata) = some next := by
        rw [List.foldlM_append, longer]
        exact congrArg (· >>= some) analysed
      exact ih sections folded

/-- The discovery completes when the called analyses return and no skip is empty. -/
theorem analyse_completes (returns : CallsReturn platform config image)
    (skips : ∀ entry ∈ config.invalidInstructions.entries, 0 < entry.2) {pdata : Section}
    (isPdata : image.findSection ".pdata" = some pdata) :
    ∃ fuel state, analyse platform config fuel image = some state := by
  obtain ⟨fuel, last, folded⟩ := sections_complete returns skips isPdata
    (List.nil_append (image.sections.filter Section.isCode)).symm
    (show [].foldlM (analyseSection platform config 0) (knownFunctions config image pdata) =
      some _ from rfl)
  refine ⟨fuel, { last with functions := platform.sortFunctions.sort last.functions }, ?_⟩
  refine Option.bind_eq_some_iff.mpr ⟨pdata, isPdata, ?_⟩
  exact Option.bind_eq_some_iff.mpr ⟨last, folded, rfl⟩

/-- A completed loop made a pass at every place that it came to inside the section. -/
theorem exists_pass_of_visits {step : Nat × State → Option (Nat × State)} {fuel : Nat}
    {sec : Section} {first last : State} {place : Nat × State}
    (passed : overSection step fuel sec first = some last)
    (visits : Loop.Visits step (0, first) place) (inside : place.1 < sec.size) :
    ∃ next, step place = some next := by
  obtain ⟨offset, completed, behind⟩ := visits_of_overSection passed
  obtain ⟨less, rest⟩ := Loop.run_of_visits visits completed
  cases pass : step place with
  | some next => exact ⟨next, rfl⟩
  | none =>
      cases less with
      | zero => simp [Loop.run] at rest
      | succ less =>
          rw [Loop.run, pass] at rest
          obtain rfl := Option.some.inj rest
          omega

/-- What a completed discovery did in a section that it started with. -/
theorem Starts.completed {fuel : Nat} {sec : Section} {first state : State}
    (starts : Starts platform config image fuel sec first)
    (analysed : analyse platform config fuel image = some state) :
    ∃ middle next, scan platform fuel sec first = some middle ∧
      sweep platform config fuel sec middle = some next := by
  obtain ⟨pdata, before, after, isPdata, sections, folded⟩ := starts
  obtain ⟨other, isOther, analysed⟩ := Option.bind_eq_some_iff.mp analysed
  obtain rfl := Option.some.inj (isOther.symm.trans isPdata)
  obtain ⟨found, whole, -⟩ := Option.bind_eq_some_iff.mp analysed
  rw [sections, List.foldlM_append, folded] at whole
  obtain ⟨_, isFirst, whole⟩ := Option.bind_eq_some_iff.mp whole
  obtain rfl := Option.some.inj isFirst
  rw [List.foldlM_cons] at whole
  obtain ⟨next, here, -⟩ := Option.bind_eq_some_iff.mp whole
  obtain ⟨middle, scanned, swept⟩ := Option.bind_eq_some_iff.mp here
  exact ⟨middle, next, scanned, swept⟩

theorem analyse_grow {fuel more : Nat} (enough : fuel ≤ more) {state : State}
    (analysed : analyse platform config fuel image = some state) :
    analyse platform config more image = some state := by
  obtain ⟨pdata, isPdata, analysed⟩ := Option.bind_eq_some_iff.mp analysed
  obtain ⟨found, folded, last⟩ := Option.bind_eq_some_iff.mp analysed
  refine Option.bind_eq_some_iff.mpr ⟨pdata, isPdata, ?_⟩
  exact Option.bind_eq_some_iff.mpr ⟨found, sections_grow enough folded, last⟩

/-- The discovery completes exactly when the called analyses return. -/
theorem analyse_completes_iff
    (skips : ∀ entry ∈ config.invalidInstructions.entries, 0 < entry.2) {pdata : Section}
    (isPdata : image.findSection ".pdata" = some pdata) :
    (∃ fuel state, analyse platform config fuel image = some state) ↔
      CallsReturn platform config image := by
  constructor
  · rintro ⟨fuel, state, analysed⟩ sec offset inside calls
    cases calls with
    | @scan other _ first place target starts visits before called =>
        have analysed := analyse_grow (Nat.le_max_left fuel other) analysed
        obtain ⟨middle, -, scanned, -⟩ :=
          (starts.grow (Nat.le_max_right fuel other)).completed analysed
        obtain ⟨next, pass⟩ := exists_pass_of_visits scanned
          (visits.grow (scanStep_grows sec) (Nat.le_max_right fuel other)) before
        obtain ⟨position, found⟩ := place
        simp only [scanStep, before, called, if_true] at pass
        obtain ⟨result, analysedAt, -⟩ := Option.map_eq_some_iff.mp pass
        obtain ⟨fn, returned, -⟩ := Option.map_eq_some_iff.mp analysedAt
        exact ⟨_, fn, returned⟩
    | @sweep other _ first middle place starts scanned visits before analyzes =>
        have analysed := analyse_grow (Nat.le_max_left fuel other) analysed
        have larger := Nat.le_max_right fuel other
        obtain ⟨same, _, scannedAgain, swept⟩ := (starts.grow larger).completed analysed
        obtain rfl : middle = same := Option.some.inj
          ((overSection_grow (scanStep_grows sec) scanStep_end larger scanned).symm.trans
            scannedAgain)
        obtain ⟨next, pass⟩ := exists_pass_of_visits swept
          (visits.grow (sweepStep_grows sec) larger) before
        obtain ⟨position, found⟩ := place
        simp only [sweepStep, before, analyzes, dif_pos] at pass
        obtain ⟨result, analysedAt, -⟩ := Option.map_eq_some_iff.mp pass
        obtain ⟨fn, returned, -⟩ := Option.map_eq_some_iff.mp analysedAt
        exact ⟨_, fn, returned⟩
  · exact fun returns => analyse_completes returns skips isPdata

/-! ## What the sweep passes over -/

/-- A word of a section lies in the range of a symbol, or in a run that a sweep skipped because
of its first word. -/
def Accounted (config : RecompilerConfig) (state : State) (sec : Section) (offset : Nat) : Prop :=
  (∃ symbol ∈ state.symbols.symbols, symbol.type = .symbolFunction ∧
    symbol.address ≤ sec.base + offset ∧ sec.base + offset + 4 ≤ symbol.address + symbol.size) ∨
  ∃ start size, (sec.base + start, size) ∈ state.skipped ∧
    config.invalidInstructions.find (sec.word start) = some size ∧
    start ≤ offset ∧ offset + 4 ≤ start + size

theorem Accounted.mono {first last : State} (adds : State.Adds first last) {sec : Section}
    {offset : Nat} (accounted : Accounted config first sec offset) :
    Accounted config last sec offset := by
  rcases accounted with ⟨symbol, member, rest⟩ | ⟨start, size, member, rest⟩
  · exact .inl ⟨symbol, adds.subset.1 member, rest⟩
  · exact .inr ⟨start, size, adds.subset.2 member, rest⟩

/-- The sizes of all symbols are multiples of four. -/
def State.Aligned (state : State) : Prop := ∀ symbol ∈ state.symbols.symbols, 4 ∣ symbol.size

theorem State.Aligned.addFunction {state : State} (aligned : state.Aligned) {name : String}
    {fn : Function} (size : 4 ∣ fn.size) : (state.addFunction name fn).Aligned := by
  intro symbol member
  rcases SymbolTable.mem_emplace.mp member with rfl | old
  · exact size
  · exact aligned symbol old

theorem State.Aligned.of_adds {first last : State} (adds : State.Adds first last)
    (aligned : first.Aligned) : last.Aligned := by
  induction adds with
  | refl => exact aligned
  | add _ _ size ih => exact ih.addFunction size.1
  | skip _ ih => exact ih

theorem State.Aligned.addSymbols {state : State} (aligned : state.Aligned) {symbols : List Symbol}
    (sizes : ∀ symbol ∈ symbols, 4 ∣ symbol.size) :
    (symbols.foldl State.addSymbol state).Aligned := by
  induction symbols generalizing state with
  | nil => exact aligned
  | cons symbol rest ih =>
      obtain ⟨first, sizes⟩ := List.forall_mem_cons.mp sizes
      exact ih (aligned.addFunction first) sizes

theorem State.Aligned.addRuntimeFunctions {state : State} (aligned : state.Aligned)
    (entries : List RuntimeFunction) :
    (entries.foldl State.addRuntimeFunction state).Aligned := by
  induction entries generalizing state with
  | nil => exact aligned
  | cons entry rest ih =>
      refine ih ?_
      unfold State.addRuntimeFunction
      split
      · exact aligned.addFunction ⟨entry.functionLength, Nat.mul_comm _ _⟩
      · exact aligned

/-- The helpers have sizes that are multiples of four. -/
theorem size_of_mem_helpersOf {i : Nat} {symbol : Symbol} (member : symbol ∈ config.helpersOf i) :
    4 ∣ symbol.size := by
  simp only [RecompilerConfig.helpersOf, List.mem_append, List.mem_ite_nil_right,
    mem_helper] at member
  rcases member with ⟨-, ((((⟨-, rfl⟩ | ⟨-, rfl⟩) | ⟨-, rfl⟩) | ⟨-, rfl⟩) | ⟨-, rfl⟩) | ⟨-, rfl⟩⟩ |
    ⟨-, ⟨-, rfl⟩ | ⟨-, rfl⟩⟩ <;> dsimp only <;> omega

theorem knownFunctions_aligned (functions : ∀ entry ∈ config.functions.entries, 4 ∣ entry.2)
    (pdata : Section) : (knownFunctions config image pdata).Aligned := by
  rw [knownFunctions_eq]
  refine (State.Aligned.addSymbols ?_ ?_).addRuntimeFunctions _
  · intro symbol member
    rw [(image.thunks symbol member).1]
    decide
  · intro symbol member
    rcases List.mem_append.mp member with helper | explicit
    · obtain ⟨i, -, among⟩ := List.mem_flatMap.mp helper
      exact size_of_mem_helpersOf among
    · obtain ⟨entry, among, rfl⟩ := List.mem_map.mp explicit
      exact functions entry among

/-- The sweep is at a word of the section, and the words in front of it are accounted for. -/
structure Swept (config : RecompilerConfig) (image : Image) (sec : Section)
    (place : Nat × State) : Prop where
  recorded : place.2.Recorded config image
  aligned : place.2.Aligned
  word : 4 ∣ place.1
  accounted : ∀ offset, 4 ∣ offset → offset < place.1 → Accounted config place.2 sec offset

/-- The sweep moves over words that were accounted for. -/
theorem Swept.pass (skips : ∀ entry ∈ config.invalidInstructions.entries, 4 ∣ entry.2)
    {fuel : Nat} {sec : Section} {place next : Nat × State}
    (swept : Swept config image sec place)
    (pass : sweepStep platform config fuel sec place = some next) :
    Swept config image sec next := by
  have adds := State.Adds.of_sweepStep swept.recorded pass
  have recorded := adds.recorded swept.recorded
  have aligned := swept.aligned.of_adds adds
  obtain ⟨offset, state⟩ := place
  have before := fun word multiple less =>
    Accounted.mono adds (swept.accounted word multiple less)
  have here := swept.word
  rw [sweepStep] at pass
  split_ifs at pass with inside
  split at pass
  next size move =>
    obtain rfl := Option.some.inj pass
    have matched := find_of_skip move
    have multiple := skips _ (UnorderedMap.mem_of_find matched)
    refine ⟨recorded, aligned, Nat.dvd_add here multiple, fun word isWord less => ?_⟩
    by_cases old : word < offset
    · exact before word isWord old
    · refine .inr ⟨offset, size, by simp, matched, by omega, ?_⟩
      dsimp only at here multiple less
      omega
  next symbol move =>
    obtain rfl := Option.some.inj pass
    obtain ⟨member, start, -⟩ := SymbolTable.find_some (find_of_known move)
    have multiple := aligned symbol member
    refine ⟨recorded, aligned, Nat.dvd_add here multiple, fun word isWord less => ?_⟩
    by_cases old : word < offset
    · exact before word isWord old
    · refine .inl ⟨symbol, member, recorded.type_eq member, by omega, ?_⟩
      dsimp only at here less
      omega
  next move =>
    obtain ⟨⟨fn, next⟩, analysed, rfl⟩ := Option.map_eq_some_iff.mp pass
    obtain ⟨-, base, multiple, -⟩ := State.Adds.of_analyzeAt analysed
      (find_of_sweepMove swept.recorded move)
    refine ⟨recorded, aligned, Nat.dvd_add here multiple, fun word isWord less => ?_⟩
    by_cases old : word < offset
    · exact before word isWord old
    · obtain ⟨result, -, isPair⟩ := Option.map_eq_some_iff.mp analysed
      obtain ⟨rfl, rfl⟩ := Prod.mk.inj isPair
      refine .inl ⟨⟨subName result.base, result.base, result.size, .symbolFunction⟩,
        SymbolTable.mem_emplace.mpr (.inl rfl), rfl, ?_, ?_⟩ <;> dsimp only at here less ⊢ <;> omega

/-- A completed sweep accounts for every word of its section. -/
theorem accounted_of_sweep (skips : ∀ entry ∈ config.invalidInstructions.entries, 4 ∣ entry.2)
    {fuel : Nat} {sec : Section} {state next : State} (recorded : state.Recorded config image)
    (aligned : state.Aligned) (swept : sweep platform config fuel sec state = some next)
    {offset : Nat} (isWord : 4 ∣ offset) (inside : offset < sec.size) :
    Accounted config next sec offset := by
  obtain ⟨last, completed, behind⟩ := visits_of_overSection swept
  have start : Swept config image sec (0, state) :=
    ⟨recorded, aligned, ⟨0, rfl⟩, fun _ _ less => absurd less (Nat.not_lt_zero _)⟩
  have final := (Loop.visits_of_run completed).1.invariant start fun swept => swept.pass skips
  exact final.accounted offset isWord (Nat.lt_of_lt_of_le inside behind)

/-- The work on the code sections accounts for every word of each of them. -/
theorem accounted_of_sections
    (skips : ∀ entry ∈ config.invalidInstructions.entries, 4 ∣ entry.2) {fuel : Nat}
    {sections : List Section} {state next : State} (recorded : state.Recorded config image)
    (aligned : state.Aligned)
    (analysed : sections.foldlM (analyseSection platform config fuel) state = some next)
    {sec : Section} (member : sec ∈ sections) {offset : Nat} (isWord : 4 ∣ offset)
    (inside : offset < sec.size) : Accounted config next sec offset := by
  induction sections generalizing state with
  | nil => simp at member
  | cons head rest ih =>
      rw [List.foldlM_cons] at analysed
      obtain ⟨middle, first, later⟩ := Option.bind_eq_some_iff.mp analysed
      have adds := State.Adds.of_analyseSection recorded first
      have recordedMiddle := adds.recorded recorded
      rcases List.mem_cons.mp member with rfl | member
      · obtain ⟨scanned, scan, swept⟩ := Option.bind_eq_some_iff.mp first
        have scans := State.Adds.of_scan recorded scan
        exact (accounted_of_sweep skips (scans.recorded recorded) (aligned.of_adds scans) swept
          isWord inside).mono (.of_sections recordedMiddle later)
      · exact ih recordedMiddle (aligned.of_adds adds) later member

/-- A completed discovery has accounted for every word of the code sections. -/
theorem accounted_of_analyse (functions : ∀ entry ∈ config.functions.entries, 4 ∣ entry.2)
    (skips : ∀ entry ∈ config.invalidInstructions.entries, 0 < entry.2 ∧ 4 ∣ entry.2) {fuel : Nat}
    {state : State} (analysed : analyse platform config fuel image = some state) {sec : Section}
    (member : sec ∈ image.sections) (isCode : sec.isCode) {offset : Nat} (isWord : 4 ∣ offset)
    (inside : offset < sec.size) : Accounted config state sec offset := by
  obtain ⟨other, isOther, analysed⟩ := Option.bind_eq_some_iff.mp analysed
  obtain ⟨found, folded, last⟩ := Option.bind_eq_some_iff.mp analysed
  obtain rfl := Option.some.inj last
  exact accounted_of_sections (fun entry member => (skips entry member).2)
    (knownFunctions_recorded other) (knownFunctions_aligned functions other) folded
    (List.mem_filter.mpr ⟨member, isCode⟩) isWord inside

/-- A `.pdata` section without entries. -/
def emptyPdata : Section := .ofAddress ".pdata" 0x1000 0 0 fun _ => 0

/-- An image with one code section. -/
def codeImage (sec : Section) (above : emptyPdata.base < sec.base) : Image where
  sections := [emptyPdata, sec]
  symbols := .empty
  entryPoint := sec.base
  ordered := by simpa
  thunks := SymbolTable.thunks_empty

/-- A function that calls another one, two zero words, the other function with a loop, and a third
one. -/
def callSection : Section := .ofAddress ".text" 0x2000 36 sectionFlagsCode fun i =>
  ([0x48, 0, 0, 0x11, 0x4E, 0x80, 0, 0x20, 0, 0, 0, 0, 0, 0, 0, 0,
    0x41, 0x82, 0, 8, 0x38, 0x63, 0, 1, 0x40, 0x82, 0xFF, 0xF8, 0x4E, 0x80, 0, 0x20,
    0x4E, 0x80, 0, 0x20] : List (BitVec 8)).getD i.toNat 0

/-- The first function is configured, and zero words are skipped. -/
def callConfig : RecompilerConfig where
  functions := ⟨[(0x2000, 8)], List.nodup_singleton _⟩
  invalidInstructions := ⟨[(0, 4)], List.nodup_singleton _⟩

/-- A code section whose second function branches to the delay loop of the first. -/
def delayLoopSection : Section where
  name := ".text"
  base := 0x81FFFFF8
  size := 16
  flags := sectionFlagsCode
  data i := ([0x42, 0, 0, 0, 0x4E, 0x80, 0, 0x20, 0x41, 0x82, 0xFF, 0xF8, 0x4E, 0x80, 0, 0x20] :
    List (BitVec 8)).getD i.toNat 0
  base_lt := by decide
  size_lt := by decide

end UfcRecomp.Recompiler
