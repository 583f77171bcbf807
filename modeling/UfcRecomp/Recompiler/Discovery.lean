import UfcRecomp.Analyze.Extent
import UfcRecomp.Recompiler.Analyse
import UfcRecomp.Recompiler.Names

/-!
# What function discovery does to the recompiler

`Recorded` relates the list of functions and the symbol table to the record of what was
added; it holds of every state. The work on the code sections only adds functions at
addresses where no symbol is found, which `Adds` says once for the scan and the sweep.
-/

namespace UfcRecomp.Recompiler

open UfcRecomp.Ppc UfcRecomp.Utils UfcRecomp.Analyze UfcRecomp.Lib

namespace State

/-- The functions and symbols of a state are those of the image and the added ones. -/
structure Recorded (config : RecompilerConfig) (image : Image) (state : State) : Prop where
  functions : state.functions.Perm (state.emplaced.map Prod.fst)
  describes : ∀ added ∈ state.emplaced, added.2.address = added.1.base ∧
    added.2.size = added.1.size ∧ added.2.type = .symbolFunction ∧ Named config added.2
  ranges : ∀ address, state.symbols.equalRange address = image.symbols.equalRange address ++
    (state.emplaced.map Prod.snd).filter fun symbol => symbol.address = address

/-- Adding a function under a name of discovery. -/
theorem Recorded.addFunction {config : RecompilerConfig} {image : Image} {state : State}
    (recorded : state.Recorded config image) {name : String} {fn : Function}
    (named : Named config ⟨name, fn.base, fn.size, .symbolFunction⟩) :
    (state.addFunction name fn).Recorded config image where
  functions := by
    simpa [State.addFunction] using recorded.functions.append_right [fn]
  describes := by
    intro added member
    rcases List.mem_append.mp member with old | new
    · exact recorded.describes added old
    · obtain rfl := List.mem_singleton.mp new
      exact ⟨rfl, rfl, rfl, named⟩
  ranges := by
    intro address
    simp only [State.addFunction, SymbolTable.equalRange_emplace, recorded.ranges address,
      List.map_append, List.filter_append, List.map_cons, List.map_nil, List.filter_cons,
      List.filter_nil, decide_eq_true_eq]
    split_ifs <;> simp

variable {config : RecompilerConfig} {image : Image} {state : State}

/-- Every symbol is the one of a thunk or was added. -/
theorem Recorded.mem_symbols (recorded : state.Recorded config image) {symbol : Symbol} :
    symbol ∈ state.symbols.symbols ↔
      symbol ∈ image.symbols.symbols ∨ symbol ∈ state.emplaced.map Prod.snd := by
  have range := recorded.ranges symbol.address
  have left : symbol ∈ state.symbols.symbols ↔
      symbol ∈ state.symbols.equalRange symbol.address := by
    simp [SymbolTable.mem_equalRange]
  rw [left, range, List.mem_append, SymbolTable.mem_equalRange, List.mem_filter]
  simp

/-- Every symbol is the symbol of a function. -/
theorem Recorded.type_eq (recorded : state.Recorded config image) {symbol : Symbol}
    (member : symbol ∈ state.symbols.symbols) : symbol.type = .symbolFunction := by
  rcases recorded.mem_symbols.mp member with thunk | added
  · exact (image.thunks symbol thunk).2
  · obtain ⟨pair, among, rfl⟩ := List.mem_map.mp added
    exact (recorded.describes pair among).2.2.1

/-- What the work on the code sections may do: add functions at addresses where no symbol is
found, and record skipped runs. -/
inductive Adds : State → State → Prop where
  | refl {first} : Adds first first
  | add {first last fn} (prior : Adds first last)
      (missing : last.symbols.find fn.base = none) (nonempty : 4 ∣ fn.size ∧ 4 ≤ fn.size) :
      Adds first (last.addFunction (subName fn.base) fn)
  | skip {first last run} (prior : Adds first last) :
      Adds first { last with skipped := last.skipped ++ [run] }

theorem Adds.trans {first second third : State} (left : Adds first second)
    (right : Adds second third) : Adds first third := by
  induction right with
  | refl => exact left
  | add _ missing nonempty ih => exact ih.add missing nonempty
  | skip _ ih => exact ih.skip

/-- Symbols and skipped runs stay. -/
theorem Adds.subset {first last : State} (adds : Adds first last) :
    first.symbols.symbols ⊆ last.symbols.symbols ∧ first.skipped ⊆ last.skipped := by
  induction adds with
  | refl => exact ⟨List.Subset.refl _, List.Subset.refl _⟩
  | add _ _ _ ih =>
      exact ⟨fun symbol member => SymbolTable.mem_emplace.mpr (.inr (ih.1 member)), ih.2⟩
  | skip _ ih => exact ⟨ih.1, List.subset_append_of_subset_left _ ih.2⟩

theorem Adds.recorded {first second : State} (adds : Adds first second)
    (recorded : first.Recorded config image) : second.Recorded config image := by
  induction adds with
  | refl => exact recorded
  | add _ _ _ ih => exact ih.addFunction (.inr rfl)
  | skip _ ih => exact ⟨ih.functions, ih.describes, ih.ranges⟩

end State

variable {platform : Platform} {config : RecompilerConfig} {image : Image}

/-- Analysing the function at an address without a symbol. -/
theorem State.Adds.of_analyzeAt {fuel : Nat} {sec : Section} {offset : Nat}
    {inside : offset < sec.size} {state next : State} {fn : Function}
    (analysed : state.analyzeAt platform fuel sec offset inside = some (fn, next))
    (missing : state.symbols.find (sec.base + offset) = none) :
    State.Adds state next ∧ fn.base = sec.base + offset ∧ 4 ∣ fn.size ∧ 4 ≤ fn.size := by
  obtain ⟨result, returned, isPair⟩ := Option.map_eq_some_iff.mp analysed
  obtain ⟨rfl, rfl⟩ := Prod.mk.inj isPair
  obtain ⟨base, aligned, nonempty, -⟩ := analyze_extent returned
  have start : result.base = sec.base + offset := base
  exact ⟨.add .refl (start ▸ missing) ⟨aligned, nonempty⟩, start, aligned, nonempty⟩

/-- The symbol table has no symbol at the address of a call that is followed. -/
theorem State.find_of_called {sec : Section} {state : State} {offset : Nat}
    {target : { target : Nat // target < sec.size }}
    (called : state.called sec offset = some target) :
    state.symbols.find (sec.base + target) = none := by
  simp only [State.called] at called
  split_ifs at called with isCall inside
  obtain rfl := Option.some.inj called
  dsimp only
  rw [Nat.add_sub_cancel' inside.1]
  exact inside.2.2

theorem State.Adds.of_scanStep {fuel : Nat} {sec : Section} {place next : Nat × State}
    (scanned : scanStep platform fuel sec place = some next) : State.Adds place.2 next.2 := by
  obtain ⟨offset, state⟩ := place
  rw [scanStep] at scanned
  split_ifs at scanned
  split at scanned
  next target called =>
    obtain ⟨result, analysed, rfl⟩ := Option.map_eq_some_iff.mp scanned
    exact (State.Adds.of_analyzeAt analysed (State.find_of_called called)).1
  · obtain rfl := Option.some.inj scanned
    exact .refl

/-- A sweep analyses only where there is no symbol. -/
theorem find_of_sweepMove {sec : Section} {state : State} {offset : Nat}
    (recorded : state.Recorded config image)
    (analyzes : sweepMove config sec state offset = .analyze) :
    state.symbols.find (sec.base + offset) = none := by
  cases found : state.symbols.find (sec.base + offset) with
  | none => rfl
  | some symbol =>
      obtain ⟨member, here, -⟩ := SymbolTable.find_some found
      rw [sweepMove, found] at analyzes
      split at analyzes
      · simp at analyzes
      · simp [here, recorded.type_eq member] at analyzes

theorem State.Adds.of_sweepStep {fuel : Nat} {sec : Section} {place next : Nat × State}
    (recorded : place.2.Recorded config image)
    (swept : sweepStep platform config fuel sec place = some next) : State.Adds place.2 next.2 := by
  obtain ⟨offset, state⟩ := place
  rw [sweepStep] at swept
  split_ifs at swept
  split at swept
  · obtain rfl := Option.some.inj swept
    exact .skip .refl
  · obtain rfl := Option.some.inj swept
    exact .refl
  next analyzes =>
    obtain ⟨result, analysed, rfl⟩ := Option.map_eq_some_iff.mp swept
    exact (State.Adds.of_analyzeAt analysed (find_of_sweepMove recorded analyzes)).1

/-- What a loop over a section went through. -/
theorem visits_of_overSection {step : Nat × State → Option (Nat × State)} {fuel : Nat}
    {sec : Section} {state next : State} (passed : overSection step fuel sec state = some next) :
    ∃ offset, Loop.run step fuel (0, state) = some (offset, next) ∧ sec.size ≤ offset := by
  obtain ⟨⟨offset, final⟩, completed, last⟩ := Option.bind_eq_some_iff.mp passed
  split_ifs at last with inside
  obtain rfl := Option.some.inj last
  exact ⟨offset, completed, Nat.not_lt.mp inside⟩

theorem State.Adds.of_overSection {step : Nat × State → Option (Nat × State)}
    (each : ∀ {place next}, place.2.Recorded config image → step place = some next →
      State.Adds place.2 next.2)
    {first last : Nat × State} (recorded : first.2.Recorded config image)
    (visits : Loop.Visits step first last) : State.Adds first.2 last.2 := by
  refine @Loop.Visits.invariant _ _ (fun place => State.Adds first.2 place.2) _ _ visits .refl ?_
  intro place next adds pass
  exact adds.trans (each (adds.recorded recorded) pass)

theorem State.Adds.of_scan {fuel : Nat} {sec : Section} {state next : State}
    (recorded : state.Recorded config image) (scanned : scan platform fuel sec state = some next) :
    State.Adds state next := by
  obtain ⟨offset, completed, -⟩ := visits_of_overSection scanned
  exact .of_overSection (fun _ => .of_scanStep) recorded (Loop.visits_of_run completed).1

theorem State.Adds.of_sweep {fuel : Nat} {sec : Section} {state next : State}
    (recorded : state.Recorded config image)
    (swept : sweep platform config fuel sec state = some next) : State.Adds state next := by
  obtain ⟨offset, completed, -⟩ := visits_of_overSection swept
  exact .of_overSection .of_sweepStep recorded (Loop.visits_of_run completed).1

theorem State.Adds.of_analyseSection {fuel : Nat} {sec : Section} {state next : State}
    (recorded : state.Recorded config image)
    (analysed : analyseSection platform config fuel state sec = some next) :
    State.Adds state next := by
  obtain ⟨middle, scanned, swept⟩ := Option.bind_eq_some_iff.mp analysed
  have adds := State.Adds.of_scan recorded scanned
  exact adds.trans (.of_sweep (adds.recorded recorded) swept)

theorem State.Adds.of_sections {fuel : Nat} {sections : List Section} {state next : State}
    (recorded : state.Recorded config image)
    (analysed : sections.foldlM (analyseSection platform config fuel) state = some next) :
    State.Adds state next := by
  induction sections generalizing state with
  | nil =>
      obtain rfl := Option.some.inj analysed
      exact .refl
  | cons sec rest ih =>
      rw [List.foldlM_cons] at analysed
      obtain ⟨middle, first, analysed⟩ := Option.bind_eq_some_iff.mp analysed
      have adds := State.Adds.of_analyseSection recorded first
      exact adds.trans (ih (adds.recorded recorded) analysed)

/-! ## The whole discovery -/

variable {state : State}

theorem State.Recorded.addSymbols (recorded : state.Recorded config image) {symbols : List Symbol}
    (named : ∀ symbol ∈ symbols, Named config symbol ∧ symbol.type = .symbolFunction) :
    (symbols.foldl State.addSymbol state).Recorded config image := by
  induction symbols generalizing state with
  | nil => exact recorded
  | cons symbol rest ih =>
      obtain ⟨⟨first, type⟩, named⟩ := List.forall_mem_cons.mp named
      refine ih (recorded.addFunction ?_) named
      rwa [← type]

theorem State.Recorded.addRuntimeFunction (recorded : state.Recorded config image)
    (entry : RuntimeFunction) : (state.addRuntimeFunction entry).Recorded config image := by
  unfold State.addRuntimeFunction
  split
  · exact recorded.addFunction (.inr rfl)
  · exact recorded

theorem State.Recorded.addRuntimeFunctions (recorded : state.Recorded config image)
    (entries : List RuntimeFunction) :
    (entries.foldl State.addRuntimeFunction state).Recorded config image := by
  induction entries generalizing state with
  | nil => exact recorded
  | cons entry rest ih => exact ih (recorded.addRuntimeFunction entry)

/-- The state after the helpers and the configured functions were added. -/
def configuredFunctions (config : RecompilerConfig) (image : Image) : State :=
  config.configured.foldl State.addSymbol { symbols := image.symbols }

theorem knownFunctions_eq (pdata : Section) : knownFunctions config image pdata =
    pdata.runtimeFunctions.foldl State.addRuntimeFunction (configuredFunctions config image) := by
  rw [configuredFunctions, RecompilerConfig.configured, List.foldl_append]
  rfl

theorem configuredFunctions_recorded : (configuredFunctions config image).Recorded config image :=
  State.Recorded.addSymbols ⟨.refl _, by simp, by simp⟩ fun _ member => named_of_configured member

theorem knownFunctions_recorded (pdata : Section) :
    (knownFunctions config image pdata).Recorded config image := by
  rw [knownFunctions_eq]
  exact configuredFunctions_recorded.addRuntimeFunctions _

/-- Sorting the functions at the end. -/
theorem State.Recorded.sort (recorded : state.Recorded config image)
    (sorter : Sorted.Sorter Function.base) :
    ({ state with functions := sorter.sort state.functions } : State).Recorded config image :=
  ⟨(sorter.perm state.functions).trans recorded.functions, recorded.describes, recorded.ranges⟩

/-- What a completed discovery did. -/
theorem analyse_cases {fuel : Nat} {state : State}
    (analysed : analyse platform config fuel image = some state) :
    ∃ pdata found, image.findSection ".pdata" = some pdata ∧
      State.Adds (knownFunctions config image pdata) found ∧
      state = { found with functions := platform.sortFunctions.sort found.functions } := by
  obtain ⟨pdata, isPdata, analysed⟩ := Option.bind_eq_some_iff.mp analysed
  obtain ⟨found, folded, last⟩ := Option.bind_eq_some_iff.mp analysed
  refine ⟨pdata, found, isPdata, ?_, (Option.some.inj last).symm⟩
  exact .of_sections (knownFunctions_recorded pdata) folded

end UfcRecomp.Recompiler
