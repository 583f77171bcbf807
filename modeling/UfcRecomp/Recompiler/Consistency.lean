import UfcRecomp.Recompiler.Discovery

/-!
# The functions and the symbol table

`main` renames the symbol of the entry point after the analysis. The list of functions then
gives the bodies that are emitted, the symbol table the function mappings. Whether the two
agree is decided before any code is analysed.
-/

namespace UfcRecomp.Recompiler

open UfcRecomp.Ppc UfcRecomp.Utils UfcRecomp.Analyze UfcRecomp.Lib

namespace State

/-- What `main` does to the entry point before the recompilation. -/
def renameEntry (state : State) (image : Image) : State :=
  { state with symbols := state.symbols.rename image.entryPoint "_xstart" }

/-- The name under which `Recompile` emits the body of a function. -/
def bodyName (state : State) (fn : Function) : String :=
  match state.symbols.find fn.base with
  | some symbol => symbol.name
  | none => "sub_" ++ Radix.decimal fn.base

/-- The bodies that are emitted, one for each function. -/
def bodies (state : State) : List (String × Function) :=
  state.functions.map fun fn => (state.bodyName fn, fn)

/-- The entries of `PPCFuncMappings` in front of the last one. -/
def funcMappings (state : State) : List (Nat × String) :=
  state.symbols.symbols.map fun symbol => (symbol.address, symbol.name)

/-- The list of functions and the symbol table agree, also after the entry point got its name. -/
structure Consistent (state : State) (image : Image) : Prop where
  bases : (state.functions.map Function.base).Nodup
  found : ∀ fn ∈ state.functions, ∃ symbol,
    (fn, symbol) ∈ state.emplaced ∧ state.symbols.find fn.base = some symbol
  listed : ∀ body ∈ (state.renameEntry image).bodies,
    ((state.renameEntry image).funcMappings.filter fun entry => entry.1 = body.2.base) =
      [(body.2.base, body.1)]
  names : ((state.renameEntry image).bodies.map Prod.fst).Nodup

/-- Every function was added at an address of its own and is not empty. -/
structure Distinct (state : State) (image : Image) : Prop where
  addresses : (state.emplaced.map (Symbol.address ∘ Prod.snd)).Nodup
  nonempty : ∀ added ∈ state.emplaced, 0 < added.2.size
  separate : ∀ added ∈ state.emplaced, ∀ thunk ∈ image.symbols.symbols,
    thunk.address ≠ added.2.address

end State

variable {config : RecompilerConfig} {image : Image} {state : State}

/-- The addresses of the functions are those of their symbols. -/
theorem State.Recorded.bases (recorded : state.Recorded config image) :
    (state.functions.map Function.base).Perm
      (state.emplaced.map (Symbol.address ∘ Prod.snd)) := by
  refine (recorded.functions.map Function.base).trans (List.Perm.of_eq ?_)
  rw [List.map_map]
  exact List.map_congr_left fun added member => (recorded.describes added member).1.symm

/-- A function of the list was added. -/
theorem State.Recorded.exists_added (recorded : state.Recorded config image) {fn : Function}
    (member : fn ∈ state.functions) : ∃ symbol, (fn, symbol) ∈ state.emplaced := by
  obtain ⟨⟨fn, symbol⟩, among, rfl⟩ := List.mem_map.mp (recorded.functions.mem_iff.mp member)
  exact ⟨symbol, among⟩

theorem State.Recorded.mem_functions (recorded : state.Recorded config image) {fn : Function}
    {symbol : Symbol} (added : (fn, symbol) ∈ state.emplaced) : fn ∈ state.functions :=
  recorded.functions.mem_iff.mpr (List.mem_map_of_mem added)

/-- An element with a key of its own is the only one with that key. -/
theorem filter_eq_singleton {α κ : Type} [DecidableEq κ] {key : α → κ} {items : List α}
    (distinct : (items.map key).Nodup) {item : α} (member : item ∈ items) :
    items.filter (fun other => key other = key item) = [item] := by
  induction items with
  | nil => simp at member
  | cons head rest ih =>
      obtain ⟨apart, distinct⟩ := List.nodup_cons.mp distinct
      rcases List.mem_cons.mp member with rfl | member
      · rw [List.filter_cons_of_pos (by simp)]
        refine congrArg (item :: ·) (List.filter_eq_nil_iff.mpr fun other among same => ?_)
        exact apart (List.mem_map.mpr ⟨other, among, by simpa using same⟩)
      · rw [List.filter_cons_of_neg, ih distinct member]
        intro same
        exact apart (List.mem_map.mpr ⟨item, member, by simpa [eq_comm] using same⟩)

namespace State.Distinct

/-- A symbol that was added is alone at its address. -/
theorem equalRange (distinct : state.Distinct image) (recorded : state.Recorded config image)
    {added : Function × Symbol} (member : added ∈ state.emplaced) :
    state.symbols.equalRange added.2.address = [added.2] := by
  have thunks : image.symbols.equalRange added.2.address = [] := by
    refine List.filter_eq_nil_iff.mpr fun thunk among => ?_
    simpa using distinct.separate added member thunk among
  rw [recorded.ranges, thunks, List.nil_append]
  have addresses := distinct.addresses
  rw [← List.map_map] at addresses
  exact filter_eq_singleton addresses (List.mem_map_of_mem member)

/-- A symbol that was added is found. -/
theorem find (distinct : state.Distinct image) (recorded : state.Recorded config image)
    {added : Function × Symbol} (member : added ∈ state.emplaced) :
    state.symbols.find added.2.address = some added.2 :=
  SymbolTable.find_of_equalRange (distinct.equalRange recorded member)
    (distinct.nonempty added member)

/-- The symbol at an address where none is found does not exist. -/
theorem find_none (distinct : state.Distinct image) (recorded : state.Recorded config image)
    {address : Nat} (missing : state.symbols.find address = none) {symbol : Symbol}
    (member : symbol ∈ state.symbols.symbols) : symbol.address ≠ address := by
  intro here
  have empty := SymbolTable.find_none.mp missing symbol member here
  rcases recorded.mem_symbols.mp member with thunk | added
  · have size := (image.thunks symbol thunk).1
    omega
  · obtain ⟨pair, among, rfl⟩ := List.mem_map.mp added
    have nonempty := distinct.nonempty pair among
    omega

/-- The name of the entry point, and of everything else. -/
def entryName (image : Image) (symbol : Symbol) : String :=
  if symbol.address = image.entryPoint then "_xstart" else symbol.name

/-- What the table holds at an added symbol after the entry point got its name. -/
theorem equalRange_renameEntry (distinct : state.Distinct image)
    (recorded : state.Recorded config image) {added : Function × Symbol}
    (member : added ∈ state.emplaced) :
    (state.renameEntry image).symbols.equalRange added.2.address =
      [{ added.2 with name := entryName image added.2 }] := by
  have alone := distinct.equalRange recorded member
  by_cases entry : added.2.address = image.entryPoint
  · have renamed := SymbolTable.equalRange_rename state.symbols image.entryPoint "_xstart"
    rw [← entry, alone] at renamed
    rw [State.renameEntry, ← entry, renamed]
    simp [renameLast, entryName, ← entry, distinct.nonempty added member]
  · rw [State.renameEntry, SymbolTable.equalRange_rename_of_ne _ _ entry, alone, entryName,
      if_neg entry]

/-- The name of the body of an added function. -/
theorem bodyName_renameEntry (distinct : state.Distinct image)
    (recorded : state.Recorded config image) {added : Function × Symbol}
    (member : added ∈ state.emplaced) :
    (state.renameEntry image).bodyName added.1 = entryName image added.2 := by
  have found := SymbolTable.find_of_equalRange
    (show (state.renameEntry image).symbols.equalRange
        ({ added.2 with name := entryName image added.2 } : Symbol).address = _ from
      distinct.equalRange_renameEntry recorded member)
    (distinct.nonempty added member)
  rw [State.bodyName, ← (recorded.describes added member).1, found]

/-- The name of the entry point is not one that discovery gives. -/
theorem entryName_injective {left right : Symbol} (leftNamed : Named config left)
    (rightNamed : Named config right) (same : entryName image left = entryName image right) :
    left.address = right.address := by
  have apart : ∀ start ∈ namePrefixes, ¬start.toList <+: "_xstart".toList := by decide
  have notEntry : ∀ {symbol : Symbol}, Named config symbol → symbol.name ≠ "_xstart" := by
    intro symbol named isEntry
    obtain ⟨start, among, rest, name⟩ := named.starts
    refine apart start among ⟨rest.toList, ?_⟩
    rw [← String.toList_append, ← name, isEntry]
  unfold entryName at same
  split_ifs at same with leftEntry rightEntry rightEntry
  · rw [leftEntry, rightEntry]
  · exact absurd same.symm (notEntry rightNamed)
  · exact absurd same (notEntry leftNamed)
  · exact leftNamed.address_eq rightNamed same

/-- Functions at distinct addresses have distinct bodies, which the mappings list. -/
theorem consistent (distinct : state.Distinct image) (recorded : state.Recorded config image) :
    state.Consistent image where
  bases := recorded.bases.nodup_iff.mpr distinct.addresses
  found := by
    intro fn member
    obtain ⟨symbol, added⟩ := recorded.exists_added member
    have here := (recorded.describes _ added).1
    exact ⟨symbol, added, here ▸ distinct.find recorded added⟩
  listed := by
    intro body member
    obtain ⟨fn, among, rfl⟩ := List.mem_map.mp member
    obtain ⟨symbol, added⟩ := recorded.exists_added among
    have here : symbol.address = fn.base := (recorded.describes _ added).1
    have range := distinct.equalRange_renameEntry recorded added
    rw [State.funcMappings, List.filter_map, distinct.bodyName_renameEntry recorded added, ← here]
    exact congrArg (List.map fun symbol : Symbol => (symbol.address, symbol.name)) range
  names := by
    have names : (state.renameEntry image).bodies.map Prod.fst =
        state.functions.map (state.renameEntry image).bodyName := by
      simp [State.bodies, State.renameEntry]
    rw [names]
    refine (List.nodup_map_iff_inj_on ?_).mpr ?_
    · exact (recorded.bases.nodup_iff.mpr distinct.addresses).of_map _
    · intro left leftMember right rightMember same
      obtain ⟨leftSymbol, leftAdded⟩ := recorded.exists_added leftMember
      obtain ⟨rightSymbol, rightAdded⟩ := recorded.exists_added rightMember
      rw [distinct.bodyName_renameEntry recorded leftAdded,
        distinct.bodyName_renameEntry recorded rightAdded] at same
      have address := entryName_injective (recorded.describes _ leftAdded).2.2.2
        (recorded.describes _ rightAdded).2.2.2 same
      have both := List.inj_on_of_nodup_map distinct.addresses leftAdded rightAdded address
      exact congrArg Prod.fst both

end State.Distinct

/-- A consistent state keeps the addresses of its functions apart. -/
theorem State.Consistent.distinct (consistent : state.Consistent image)
    (recorded : state.Recorded config image) : state.Distinct image where
  addresses := recorded.bases.nodup_iff.mp consistent.bases
  nonempty := by
    intro added member
    obtain ⟨symbol, among, found⟩ := consistent.found added.1 (recorded.mem_functions member)
    have positive := (SymbolTable.find_some found).2.2
    have size := (recorded.describes _ among).2.1
    rw [(recorded.describes added member).2.1]
    exact size ▸ positive
  separate := by
    intro added member thunk among here
    have base : added.2.address = added.1.base := (recorded.describes added member).1
    have listed := congrArg List.length (consistent.listed
      ((state.renameEntry image).bodyName added.1, added.1)
      (List.mem_map_of_mem (recorded.mem_functions member)))
    rw [State.funcMappings, List.filter_map, List.length_map, List.length_singleton] at listed
    have single : ((state.renameEntry image).symbols.equalRange added.2.address).length = 1 :=
      base ▸ listed
    rw [State.renameEntry, SymbolTable.length_equalRange_rename, recorded.ranges,
      List.length_append] at single
    have first := List.length_pos_of_mem (SymbolTable.mem_equalRange.mpr ⟨among, here⟩)
    have second : 0 < ((state.emplaced.map Prod.snd).filter fun symbol =>
        symbol.address = added.2.address).length :=
      List.length_pos_of_mem (List.mem_filter.mpr ⟨List.mem_map_of_mem member, by simp⟩)
    omega

/-! ## What decides it -/

/-- Every entry of no length starts at a known address or at the address of an earlier entry. -/
def Entered (known : List Nat) : List RuntimeFunction → Prop
  | [] => True
  | entry :: rest =>
    (entry.functionLength = 0 → entry.beginAddress ∈ known) ∧
      Entered (entry.beginAddress :: known) rest

instance (known : List Nat) (entries : List RuntimeFunction) : Decidable (Entered known entries) :=
  match entries with
  | [] => inferInstanceAs (Decidable True)
  | entry :: rest =>
    have := instDecidableEntered (entry.beginAddress :: known) rest
    inferInstanceAs (Decidable (_ ∧ _))

/-- The configuration keeps its functions apart from each other and from the import thunks and
gives each a size, and no entry of `.pdata` without a length is the first at its address. -/
structure Coherent (config : RecompilerConfig) (image : Image) (pdata : Section) : Prop where
  addresses : (config.configured.map Symbol.address).Nodup
  nonempty : ∀ symbol ∈ config.configured, 0 < symbol.size
  separate : ∀ symbol ∈ config.configured, ∀ thunk ∈ image.symbols.symbols,
    thunk.address ≠ symbol.address
  lengths : Entered (config.configured.map Symbol.address ++
    image.symbols.symbols.map Symbol.address) pdata.runtimeFunctions

theorem Entered.congr {left right : List Nat} (same : ∀ address, address ∈ left ↔ address ∈ right)
    {entries : List RuntimeFunction} : Entered left entries ↔ Entered right entries := by
  induction entries generalizing left right with
  | nil => rfl
  | cons entry rest ih =>
      rw [Entered, Entered, same, ih]
      intro address
      rw [List.mem_cons, List.mem_cons, same]

/-- A function at an address without a symbol. -/
theorem State.distinct_addFunction (recorded : state.Recorded config image) {name : String}
    {fn : Function} (missing : state.symbols.find fn.base = none) :
    (state.addFunction name fn).Distinct image ↔ state.Distinct image ∧ 0 < fn.size := by
  constructor
  · intro distinct
    have kept : state.Distinct image := {
      addresses := by
        have addresses := distinct.addresses
        rw [State.addFunction, List.map_append] at addresses
        exact addresses.of_append_left
      nonempty := fun added member => distinct.nonempty added (List.mem_append_left _ member)
      separate := fun added member => distinct.separate added (List.mem_append_left _ member) }
    exact ⟨kept, distinct.nonempty _ (List.mem_append_right _ List.mem_cons_self)⟩
  · rintro ⟨distinct, nonempty⟩
    have apart := fun symbol => @State.Distinct.find_none _ _ _ distinct recorded _ missing symbol
    constructor
    · rw [State.addFunction, List.map_append]
      refine List.Nodup.append distinct.addresses (List.nodup_singleton _) ?_
      intro address member same
      obtain rfl := List.mem_singleton.mp same
      obtain ⟨added, among, here⟩ := List.mem_map.mp member
      exact apart added.2 (recorded.mem_symbols.mpr (.inr (List.mem_map_of_mem among))) here
    · intro added member
      rcases List.mem_append.mp member with old | new
      · exact distinct.nonempty added old
      · obtain rfl := List.mem_singleton.mp new
        exact nonempty
    · intro added member thunk among
      rcases List.mem_append.mp member with old | new
      · exact distinct.separate added old thunk among
      · obtain rfl := List.mem_singleton.mp new
        exact apart thunk (recorded.mem_symbols.mpr (.inl among))

/-- The work on the code sections neither helps nor harms. -/
theorem State.Adds.distinct_iff {first last : State} (adds : State.Adds first last)
    (recorded : first.Recorded config image) : last.Distinct image ↔ first.Distinct image := by
  induction adds with
  | refl => rfl
  | add prior missing nonempty ih =>
      rw [State.distinct_addFunction (prior.recorded recorded) missing, ih]
      exact and_iff_left (by omega)
  | skip _ ih =>
      rw [← ih]
      exact ⟨fun distinct => ⟨distinct.addresses, distinct.nonempty, distinct.separate⟩,
        fun distinct => ⟨distinct.addresses, distinct.nonempty, distinct.separate⟩⟩

/-- The entries of `.pdata`, one after the other. -/
theorem State.distinct_runtimeFunctions (recorded : state.Recorded config image)
    (entries : List RuntimeFunction) :
    (entries.foldl State.addRuntimeFunction state).Distinct image ↔
      state.Distinct image ∧ Entered (state.symbols.symbols.map Symbol.address) entries := by
  induction entries generalizing state with
  | nil => simp [Entered]
  | cons entry rest ih =>
      rw [List.foldl_cons, ih (recorded.addRuntimeFunction entry), Entered, ← and_assoc]
      cases found : state.symbols.find entry.beginAddress with
      | some symbol =>
          have unchanged : state.addRuntimeFunction entry = state := by
            simp [State.addRuntimeFunction, found]
          obtain ⟨member, here, -⟩ := SymbolTable.find_some found
          have known : entry.beginAddress ∈ state.symbols.symbols.map Symbol.address :=
            here ▸ List.mem_map_of_mem member
          have same : ∀ address, address ∈ state.symbols.symbols.map Symbol.address ↔
              address ∈ entry.beginAddress :: state.symbols.symbols.map Symbol.address := by
            intro address
            rw [List.mem_cons, iff_or_self]
            rintro rfl
            exact known
          rw [unchanged, Entered.congr same]
          simp [known]
      | none =>
          have added : state.addRuntimeFunction entry = state.addFunction
              (subName entry.beginAddress)
              { base := entry.beginAddress, size := entry.functionLength * 4 } := by
            simp [State.addRuntimeFunction, found]
          have same : ∀ address,
              address ∈ (state.addRuntimeFunction entry).symbols.symbols.map Symbol.address ↔
                address ∈ entry.beginAddress :: state.symbols.symbols.map Symbol.address := by
            intro address
            simp [added, State.addFunction, SymbolTable.mem_emplace, or_and_right, exists_or,
              eq_comm]
          rw [Entered.congr same, added, State.distinct_addFunction recorded found]
          refine and_congr_left fun _ => and_congr_right fun distinct => ?_
          have unknown : entry.beginAddress ∉ state.symbols.symbols.map Symbol.address := by
            intro known
            obtain ⟨symbol, member, here⟩ := List.mem_map.mp known
            exact distinct.find_none recorded found member here
          simp [unknown, Nat.pos_iff_ne_zero]

/-- Adding symbols one after the other. -/
theorem State.emplaced_addSymbols (symbols : List Symbol) :
    (symbols.foldl State.addSymbol state).emplaced = state.emplaced ++
      symbols.map fun symbol => ({ base := symbol.address, size := symbol.size },
        { symbol with type := .symbolFunction }) := by
  induction symbols generalizing state with
  | nil => simp
  | cons symbol rest ih => simp [ih, State.addSymbol, State.addFunction]

theorem emplaced_configuredFunctions : (configuredFunctions config image).emplaced =
    config.configured.map fun symbol => ({ base := symbol.address, size := symbol.size },
      { symbol with type := .symbolFunction }) := by
  rw [configuredFunctions, State.emplaced_addSymbols, List.nil_append]

/-- The configured functions alone. -/
theorem distinct_configuredFunctions : (configuredFunctions config image).Distinct image ↔
    (config.configured.map Symbol.address).Nodup ∧
      (∀ symbol ∈ config.configured, 0 < symbol.size) ∧
      ∀ symbol ∈ config.configured, ∀ thunk ∈ image.symbols.symbols,
        thunk.address ≠ symbol.address := by
  have emplaced := @emplaced_configuredFunctions config image
  have addresses : (configuredFunctions config image).emplaced.map (Symbol.address ∘ Prod.snd) =
      config.configured.map Symbol.address := by
    rw [emplaced, List.map_map]
    rfl
  constructor
  · intro distinct
    refine ⟨addresses ▸ distinct.addresses, ?_, ?_⟩
    · intro symbol member
      exact distinct.nonempty _ (emplaced ▸ List.mem_map_of_mem member)
    · intro symbol member
      exact distinct.separate _ (emplaced ▸ List.mem_map_of_mem member)
  · rintro ⟨apart, nonempty, separate⟩
    refine ⟨addresses.symm ▸ apart, ?_, ?_⟩
    all_goals
      intro added member
      rw [emplaced] at member
      obtain ⟨symbol, among, rfl⟩ := List.mem_map.mp member
    · exact nonempty symbol among
    · exact separate symbol among

/-- The functions that are known before any code is analysed. -/
theorem distinct_knownFunctions (pdata : Section) :
    (knownFunctions config image pdata).Distinct image ↔ Coherent config image pdata := by
  rw [knownFunctions_eq, State.distinct_runtimeFunctions configuredFunctions_recorded,
    distinct_configuredFunctions]
  have known : ∀ address,
      address ∈ (configuredFunctions config image).symbols.symbols.map Symbol.address ↔
        address ∈ config.configured.map Symbol.address ++
          image.symbols.symbols.map Symbol.address := by
    intro address
    have members := @State.Recorded.mem_symbols config image _ configuredFunctions_recorded
    simp only [List.mem_map, List.mem_append, members, emplaced_configuredFunctions]
    simp [or_and_right, exists_or, or_comm]
  rw [Entered.congr known]
  exact ⟨fun ⟨⟨addresses, nonempty, separate⟩, lengths⟩ =>
      ⟨addresses, nonempty, separate, lengths⟩,
    fun coherent => ⟨⟨coherent.addresses, coherent.nonempty, coherent.separate⟩,
      coherent.lengths⟩⟩

/-- The functions and the symbol table agree after the discovery exactly when the configuration
and `.pdata` are coherent. -/
theorem analyse_consistent {platform : Platform} {fuel : Nat} {pdata : Section}
    (isPdata : image.findSection ".pdata" = some pdata)
    (analysed : analyse platform config fuel image = some state) :
    state.Consistent image ↔ Coherent config image pdata := by
  obtain ⟨other, found, isOther, adds, rfl⟩ := analyse_cases analysed
  obtain rfl : other = pdata := Option.some.inj (isOther.symm.trans isPdata)
  rw [← distinct_knownFunctions, ← adds.distinct_iff (knownFunctions_recorded other)]
  have recorded := (adds.recorded (knownFunctions_recorded other)).sort platform.sortFunctions
  constructor
  · intro consistent
    have distinct := consistent.distinct recorded
    exact ⟨distinct.addresses, distinct.nonempty, distinct.separate⟩
  · intro distinct
    exact State.Distinct.consistent
      ⟨distinct.addresses, distinct.nonempty, distinct.separate⟩ recorded

/-- Code that `.pdata` lists one function of. -/
def listedImage (length : BitVec 8) (code : List (BitVec 8)) : Image where
  sections := [
    .ofAddress ".pdata" 0x1000 8 0 fun i =>
      ([0, 0, 0x20, 0, 0, 0, length, 0] : List (BitVec 8)).getD i.toNat 0,
    .ofAddress ".text" 0x2000 code.length sectionFlagsCode fun i => code.getD i.toNat 0]
  symbols := .empty
  entryPoint := 0x2000
  ordered := by simp [Section.ofAddress]
  thunks := SymbolTable.thunks_empty

/-- A listed function that calls the last one, a configured function, and the one that is called. -/
def callImage : Image :=
  listedImage 2 [0x48, 0, 0, 0xD, 0x4E, 0x80, 0, 0x20, 0x4E, 0x80, 0, 0x20, 0x4E, 0x80, 0, 0x20]

/-- The second function is configured. -/
def secondConfigured : RecompilerConfig where
  functions := ⟨[(0x2008, 4)], List.nodup_singleton _⟩

theorem analyse_consistent_callImage :
    ∃ state, analyse (insertionPlatform everyWord) secondConfigured 8 callImage = some state ∧
      state.functions.map Function.base = [0x2000, 0x2008, 0x200C] ∧ state.Consistent callImage := by
  have bases : (analyse (insertionPlatform everyWord) secondConfigured 8 callImage).map
      (fun state => state.functions.map Function.base) = some [0x2000, 0x2008, 0x200C] := by
    decide
  obtain ⟨state, analysed, three⟩ := Option.map_eq_some_iff.mp bases
  refine ⟨state, analysed, three, (analyse_consistent rfl analysed).mpr ⟨?_, ?_, ?_, ?_⟩⟩ <;> decide

/-- A function that `.pdata` lists without a length is emitted twice. -/
theorem not_analyse_consistent :
    ¬∀ (platform : Platform) (config : RecompilerConfig) (image : Image) (fuel : Nat)
      (state : State), analyse platform config fuel image = some state →
        state.Consistent image := by
  intro consistent
  have bases : (analyse (insertionPlatform everyWord) {} 4
      (listedImage 0 [0x4E, 0x80, 0, 0x20])).map
      (fun state => state.functions.map Function.base) = some [0x2000, 0x2000] := by
    decide
  obtain ⟨state, analysed, twice⟩ := Option.map_eq_some_iff.mp bases
  have apart := (consistent _ _ _ _ _ analysed).bases
  rw [twice] at apart
  exact absurd apart (by decide)

end UfcRecomp.Recompiler
