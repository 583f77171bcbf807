import UfcRecomp.Recompiler.Config
import Mathlib.Data.List.Induction

/-!
# Generated files

A run prints the functions into files of 256 functions each, which are numbered from zero. A file
that is already there with the same contents is left alone. Nothing takes a file away that an
earlier run left, and the build takes every file with a number.
-/

namespace UfcRecomp.Recompiler

open UfcRecomp.Lib UfcRecomp.Utils

/-- The contents of the output directory by the names of its files. -/
abbrev Directory := String → Option String

namespace Directory

def write (directory : Directory) (name contents : String) : Directory :=
  fun other => if other = name then some contents else directory other

theorem write_same (directory : Directory) (name contents : String) :
    directory.write name contents name = some contents := if_pos rfl

theorem write_of_ne {directory : Directory} {name other : String} (contents : String)
    (ne : other ≠ name) : directory.write name contents other = directory other := if_neg ne

end Directory

/-! ## What is printed -/

/-- What `Recompile` prints for a function. -/
structure Body where
  useAlias : Bool := false
  /-- The declarations of the functions of the hooks. -/
  hooks : String := ""
  name : String
  localVariables : String := ""
  statements : String := ""
  deriving DecidableEq, Repr

def Body.text (fn : Body) : String :=
  fn.hooks ++
  (if fn.useAlias then
    "__attribute__((alias(\"__imp__" ++ fn.name ++ "\"))) PPC_WEAK_FUNC(" ++ fn.name ++ ");\n"
  else "") ++
  "PPC_FUNC_IMPL(__imp__" ++ fn.name ++ ") \x7b\n" ++ "\tPPC_FUNC_PROLOGUE();\n" ++
  fn.localVariables ++ fn.statements ++ "\x7d\n\n" ++
  (if fn.useAlias then ""
  else
    "PPC_WEAK_FUNC(" ++ fn.name ++ ") \x7b\n" ++ "\t__imp__" ++ fn.name ++ "(ctx, base);\n" ++
      "\x7d\n\n")

/-- A run: what it prints into the header of the configuration, the header that it copies, the
symbols of its image and its functions. -/
structure Generation where
  config : String := ""
  header : String := ""
  symbols : List Symbol := []
  functions : List Body

/-- The part of a recompiler that printing changes. -/
structure Output where
  out : String := ""
  cppFileIndex : Nat := 0
  directory : Directory

def Output.print (output : Output) (text : String) : Output :=
  { output with out := output.out ++ text }

def Output.println (output : Output) (text : String) : Output :=
  output.print (text ++ "\n")

/-- `ppc_recomp.{}.cpp` -/
def cppName (index : Nat) : String := "ppc_recomp." ++ Radix.decimal index ++ ".cpp"

section

variable (shouldWrite : Directory → String → String → Bool)

/-- `SaveCurrentOutData`: an empty name stands for the next file with a number. -/
def saveCurrentOutData (name : String) (output : Output) : Output :=
  if output.out = "" then
    output
  else
    let fileName := if name = "" then cppName output.cppFileIndex else name
    { out := ""
      cppFileIndex := if name = "" then output.cppFileIndex + 1 else output.cppFileIndex
      directory :=
        if shouldWrite output.directory fileName output.out then
          output.directory.write fileName output.out
        else
          output.directory }

def includeShared : String := "#include \"ppc_recomp_shared.h\"\n\n"

/-- The headers and the table of the functions. -/
def recompileHeaders (generation : Generation) (output : Output) : Output :=
  let output := saveCurrentOutData shouldWrite "ppc_config.h" (output.print generation.config)
  let output := (output.println "#pragma once").println "#include \"ppc_config.h\"\n"
  let output := saveCurrentOutData shouldWrite "ppc_context.h" (output.print generation.header)
  let output := (((output.println "#pragma once\n").println "#include \"ppc_config.h\"").println
    "#include \"ppc_context.h\"\n")
  let output := saveCurrentOutData shouldWrite "ppc_recomp_shared.h"
    (generation.symbols.foldl
      (fun output symbol => output.println ("PPC_EXTERN_FUNC(" ++ symbol.name ++ ");")) output)
  let output := (output.println "#include \"ppc_recomp_shared.h\"\n").println
    "PPCFuncMapping PPCFuncMappings[] = \x7b"
  let output := generation.symbols.foldl (fun output symbol => output.println
    ("\t\x7b 0x" ++ Radix.hex symbol.address ++ ", " ++ symbol.name ++ " \x7d,")) output
  saveCurrentOutData shouldWrite "ppc_func_mapping.cpp"
    ((output.println "\t\x7b 0, nullptr \x7d").println "\x7d;")

/-- The loop over the functions, from the function with index `i` on. -/
def recompileFunctions : Nat → List Body → Output → Output
  | _, [], output => output
  | i, fn :: functions, output =>
    let output :=
      if i % 256 = 0 then
        (saveCurrentOutData shouldWrite "" output).print includeShared
      else
        output
    recompileFunctions (i + 1) functions (output.print fn.text)

/-- `Recompile`: the directory after a run. -/
def Generation.recompile (generation : Generation) (directory : Directory) : Directory :=
  let output := recompileHeaders shouldWrite generation { directory }
  (saveCurrentOutData shouldWrite "" (recompileFunctions shouldWrite 0 generation.functions
    output)).directory

end

/-- The file is not there with as many characters and the same hash. -/
def differs {Hash : Type} [DecidableEq Hash] (hash : String → Hash) (directory : Directory)
    (name out : String) : Bool :=
  match directory name with
  | some temp => !(temp.length = out.length && hash temp = hash out)
  | none => true

/-- Without the check. -/
def always (_ : Directory) (_ _ : String) : Bool := true

/-! ## Skipping -/

section

variable {Hash : Type} [DecidableEq Hash] {hash : String → Hash}

/-- A file that is left alone has the contents that would have been written. -/
theorem saveCurrentOutData_differs (sound : ∀ left right, hash left = hash right → left = right)
    (name : String) (output : Output) :
    saveCurrentOutData (differs hash) name output = saveCurrentOutData always name output := by
  unfold saveCurrentOutData
  by_cases nothing : output.out = ""
  · rw [if_pos nothing, if_pos nothing]
  · rw [if_neg nothing, if_neg nothing]
    simp only [always, if_true, Output.mk.injEq, true_and]
    generalize (if name = "" then cppName output.cppFileIndex else name) = fileName
    split_ifs with change
    · rfl
    · ext1 other
      unfold differs at change
      cases there : output.directory fileName with
      | none => rw [there] at change; exact absurd rfl change
      | some temp =>
          rw [there] at change
          simp only [Bool.not_eq_true, Bool.not_eq_false', Bool.and_eq_true,
            decide_eq_true_eq] at change
          by_cases same : other = fileName
          · rw [same, Directory.write_same, there, sound _ _ change.2]
          · rw [Directory.write_of_ne _ same]

theorem recompileFunctions_differs
    (sound : ∀ left right, hash left = hash right → left = right) (i : Nat)
    (functions : List Body) (output : Output) :
    recompileFunctions (differs hash) i functions output =
      recompileFunctions always i functions output := by
  induction functions generalizing i output with
  | nil => rfl
  | cons fn functions ih =>
      simp only [recompileFunctions, saveCurrentOutData_differs sound]
      exact ih _ _

/-- Leaving equal files alone gives what always writing gives. -/
theorem recompile_differs (sound : ∀ left right, hash left = hash right → left = right)
    (generation : Generation) :
    generation.recompile (differs hash) = generation.recompile always := by
  ext1 directory
  simp only [Generation.recompile, recompileHeaders, saveCurrentOutData_differs sound,
    recompileFunctions_differs sound]

end

/-! ## The files of a run -/

/-- The bodies one behind the other. -/
def texts : List Body → String
  | [] => ""
  | fn :: functions => fn.text ++ texts functions

theorem texts_append (left right : List Body) :
    texts (left ++ right) = texts left ++ texts right := by
  induction left with
  | nil => exact String.empty_append.symm
  | cons fn left ih => rw [List.cons_append, texts, texts, ih, String.append_assoc]

theorem length_text_ne_zero (fn : Body) : fn.text.length ≠ 0 := by
  simp only [Body.text, String.length_append]
  have : 0 < "PPC_FUNC_IMPL(__imp__".length := by decide
  omega

/-- A file with the bodies of some functions. -/
def fileText (functions : List Body) : String := includeShared ++ texts functions

theorem fileText_ne_empty (functions : List Body) : fileText functions ≠ "" := by
  intro empty
  have lengths := congrArg String.length empty
  rw [fileText, String.length_append] at lengths
  have : 0 < includeShared.length := by decide
  have : "".length = 0 := rfl
  omega

/-- The number of files for a number of functions. -/
def fileCount (count : Nat) : Nat := (count + 255) / 256

/-- The functions of a file. -/
def chunk (functions : List Body) (index : Nat) : List Body :=
  (functions.drop (256 * index)).take 256

theorem chunk_ne_nil {functions : List Body} {index : Nat}
    (small : index < fileCount functions.length) : chunk functions index ≠ [] := by
  intro empty
  have length := congrArg List.length empty
  rw [chunk, List.length_take, List.length_drop, List.length_nil] at length
  unfold fileCount at small
  omega

/-- The first files hold the functions that they have room for. -/
theorem flatMap_chunk (functions : List Body) (count : Nat) :
    (List.range count).flatMap (chunk functions) = functions.take (256 * count) := by
  induction count with
  | zero => rfl
  | succ count ih =>
      rw [List.range_succ, List.flatMap_append, ih, Nat.mul_succ, List.take_add]
      simp [chunk]

theorem flatMap_chunk_fileCount (functions : List Body) :
    (List.range (fileCount functions.length)).flatMap (chunk functions) = functions := by
  rw [flatMap_chunk]
  apply List.take_of_length_le
  unfold fileCount
  omega

/-- The directory after the first files. -/
def written (before : Directory) (functions : List Body) : Nat → Directory
  | 0 => before
  | count + 1 =>
    (written before functions count).write (cppName count) (fileText (chunk functions count))

/-- In front of function `i`: the files that are full are in the directory, and what is printed is
the file of the functions since. -/
structure Flushed (before : Directory) (functions : List Body) (i : Nat) (output : Output) :
    Prop where
  index : output.cppFileIndex = fileCount i - 1
  directory : output.directory = written before functions (fileCount i - 1)
  out : output.out =
    if i = 0 then "" else fileText ((functions.take i).drop (256 * (fileCount i - 1)))

theorem Flushed.zero (before : Directory) (functions : List Body) :
    Flushed before functions 0 { directory := before } := ⟨rfl, rfl, rfl⟩

/-- Saving what is printed. -/
theorem saveCurrentOutData_numbered {output : Output} (printed : output.out ≠ "") :
    saveCurrentOutData always "" output =
      { out := "", cppFileIndex := output.cppFileIndex + 1
        directory := output.directory.write (cppName output.cppFileIndex) output.out } := by
  rw [saveCurrentOutData, if_neg printed]
  rfl

/-- A full file is saved. -/
theorem Flushed.save {before : Directory} {functions : List Body} {i : Nat} {output : Output}
    (flushed : Flushed before functions i output)
    (full : i % 256 = 0 ∨ functions.length ≤ i) :
    (saveCurrentOutData always "" output).cppFileIndex = fileCount i ∧
    (saveCurrentOutData always "" output).directory = written before functions (fileCount i) ∧
    (saveCurrentOutData always "" output).out = "" := by
  obtain ⟨index, directory, out⟩ := flushed
  by_cases first : i = 0
  · subst first
    rw [if_pos rfl] at out
    rw [saveCurrentOutData, if_pos out]
    exact ⟨index, directory, out⟩
  · rw [if_neg first] at out
    have last : fileCount i = fileCount i - 1 + 1 := by
      unfold fileCount
      omega
    have content : (functions.take i).drop (256 * (fileCount i - 1)) =
        chunk functions (fileCount i - 1) := by
      rw [List.drop_take, chunk]
      rcases full with full | full
      · have : i - 256 * (fileCount i - 1) = 256 := by
          unfold fileCount
          omega
        rw [this]
      · rw [List.take_of_length_le, List.take_of_length_le]
        · rw [List.length_drop]
          unfold fileCount
          omega
        · rw [List.length_drop]
          omega
    rw [content] at out
    rw [saveCurrentOutData_numbered (out ▸ fileText_ne_empty _), index, directory, out]
    refine ⟨last.symm, ?_, rfl⟩
    conv_rhs => rw [last]
    rfl

/-- One turn of the loop. -/
theorem Flushed.step {before : Directory} {functions : List Body} {i : Nat} {output : Output}
    {fn : Body} (flushed : Flushed before functions i output) (here : functions[i]? = some fn) :
    Flushed before functions (i + 1) ((if i % 256 = 0 then
      (saveCurrentOutData always "" output).print includeShared else output).print fn.text) := by
  have taken : functions.take (i + 1) = functions.take i ++ [fn] := by
    rw [List.take_add_one, here]
    rfl
  obtain ⟨inside, -⟩ := List.getElem?_eq_some_iff.mp here
  have texts_one : texts [fn] = fn.text := String.append_empty
  by_cases full : i % 256 = 0
  · obtain ⟨index, directory, out⟩ := flushed.save (.inl full)
    have count : fileCount (i + 1) - 1 = fileCount i := by
      unfold fileCount
      omega
    have start : (functions.take i).drop (256 * fileCount i) = [] := by
      apply List.drop_eq_nil_of_le
      rw [List.length_take]
      unfold fileCount
      omega
    have exactly : 256 * fileCount i - (functions.take i).length = 0 := by
      rw [List.length_take]
      unfold fileCount
      omega
    rw [if_pos full]
    constructor
    · rw [count]
      exact index
    · rw [count]
      exact directory
    · rw [if_neg (Nat.succ_ne_zero i), count, taken, List.drop_append, start, exactly]
      change (saveCurrentOutData always "" output).out ++ includeShared ++ fn.text = _
      rw [out, String.empty_append, List.nil_append, List.drop_zero, fileText, texts_one]
  · obtain ⟨index, directory, out⟩ := flushed
    have count : fileCount (i + 1) = fileCount i := by
      unfold fileCount
      omega
    have behind : 256 * (fileCount i - 1) ≤ (functions.take i).length := by
      rw [List.length_take]
      unfold fileCount
      omega
    rw [if_neg full]
    constructor
    · rw [count]
      exact index
    · rw [count]
      exact directory
    · rw [if_neg (by omega)] at out
      rw [if_neg (Nat.succ_ne_zero i), count, taken, List.drop_append_of_le_length behind]
      change output.out ++ fn.text = _
      rw [out, fileText, fileText, texts_append, texts_one, String.append_assoc]

/-- The whole loop. -/
theorem Flushed.run {before : Directory} {functions : List Body} {i : Nat} {rest : List Body}
    {output : Output} (flushed : Flushed before functions i output)
    (behind : functions.drop i = rest) (inside : i ≤ functions.length) :
    Flushed before functions functions.length (recompileFunctions always i rest output) := by
  induction rest generalizing i output with
  | nil =>
      have done := List.drop_eq_nil_iff.mp behind
      obtain rfl : i = functions.length := by omega
      exact flushed
  | cons fn rest ih =>
      have here : functions[i]? = some fn := by
        rw [← List.head?_drop, behind]
        rfl
      obtain ⟨more, -⟩ := List.getElem?_eq_some_iff.mp here
      refine ih (flushed.step here) ?_ more
      rw [← List.drop_drop, behind]
      rfl

theorem cppName_injective {left right : Nat} (same : cppName left = cppName right) :
    left = right := by
  rw [cppName, cppName, String.append_left_inj, String.append_right_inj] at same
  exact Radix.text_injective (by decide) (by decide) same

theorem written_of_ne {before : Directory} {functions : List Body} {name : String} {count : Nat}
    (others : ∀ index < count, name ≠ cppName index) :
    written before functions count name = before name := by
  induction count with
  | zero => rfl
  | succ count ih =>
      rw [written, Directory.write_of_ne _ (others count (Nat.lt_succ_self count))]
      exact ih fun index less => others index (Nat.lt_succ_of_lt less)

theorem written_cppName {before : Directory} {functions : List Body} {index count : Nat}
    (less : index < count) :
    written before functions count (cppName index) = some (fileText (chunk functions index)) := by
  induction count with
  | zero => exact absurd less (Nat.not_lt_zero index)
  | succ count ih =>
      by_cases last : index = count
      · subst last
        exact Directory.write_same _ _ _
      · rw [written, Directory.write_of_ne _ fun same => last (cppName_injective same)]
        exact ih (by omega)

/-! ## The build -/

/-- The names that the build takes: `ppc_recomp.*.cpp`. -/
def Globbed (name : String) : Prop := ∃ middle, name = "ppc_recomp." ++ middle ++ ".cpp"

theorem globbed_cppName (index : Nat) : Globbed (cppName index) := ⟨_, rfl⟩

theorem Globbed.front {name : String} (globbed : Globbed name) :
    name.toList.take 11 = "ppc_recomp.".toList := by
  obtain ⟨middle, rfl⟩ := globbed
  have length : "ppc_recomp.".toList.length = 11 := rfl
  rw [String.toList_append, String.toList_append, List.append_assoc, ← length, List.take_left]

/-- Nothing of a kind is written but files with names of their own. -/
structure Plain (before : Directory) (output : Output) : Prop where
  index : output.cppFileIndex = 0
  directory : ∀ name, Globbed name → output.directory name = before name

namespace Plain

variable {before : Directory} {output : Output}

theorem print (plain : Plain before output) (text : String) : Plain before (output.print text) :=
  ⟨plain.index, plain.directory⟩

theorem println (plain : Plain before output) (text : String) :
    Plain before (output.println text) :=
  plain.print _

theorem foldl (plain : Plain before output) {α : Type} (entries : List α) (line : α → String) :
    Plain before (entries.foldl (fun output entry => output.println (line entry)) output) := by
  induction entries generalizing output with
  | nil => exact plain
  | cons entry entries ih => exact ih (plain.println (line entry))

theorem save (plain : Plain before output) {name : String} (named : name ≠ "")
    (own : name.toList.take 11 ≠ "ppc_recomp.".toList) :
    Plain before (saveCurrentOutData always name output) := by
  rw [saveCurrentOutData, if_neg named, if_neg named]
  split_ifs with nothing
  · exact plain
  · refine ⟨plain.index, fun other globbed => ?_⟩
    have ne : other ≠ name := fun same => own (same ▸ globbed.front)
    exact (Directory.write_of_ne _ ne).trans (plain.directory other globbed)

end Plain

theorem out_saveCurrentOutData (shouldWrite : Directory → String → String → Bool) (name : String)
    (output : Output) : (saveCurrentOutData shouldWrite name output).out = "" := by
  unfold saveCurrentOutData
  by_cases nothing : output.out = ""
  · rw [if_pos nothing]
    exact nothing
  · rw [if_neg nothing]

theorem plain_recompileHeaders (generation : Generation) (before : Directory) :
    Plain before (recompileHeaders always generation { directory := before }) := by
  have start : Plain before { directory := before } := ⟨rfl, fun _ _ => rfl⟩
  have config := @Plain.save _ _ (start.print generation.config) "ppc_config.h" (by decide)
    (by decide)
  have context := @Plain.save _ _
    (((config.println "#pragma once").println "#include \"ppc_config.h\"\n").print
      generation.header) "ppc_context.h" (by decide) (by decide)
  have shared := @Plain.save _ _
    ((((context.println "#pragma once\n").println "#include \"ppc_config.h\"").println
      "#include \"ppc_context.h\"\n").foldl generation.symbols
        fun symbol => "PPC_EXTERN_FUNC(" ++ symbol.name ++ ");") "ppc_recomp_shared.h"
      (by decide) (by decide)
  exact @Plain.save _ _
    (((((shared.println "#include \"ppc_recomp_shared.h\"\n").println
      "PPCFuncMapping PPCFuncMappings[] = \x7b").foldl generation.symbols fun symbol =>
        "\t\x7b 0x" ++ Radix.hex symbol.address ++ ", " ++ symbol.name ++ " \x7d,").println
      "\t\x7b 0, nullptr \x7d").println "\x7d;") "ppc_func_mapping.cpp" (by decide) (by decide)

/-- The files with numbers that a run leaves. -/
theorem recompile_globbed (generation : Generation) (before : Directory) :
    ∃ headers : Directory, (∀ name, Globbed name → headers name = before name) ∧
      generation.recompile always before =
        written headers generation.functions (fileCount generation.functions.length) := by
  have plain := plain_recompileHeaders generation before
  have out : (recompileHeaders always generation { directory := before }).out = "" :=
    out_saveCurrentOutData _ _ _
  have start : Flushed (recompileHeaders always generation { directory := before }).directory
      generation.functions 0 (recompileHeaders always generation { directory := before }) :=
    ⟨plain.index, rfl, out⟩
  have done := start.run List.drop_zero (Nat.zero_le _)
  exact ⟨_, plain.directory, (done.save (.inr (Nat.le_refl _))).2.1⟩

theorem recompile_cppName {generation : Generation} {index : Nat} (before : Directory)
    (less : index < fileCount generation.functions.length) :
    generation.recompile always before (cppName index) =
      some (fileText (chunk generation.functions index)) := by
  obtain ⟨headers, -, files⟩ := recompile_globbed generation before
  rw [files, written_cppName less]

theorem recompile_of_ne {generation : Generation} {name : String} (before : Directory)
    (globbed : Globbed name)
    (others : ∀ index < fileCount generation.functions.length, name ≠ cppName index) :
    generation.recompile always before name = before name := by
  obtain ⟨headers, same, files⟩ := recompile_globbed generation before
  rw [files, written_of_ne others, same name globbed]

/-! ## Several runs -/

/-- Runs into one directory, one after the other. -/
def recompileAll (shouldWrite : Directory → String → String → Bool) (directory : Directory)
    (runs : List Generation) : Directory :=
  runs.foldl (fun directory generation => generation.recompile shouldWrite directory) directory

theorem recompileAll_concat (shouldWrite : Directory → String → String → Bool)
    (directory : Directory) (runs : List Generation) (last : Generation) :
    recompileAll shouldWrite directory (runs ++ [last]) =
      last.recompile shouldWrite (recompileAll shouldWrite directory runs) := by
  rw [recompileAll, List.foldl_append]
  rfl

def Generation.fileCount (generation : Generation) : Nat :=
  Recompiler.fileCount generation.functions.length

/-- A file that no run has written. -/
theorem recompileAll_of_ne {initial : Directory} {runs : List Generation} {name : String}
    (globbed : Globbed name)
    (others : ∀ run ∈ runs, ∀ index < run.fileCount, name ≠ cppName index) :
    recompileAll always initial runs name = initial name := by
  induction runs using List.reverseRecOn with
  | nil => rfl
  | append_singleton runs last ih =>
      rw [recompileAll_concat, recompile_of_ne _ globbed (others last (by simp))]
      exact ih fun run member => others run (by simp [member])

/-- A file that some run has written has functions of a run in it. -/
theorem exists_fileText {initial : Directory} {runs : List Generation} {run : Generation}
    {index : Nat} (member : run ∈ runs) (less : index < run.fileCount) :
    ∃ part, part ≠ [] ∧
      recompileAll always initial runs (cppName index) = some (fileText part) := by
  induction runs using List.reverseRecOn with
  | nil => exact absurd member (List.not_mem_nil)
  | append_singleton runs last ih =>
      rw [recompileAll_concat]
      by_cases again : index < last.fileCount
      · exact ⟨_, chunk_ne_nil again, recompile_cppName _ again⟩
      · have earlier : run ∈ runs := by
          rcases List.mem_append.mp member with earlier | same
          · exact earlier
          · rw [List.mem_singleton.mp same] at less
            exact absurd less again
        rw [recompile_of_ne _ (globbed_cppName index) fun other small same =>
          again (cppName_injective same ▸ small)]
        exact ih earlier

/-! ## Completeness -/

/-- The files that the build takes are numbered from zero on and hold, taken together, each function
once and in order. -/
def Complete (directory : Directory) (functions : List Body) : Prop :=
  ∃ parts : List (List Body), parts.flatten = functions ∧
    ∀ name contents, Globbed name → (directory name = some contents ↔
      ∃ index part, parts[index]? = some part ∧ name = cppName index ∧ contents = fileText part)

theorem length_texts_flatten (parts : List (List Body)) :
    (texts parts.flatten).length = (parts.map fun part => (texts part).length).sum := by
  induction parts with
  | nil => rfl
  | cons part parts ih =>
      rw [List.flatten_cons, texts_append, String.length_append, ih, List.map_cons, List.sum_cons]

theorem texts_of_fileText {left right : List Body} (same : fileText left = fileText right) :
    texts left = texts right := (String.append_right_inj includeShared).mp same

section

variable {initial : Directory} (fresh : ∀ name, Globbed name → initial name = none)
  {runs : List Generation} {last : Generation}

include fresh

/-- The last run has written all files that there are. -/
theorem complete_of_le (counts : ∀ earlier ∈ runs, earlier.fileCount ≤ last.fileCount) :
    Complete (recompileAll always initial (runs ++ [last])) last.functions := by
  refine ⟨(List.range last.fileCount).map (chunk last.functions), ?_,
    fun name contents globbed => ?_⟩
  · rw [← List.flatMap_def]
    exact flatMap_chunk_fileCount last.functions
  rw [recompileAll_concat]
  by_cases numbered : ∃ index < last.fileCount, name = cppName index
  · obtain ⟨index, less, rfl⟩ := numbered
    rw [recompile_cppName _ less]
    constructor
    · intro same
      refine ⟨index, chunk last.functions index, ?_, rfl, (Option.some.inj same).symm⟩
      rw [List.getElem?_map, List.getElem?_range less]
      rfl
    · rintro ⟨other, part, here, same, rfl⟩
      obtain rfl := cppName_injective same
      rw [List.getElem?_map, List.getElem?_range less] at here
      rw [← Option.some.inj here]
  · have others : ∀ index < last.fileCount, name ≠ cppName index := fun index less same =>
      numbered ⟨index, less, same⟩
    rw [recompile_of_ne _ globbed others, recompileAll_of_ne globbed fun run member index less =>
      others index (Nat.lt_of_lt_of_le less (counts run member)), fresh name globbed]
    constructor
    · intro absent
      exact absurd absent (by simp)
    · rintro ⟨index, part, here, rfl, -⟩
      obtain ⟨less, -⟩ := List.getElem?_eq_some_iff.mp here
      rw [List.length_map, List.length_range] at less
      exact absurd rfl (others index less)

omit fresh in
/-- A file of an earlier run has functions that are not among those of the last. -/
theorem le_of_complete
    (complete : Complete (recompileAll always initial (runs ++ [last])) last.functions) :
    ∀ earlier ∈ runs, earlier.fileCount ≤ last.fileCount := by
  intro earlier member
  by_contra more
  rw [recompileAll_concat] at complete
  obtain ⟨parts, whole, files⟩ := complete
  -- the first file that the last run has not written
  obtain ⟨stale, nonempty, there⟩ := @exists_fileText initial runs earlier last.fileCount member
    (Nat.lt_of_not_le more)
  have kept := recompile_of_ne (recompileAll always initial runs) (globbed_cppName last.fileCount)
    fun (index : Nat) (less : index < last.fileCount) same =>
      absurd (cppName_injective same) (by omega)
  obtain ⟨index, part, here, same, text⟩ := (files _ _ (globbed_cppName _)).mp (kept.trans there)
  obtain rfl := cppName_injective same
  have long : 0 < (texts part).length := by
    rw [← texts_of_fileText text]
    obtain ⟨fn, rest, rfl⟩ := List.exists_cons_of_ne_nil nonempty
    have := length_text_ne_zero fn
    rw [texts, String.length_append]
    omega
  -- the files before it hold all functions
  have before : (parts.take last.fileCount).map (fun part => (texts part).length) =
      ((List.range last.fileCount).map (chunk last.functions)).map
        fun part => (texts part).length := by
    obtain ⟨less, -⟩ := List.getElem?_eq_some_iff.mp here
    apply List.ext_getElem?
    intro index
    by_cases small : index < last.fileCount
    · obtain ⟨other, held, found, equal, content⟩ := (files (cppName index) _
        (globbed_cppName index)).mp (recompile_cppName (recompileAll always initial runs) small)
      obtain rfl := cppName_injective equal
      rw [List.getElem?_map, List.getElem?_take_of_lt small, found, List.getElem?_map,
        List.getElem?_map, List.getElem?_range small]
      simp only [Option.map_some, texts_of_fileText content]
    · rw [List.getElem?_eq_none (by simp; omega), List.getElem?_eq_none (by simp; omega)]
  have all := flatMap_chunk_fileCount last.functions
  have total := length_texts_flatten parts
  obtain ⟨less, value⟩ := List.getElem?_eq_some_iff.mp here
  rw [whole, ← List.take_append_drop last.fileCount parts, List.map_append, List.sum_append, before,
    ← length_texts_flatten, ← List.flatMap_def,
    show (List.range last.fileCount).flatMap (chunk last.functions) = last.functions from all,
    List.drop_eq_getElem_cons less, value, List.map_cons, List.sum_cons] at total
  omega

end

/-- Runs leave a complete directory when no run before the last has written more files. -/
theorem complete_iff {initial : Directory} (fresh : ∀ name, Globbed name → initial name = none)
    (runs : List Generation) (last : Generation) :
    Complete (recompileAll always initial (runs ++ [last])) last.functions ↔
      ∀ earlier ∈ runs, earlier.fileCount ≤ last.fileCount :=
  ⟨le_of_complete, complete_of_le fresh⟩

/-! ## Running again -/

/-- What is printed does not depend on the directory: the same files are written over both. -/
structure Overlaid (first second : Directory) (left right : Output) : Prop where
  out : left.out = right.out
  index : left.cppFileIndex = right.cppFileIndex
  directory : ∃ files : Directory, left.directory = (fun name => (files name).or (first name)) ∧
    right.directory = fun name => (files name).or (second name)

namespace Overlaid

variable {first second : Directory} {left right : Output}

theorem print (overlaid : Overlaid first second left right) (text : String) :
    Overlaid first second (left.print text) (right.print text) :=
  ⟨congrArg (· ++ text) overlaid.out, overlaid.index, overlaid.directory⟩

theorem println (overlaid : Overlaid first second left right) (text : String) :
    Overlaid first second (left.println text) (right.println text) :=
  overlaid.print _

theorem foldl (overlaid : Overlaid first second left right) {α : Type} (entries : List α)
    (line : α → String) :
    Overlaid first second (entries.foldl (fun output entry => output.println (line entry)) left)
      (entries.foldl (fun output entry => output.println (line entry)) right) := by
  induction entries generalizing left right with
  | nil => exact overlaid
  | cons entry entries ih => exact ih (overlaid.println (line entry))

theorem write_or (files before : Directory) (name contents : String) :
    Directory.write (fun other => (files other).or (before other)) name contents =
      fun other => ((files.write name contents) other).or (before other) := by
  ext1 other
  by_cases same : other = name
  · subst same
    rw [Directory.write_same, Directory.write_same, Option.some_or]
  · rw [Directory.write_of_ne _ same, Directory.write_of_ne _ same]

theorem save (overlaid : Overlaid first second left right) (name : String) :
    Overlaid first second (saveCurrentOutData always name left)
      (saveCurrentOutData always name right) := by
  obtain ⟨out, index, files, leftFiles, rightFiles⟩ := overlaid
  unfold saveCurrentOutData
  rw [out, index]
  by_cases nothing : right.out = ""
  · rw [if_pos nothing, if_pos nothing]
    exact ⟨out, index, files, leftFiles, rightFiles⟩
  · rw [if_neg nothing, if_neg nothing]
    refine ⟨rfl, rfl, files.write (if name = "" then cppName right.cppFileIndex else name)
      right.out, ?_, ?_⟩
    · rw [leftFiles]
      exact write_or _ _ _ _
    · rw [rightFiles]
      exact write_or _ _ _ _

theorem headers (overlaid : Overlaid first second left right) (generation : Generation) :
    Overlaid first second (recompileHeaders always generation left)
      (recompileHeaders always generation right) :=
  ((((((((((((((overlaid.print _).save _).println _).println _).print _).save _).println _).println
    _).println _).foldl generation.symbols _).save _).println _).println _).foldl generation.symbols
      _).println _ |>.println _ |>.save _

theorem functions (overlaid : Overlaid first second left right) (i : Nat) (functions : List Body) :
    Overlaid first second (recompileFunctions always i functions left)
      (recompileFunctions always i functions right) := by
  induction functions generalizing i left right with
  | nil => exact overlaid
  | cons fn functions ih =>
      apply ih
      split_ifs with full
      · exact ((overlaid.save "").print includeShared).print fn.text
      · exact overlaid.print fn.text

end Overlaid

/-- A second run of the same leaves everything as it is. -/
theorem recompile_recompile (generation : Generation) (before : Directory) :
    generation.recompile always (generation.recompile always before) =
      generation.recompile always before := by
  have start : Overlaid before (generation.recompile always before) { directory := before }
      { directory := generation.recompile always before } :=
    ⟨rfl, rfl, fun _ => none, rfl, rfl⟩
  obtain ⟨files, once, twice⟩ :=
    (((start.headers generation).functions 0 generation.functions).save "").directory
  change generation.recompile always before = _ at once
  change generation.recompile always (generation.recompile always before) = _ at twice
  rw [twice, once]
  ext1 name
  change (files name).or ((files name).or (before name)) = _
  rw [← Option.or_assoc, Option.or_self]

/-! ## Regeneration -/

/-- After each of the runs the build takes one body for each function of that run, leaving equal
files alone makes no difference, and running again changes nothing. -/
structure Regenerates {Hash : Type} [DecidableEq Hash] (hash : String → Hash) (initial : Directory)
    (runs : List Generation) : Prop where
  complete : ∀ before last, before ++ [last] <+: runs →
    Complete (recompileAll (differs hash) initial (before ++ [last])) last.functions
  skips : ∀ before, before <+: runs →
    recompileAll (differs hash) initial before = recompileAll always initial before
  idempotent : ∀ before last, before ++ [last] <+: runs →
    last.recompile (differs hash) (recompileAll (differs hash) initial (before ++ [last])) =
      recompileAll (differs hash) initial (before ++ [last])

/-- A relation holds of all pairs when it holds between each entry and those before it. -/
theorem pairwise_iff_concat {α : Type} {related : α → α → Prop} {entries : List α} :
    entries.Pairwise related ↔
      ∀ before last, before ++ [last] <+: entries → ∀ earlier ∈ before, related earlier last := by
  constructor
  · intro all before last front earlier member
    exact (List.pairwise_append.mp (all.sublist front.sublist)).2.2 earlier member last
      (List.mem_singleton.mpr rfl)
  · intro each
    induction entries using List.reverseRecOn with
    | nil => exact List.Pairwise.nil
    | append_singleton entries last ih =>
        refine List.pairwise_append.mpr ⟨ih fun before other front => ?_,
          List.pairwise_singleton _ _, fun earlier member other same => ?_⟩
        · exact each before other (front.trans (List.prefix_append entries [last]))
        · rw [List.mem_singleton.mp same]
          exact each entries last List.prefix_rfl earlier member

theorem recompileAll_differs {Hash : Type} [DecidableEq Hash] {hash : String → Hash}
    (sound : ∀ left right, hash left = hash right → left = right) (initial : Directory)
    (runs : List Generation) :
    recompileAll (differs hash) initial runs = recompileAll always initial runs := by
  simp only [recompileAll, recompile_differs sound]

/-- Runs into one directory regenerate when none writes fewer files than an earlier one. -/
theorem regenerates_iff {Hash : Type} [DecidableEq Hash] {hash : String → Hash}
    (sound : ∀ left right, hash left = hash right → left = right) {initial : Directory}
    (fresh : ∀ name, Globbed name → initial name = none) (runs : List Generation) :
    Regenerates hash initial runs ↔
      runs.Pairwise fun earlier later => earlier.fileCount ≤ later.fileCount := by
  rw [pairwise_iff_concat]
  constructor
  · intro regenerates before last front
    have complete := regenerates.complete before last front
    rw [recompileAll_differs sound] at complete
    exact le_of_complete complete
  · intro counts
    constructor
    · intro before last front
      rw [recompileAll_differs sound]
      exact complete_of_le fresh (counts before last front)
    · intro before front
      exact recompileAll_differs sound initial before
    · intro before last front
      rw [recompileAll_differs sound, recompile_differs sound, recompileAll_concat]
      exact recompile_recompile last _

theorem regenerates_twice : Regenerates id (fun _ => none)
    [{ functions := [{ name := "sub_82000000" }] },
      { functions := [{ name := "sub_82000010" }] }] :=
  (regenerates_iff (fun _ _ same => same) (fun _ _ => rfl) _).mpr
    (List.pairwise_pair.mpr (by decide))

/-- A run of 257 functions, and one of a single function. -/
theorem not_regenerates : ¬∀ {Hash : Type} [DecidableEq Hash] {hash : String → Hash},
    (∀ left right, hash left = hash right → left = right) → ∀ {initial : Directory},
      (∀ name, Globbed name → initial name = none) → ∀ runs : List Generation,
        Regenerates hash initial runs := by
  intro every
  have complete := (@every String _ id (fun _ _ same => same) (fun _ => none) (fun _ _ => rfl)
    [{ functions := (List.range 257).map fun i => { name := subName (0x82000000 + 4 * i) } },
      { functions := [{ name := "sub_82000000" }] }]).complete [_] _ List.prefix_rfl
  rw [@recompileAll_differs String _ id fun _ _ same => same] at complete
  have less := le_of_complete complete _ List.mem_cons_self
  simp only [Generation.fileCount, fileCount, List.length_map, List.length_range,
    List.length_singleton] at less
  omega

end UfcRecomp.Recompiler
