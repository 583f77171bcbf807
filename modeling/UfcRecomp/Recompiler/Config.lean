import UfcRecomp.Utils.Symbols
import UfcRecomp.Lib.Radix
import UfcRecomp.Ppc.Word

/-!
# Configuration

The part of the configuration that function discovery and code emission read.
-/

namespace UfcRecomp.Recompiler

open UfcRecomp.Ppc UfcRecomp.Utils UfcRecomp.Lib

/-- An `unordered_map` with its entries in iteration order. -/
structure UnorderedMap (κ α : Type) where
  entries : List (κ × α)
  nodup : (entries.map Prod.fst).Nodup

namespace UnorderedMap

variable {κ α : Type}

def empty : UnorderedMap κ α := ⟨[], List.nodup_nil⟩

def find [DecidableEq κ] (map : UnorderedMap κ α) (key : κ) : Option α :=
  (map.entries.find? fun entry => entry.1 = key).map Prod.snd

theorem mem_of_find [DecidableEq κ] {map : UnorderedMap κ α} {key : κ} {value : α}
    (found : map.find key = some value) : (key, value) ∈ map.entries := by
  obtain ⟨⟨other, value⟩, search, rfl⟩ := Option.map_eq_some_iff.mp found
  obtain rfl : other = key := by simpa using List.find?_some search
  exact List.mem_of_find?_eq_some search

end UnorderedMap

structure RecompilerSwitchTable where
  r : Nat
  labels : List Nat
  deriving DecidableEq, Repr

structure RecompilerMidAsmHook where
  name : String := ""
  registers : List String := []
  ret : Bool := false
  returnOnTrue : Bool := false
  returnOnFalse : Bool := false
  jumpAddress : Nat := 0
  jumpAddressOnTrue : Nat := 0
  jumpAddressOnFalse : Nat := 0
  afterInstruction : Bool := false
  deriving DecidableEq, Repr

/-- Whether a hook answers with a condition. -/
def RecompilerMidAsmHook.returnsBool (hook : RecompilerMidAsmHook) : Bool :=
  hook.returnOnFalse || hook.returnOnTrue || hook.jumpAddressOnFalse ≠ 0 ||
    hook.jumpAddressOnTrue ≠ 0

structure RecompilerConfig where
  switchTables : UnorderedMap Nat RecompilerSwitchTable := .empty
  skipLr : Bool := false
  ctrAsLocalVariable : Bool := false
  xerAsLocalVariable : Bool := false
  reservedRegisterAsLocalVariable : Bool := false
  crRegistersAsLocalVariables : Bool := false
  nonArgumentRegistersAsLocalVariables : Bool := false
  nonVolatileRegistersAsLocalVariables : Bool := false
  restGpr14Address : Nat := 0
  saveGpr14Address : Nat := 0
  restFpr14Address : Nat := 0
  saveFpr14Address : Nat := 0
  restVmx14Address : Nat := 0
  saveVmx14Address : Nat := 0
  restVmx64Address : Nat := 0
  saveVmx64Address : Nat := 0
  longJmpAddress : Nat := 0
  setJmpAddress : Nat := 0
  functions : UnorderedMap Nat Nat := .empty
  invalidInstructions : UnorderedMap Word Nat := .empty
  midAsmHooks : UnorderedMap Nat RecompilerMidAsmHook := .empty

/-- The name that function discovery gives to a function that is not a helper. -/
def subName (address : Nat) : String := "sub_" ++ Radix.hex address

/-- Register `i` of a family of save and restore helpers; an address of zero means that the
family is not configured. Each helper runs through to the end of its family. -/
def helper (name : String) (address i first stride last rest : Nat) : List Symbol :=
  if address ≠ 0 then
    [⟨name ++ Radix.decimal i, address + (i - first) * stride, (last - i) * stride + rest,
      .symbolFunction⟩]
  else
    []

/-- The helpers of register `i`, in the order of their insertion. -/
def RecompilerConfig.helpersOf (config : RecompilerConfig) (i : Nat) : List Symbol :=
  (if i < 32 then
    helper "__restgprlr_" config.restGpr14Address i 14 4 32 12 ++
    helper "__savegprlr_" config.saveGpr14Address i 14 4 32 8 ++
    helper "__restfpr_" config.restFpr14Address i 14 4 32 4 ++
    helper "__savefpr_" config.saveFpr14Address i 14 4 32 4 ++
    helper "__restvmx_" config.restVmx14Address i 14 8 32 4 ++
    helper "__savevmx_" config.saveVmx14Address i 14 8 32 4
  else []) ++
  (if 64 ≤ i then
    helper "__restvmx_" config.restVmx64Address i 64 8 128 4 ++
    helper "__savevmx_" config.saveVmx64Address i 64 8 128 4
  else [])

/-- The helpers of all registers. -/
def RecompilerConfig.helpers (config : RecompilerConfig) : List Symbol :=
  (List.range' 14 114).flatMap config.helpersOf

/-- The explicitly configured functions. -/
def RecompilerConfig.explicit (config : RecompilerConfig) : List Symbol :=
  config.functions.entries.map fun entry =>
    ⟨subName entry.1, entry.1, entry.2, .symbolFunction⟩

/-- The helpers and the explicitly configured functions, in the order of their insertion. -/
def RecompilerConfig.configured (config : RecompilerConfig) : List Symbol :=
  config.helpers ++ config.explicit

end UfcRecomp.Recompiler
