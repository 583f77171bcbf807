import UfcRecomp.Analyze.Extent
import UfcRecomp.Recompiler.Body

/-!
# Switch tables

A table is keyed at the first instruction of its dispatch sequence and stays pending until
the next `bctr` takes it. The `switch` that is emitted there leaves to the label that all
64 bits of the selector choose, or from the function for a label outside of it.
-/

namespace UfcRecomp.Recompiler

open UfcRecomp.Ppc UfcRecomp.Utils UfcRecomp.Analyze

/-! ## Where statements leave to -/

/-- How control leaves the statements of an instruction. -/
inductive Exit where
  | goto (address : Nat)
  | ret
  | longjmp
  | unreachable
  deriving DecidableEq, Repr

def Action.exit : Action → Option Exit
  | .goto address => some (.goto address)
  | .ret => some .ret
  | .longjmp => some .longjmp
  | _ => none

/-- The first action that leaves; `none` when control goes on behind the actions. -/
def exits (actions : List Action) : Option Exit := actions.findSome? Action.exit

/-- A `switch` enters its cases at the selected one and runs through to its default. -/
def switchExit (cases : List (List Action)) (selector : BitVec 64) : Exit :=
  (exits (cases.drop selector.toNat).flatten).getD .unreachable

namespace Emitter

variable (emitter : Emitter) (fn : Function) (code : Int → Word)

/-- The table that is keyed at a word. -/
def keyed (i : Nat) : Option RecompilerSwitchTable :=
  emitter.config.switchTables.find (uint32 (fn.base + 4 * i))

/-- A dispatch sequence: a table is keyed at its first word, its last word is its only `bctr`,
and no other table is keyed in it. -/
structure Dispatches (first last : Nat) (table : RecompilerSwitchTable) : Prop where
  keyed : emitter.keyed fn first = some table
  ordered : first ≤ last
  bctr : (emitter.insn fn code last).opcode = some .bctr
  only : ∀ i, first ≤ i → i < last → (emitter.insn fn code i).opcode ≠ some .bctr
  alone : ∀ i, first < i → i ≤ last → emitter.keyed fn i = none

/-- Every table that is keyed at a word of the function has a dispatch sequence in it. -/
def Disjoint : Prop :=
  ∀ first table, first < words fn → emitter.keyed fn first = some table →
    ∃ last, last < words fn ∧ emitter.Dispatches fn code first last table

variable {emitter fn code}

/-- A table that is pending was keyed at a word with no `bctr` since. -/
theorem exists_keyed_of_switchTable {i : Nat} {table : RecompilerSwitchTable}
    (isTable : (emitter.before fn code i).switchTable = some table) :
    ∃ first < i, emitter.keyed fn first = some table ∧
      ∀ j, first ≤ j → j < i → (emitter.insn fn code j).opcode ≠ some .bctr := by
  induction i generalizing table with
  | zero => simp [before] at isTable
  | succ i ih =>
      rw [switchTable_succ] at isTable
      split_ifs at isTable with bctr
      unfold Emitter.pending pendingAt at isTable
      split at isTable
      next earlier =>
        obtain rfl := Option.some.inj isTable
        obtain ⟨first, less, keyed, without⟩ := ih earlier
        refine ⟨first, Nat.lt_succ_of_lt less, keyed, fun j low high => ?_⟩
        rcases Nat.lt_succ_iff_lt_or_eq.mp high with before | rfl
        · exact without j low before
        · exact bctr
      · refine ⟨i, Nat.lt_succ_self i, isTable, fun j low high => ?_⟩
        obtain rfl : j = i := by omega
        exact bctr

/-- No table is pending in front of a dispatch sequence. -/
theorem switchTable_first (disjoint : emitter.Disjoint fn code) {first : Nat}
    {table : RecompilerSwitchTable} (inside : first < words fn)
    (keyed : emitter.keyed fn first = some table) :
    (emitter.before fn code first).switchTable = none := by
  cases isTable : (emitter.before fn code first).switchTable with
  | none => rfl
  | some other =>
      obtain ⟨earlier, less, otherKeyed, without⟩ := exists_keyed_of_switchTable isTable
      obtain ⟨last, -, dispatches⟩ := disjoint earlier other (by omega) otherKeyed
      have behind : first ≤ last := by
        by_contra before
        exact without last dispatches.ordered (by omega) dispatches.bctr
      have none := dispatches.alone first less behind
      rw [keyed] at none
      simp at none

/-- The table of a sequence is pending at each of its words. -/
theorem pending_of_dispatches (disjoint : emitter.Disjoint fn code) {first last : Nat}
    {table : RecompilerSwitchTable} (inside : first < words fn)
    (dispatches : emitter.Dispatches fn code first last table) {i : Nat} (low : first ≤ i)
    (high : i ≤ last) : emitter.pending fn code i = some table := by
  induction i, low using Nat.le_induction with
  | base =>
      rw [Emitter.pending, switchTable_first disjoint inside dispatches.keyed]
      exact dispatches.keyed
  | succ i low ih =>
      have here := ih (by omega)
      rw [Emitter.pending, switchTable_succ, if_neg (dispatches.only i low (by omega)), here]
      rfl

end Emitter

/-- The low half of a register. -/
def low32 (value : BitVec 64) : Nat := value.toNat % 2 ^ 32

theorem exits_append (left right : List Action) : exits (left ++ right) =
    (exits left).or (exits right) := by
  rw [exits, List.findSome?_append]
  rfl

theorem exits_printCase (fn : Function) (label : Nat) :
    exits (Emitter.printCase fn label) =
      some (if Inside fn label then .goto label else .ret) := by
  unfold Emitter.printCase
  split_ifs <;> rfl

/-- The exit of a `switch` over the labels of a table. -/
theorem switchExit_printCase (fn : Function) (labels : List Nat) (selector : BitVec 64) :
    switchExit (labels.map (Emitter.printCase fn)) selector =
      match labels[selector.toNat]? with
      | some label => if Inside fn label then .goto label else .ret
      | none => .unreachable := by
  rw [switchExit, ← List.map_drop]
  cases selected : labels[selector.toNat]? with
  | none =>
      rw [List.drop_of_length_le (List.getElem?_eq_none_iff.mp selected)]
      rfl
  | some label =>
      obtain ⟨inside, rfl⟩ := List.getElem?_eq_some_iff.mp selected
      rw [List.drop_eq_getElem_cons inside, List.map_cons, List.flatten_cons, exits_append,
        exits_printCase]
      rfl

/-- The configuration of one switch table. -/
def tableConfig (key : Nat) (table : RecompilerSwitchTable) : RecompilerConfig where
  switchTables := ⟨[(key, table)], List.nodup_singleton _⟩

/-- An emitter without symbols that has a case for every ordinary instruction. -/
def plainEmitter (config : RecompilerConfig) : Emitter :=
  ⟨everyWord, config, .empty, fun _ => true⟩

/-- A `bctr` with a table of its own address. -/
def switchEmitter : Emitter := plainEmitter (tableConfig 0x1000 ⟨11, [0x1000]⟩)

theorem switchEmitter_dispatches :
    switchEmitter.Dispatches ⟨0x1000, 4, []⟩ (fun _ => 0x4E800420) 0 0 ⟨11, [0x1000]⟩ := by
  refine ⟨by decide, Nat.le_refl 0, by decide, fun i _ less => ?_, fun i less high => ?_⟩
  · exact absurd less (Nat.not_lt_zero i)
  · omega

theorem switchEmitter_disjoint : switchEmitter.Disjoint ⟨0x1000, 4, []⟩ fun _ => 0x4E800420 := by
  intro first table inside keyed
  obtain rfl : first = 0 := by
    change first < 1 at inside
    omega
  obtain rfl : (⟨11, [0x1000]⟩ : RecompilerSwitchTable) = table := Option.some.inj keyed
  exact ⟨0, inside, switchEmitter_dispatches⟩

end UfcRecomp.Recompiler
