import UfcRecomp.Recompiler.Switch

/-!
# The labels of a function

The first pass takes its labels from the bits of the words, the second pass its targets from
the decoded operands. Both agree on the branches inside a function, as long as 32-bit targets
do not wrap around. A label is printed where a word starts, so that a target between two
words has none. A `switch` goes on as the guest does where its label is printed; it tests all 64
bits of the selector, although the guard in front of the sequence compares only its low half.
-/

namespace UfcRecomp.Recompiler

open UfcRecomp.Ppc UfcRecomp.Utils UfcRecomp.Analyze

/-! ## Targets -/

def Action.gotos : Action → List Nat
  | .goto address => [address]
  | _ => []

/-- The labels that a statement may jump to. -/
def Statement.gotos : Statement → List Nat
  | .act action => action.gotos
  | .ifThen _ actions => actions.flatMap Action.gotos
  | .ifHook _ _ onTrue onFalse => (onTrue ++ onFalse).flatMap Action.gotos
  | .switch _ cases => cases.flatten.flatMap Action.gotos
  | .comment | .label _ => []

def Statement.isLabel : Statement → Bool
  | .label _ => true
  | _ => false

namespace Emitter

variable {emitter : Emitter} {fn : Function} {code : Int → Word}

theorem gotos_printFunctionCall (address : Nat) :
    (emitter.printFunctionCall address).flatMap Action.gotos = [] := by
  unfold printFunctionCall
  split_ifs
  · rfl
  · rfl
  · split
    · split_ifs <;> rfl
    · rfl

/-- A conditional branch jumps to its target, if it lies in the function. -/
theorem mem_gotos_printConditionalBranchTo {target address : Nat} {condition : Condition}
    (jump : address ∈ (emitter.printConditionalBranchTo fn target condition).flatMap
      Statement.gotos) : Inside fn address ∧ address = target := by
  unfold printConditionalBranchTo at jump
  split_ifs at jump with inside
  · obtain rfl : address = target := by simpa [Statement.gotos, Action.gotos] using jump
    exact ⟨inside, rfl⟩
  · rw [List.flatMap_singleton, Statement.gotos, List.flatMap_append,
      gotos_printFunctionCall] at jump
    simp [Action.gotos] at jump

theorem gotos_map_act (actions : List Action) :
    (actions.map Statement.act).flatMap Statement.gotos = actions.flatMap Action.gotos := by
  rw [List.flatMap_map]
  rfl

theorem mem_gotos_printCase {label address : Nat}
    (jump : address ∈ (printCase fn label).flatMap Action.gotos) :
    Inside fn address ∧ address = label := by
  unfold printCase at jump
  split_ifs at jump with inside
  · obtain rfl : address = label := by simpa [Action.gotos] using jump
    exact ⟨inside, rfl⟩
  · simp [Action.gotos] at jump

/-- The addresses that a hook may jump to. -/
def jumps (hook : RecompilerMidAsmHook) : List Nat :=
  [hook.jumpAddress, hook.jumpAddressOnTrue, hook.jumpAddressOnFalse].filter (· ≠ 0)

theorem mem_gotos_printLeave {ret : Bool} {jumpAddress address : Nat}
    (jump : address ∈ (printLeave ret jumpAddress).flatMap Action.gotos) :
    address = jumpAddress ∧ jumpAddress ≠ 0 := by
  unfold printLeave at jump
  split_ifs at jump with returns nonzero
  · simp [Action.gotos] at jump
  · simpa [Action.gotos, nonzero] using jump
  · simp at jump

theorem mem_gotos_printMidAsmHook {hook : RecompilerMidAsmHook} {address : Nat}
    (jump : address ∈ (printMidAsmHook hook).flatMap Statement.gotos) : address ∈ jumps hook := by
  unfold printMidAsmHook at jump
  split_ifs at jump
  · simp only [List.flatMap_cons, List.flatMap_nil, List.append_nil, Statement.gotos,
      List.flatMap_append, List.mem_append] at jump
    rcases jump with onTrue | onFalse
    · obtain ⟨rfl, nonzero⟩ := mem_gotos_printLeave onTrue
      simp [jumps, nonzero]
    · obtain ⟨rfl, nonzero⟩ := mem_gotos_printLeave onFalse
      simp [jumps, nonzero]
  · rw [List.flatMap_cons, gotos_map_act, List.mem_append] at jump
    rcases jump with call | leave
    · simp [Statement.gotos, Action.gotos] at call
    · obtain ⟨rfl, nonzero⟩ := mem_gotos_printLeave leave
      simp [jumps, nonzero]

/-- The case of an instruction jumps to the target of a direct branch or to a label of the
pending table, inside the function. -/
theorem mem_gotos_recompileCase {base : Nat} {insn : Insn} {id : PpcInst}
    {switchTable next : Option RecompilerSwitchTable} {statements : List Statement}
    (printed : emitter.recompileCase fn base insn id switchTable = some (statements, next))
    {address : Nat} (jump : address ∈ statements.flatMap Statement.gotos) :
    Inside fn address ∧
      ((∃ index, id.targetOperand = some index ∧ id ≠ .bl ∧
          address = (insn.operand index).toNat) ∨
        ∃ table, switchTable = some table ∧ address ∈ table.labels) := by
  cases printed_of_recompileCase printed with
  | goto inside =>
      obtain rfl : address = (insn.operand 0).toNat := by
        simpa [Statement.gotos, Action.gotos] using jump
      exact ⟨inside, .inl ⟨0, rfl, by simp, rfl⟩⟩
  | tailCall outside =>
      rw [gotos_map_act, List.flatMap_append, gotos_printFunctionCall] at jump
      simp [Action.gotos] at jump
  | call link =>
      rw [List.flatMap_append, gotos_map_act, gotos_printFunctionCall] at jump
      rcases link with rfl | rfl <;> simp [Statement.gotos, Action.gotos] at jump
  | @conditional _ _ index _ count target _ notCall counts =>
      have noCount : count.flatMap Statement.gotos = [] := by
        rcases counts with rfl | rfl <;> rfl
      rw [List.flatMap_append, noCount, List.nil_append] at jump
      obtain ⟨inside, isTarget⟩ := mem_gotos_printConditionalBranchTo jump
      exact ⟨inside, .inl ⟨index, target, notCall, isTarget⟩⟩
  | @switch table =>
      rw [List.flatMap_singleton, Statement.gotos, List.mem_flatMap] at jump
      obtain ⟨action, among, jump⟩ := jump
      obtain ⟨actions, member, among⟩ := List.mem_flatten.mp among
      obtain ⟨label, listed, rfl⟩ := List.mem_map.mp member
      obtain ⟨inside, rfl⟩ := mem_gotos_printCase (List.mem_flatMap.mpr ⟨action, among, jump⟩)
      exact ⟨inside, .inr ⟨table, rfl, listed⟩⟩
  | callIndirect link =>
      rcases link with rfl | rfl <;> simp [Statement.gotos, Action.gotos] at jump
  | _ => simp [Statement.gotos, Action.gotos] at jump

/-- What a word may jump to: also to the addresses of a hook at its address. -/
theorem mem_gotos_recompileInsn {base : Nat} {insn : Insn} {id : PpcInst}
    {switchTable : Option RecompilerSwitchTable} {address : Nat}
    (jump : address ∈ (emitter.recompileInsn fn base insn id switchTable).1.flatMap
      Statement.gotos) :
    (Inside fn address ∧
      ((∃ index, id.targetOperand = some index ∧ id ≠ .bl ∧
          address = (insn.operand index).toNat) ∨
        ∃ table, switchTable = some table ∧ address ∈ table.labels)) ∨
    ∃ hook, emitter.config.midAsmHooks.find base = some hook ∧ address ∈ jumps hook := by
  have hooks : ∀ afterInstruction : Bool,
      address ∈ (emitter.printedHooks base afterInstruction).flatMap Statement.gotos →
        ∃ hook, emitter.config.midAsmHooks.find base = some hook ∧ address ∈ jumps hook := by
    intro afterInstruction jump
    obtain ⟨statement, member, jump⟩ := List.mem_flatMap.mp jump
    obtain ⟨hook, found, member⟩ := mem_printedHooks member
    exact ⟨hook, found, mem_gotos_printMidAsmHook (List.mem_flatMap.mpr ⟨statement, member, jump⟩)⟩
  cases printed : emitter.recompileCase fn base insn id switchTable with
  | none =>
      rw [recompileInsn_of_none printed] at jump
      exact .inr (hooks false jump)
  | some result =>
      obtain ⟨statements, next⟩ := result
      rw [recompileInsn_of_some printed, List.flatMap_append, List.flatMap_append,
        List.mem_append, List.mem_append] at jump
      rcases jump with (front | middle) | back
      · exact .inr (hooks false front)
      · exact .inl (mem_gotos_recompileCase printed middle)
      · exact .inr (hooks true back)

/-- A table that is pending was keyed at a word of the function. -/
theorem keyed_of_pending {i : Nat} {table : RecompilerSwitchTable}
    (pending : emitter.pending fn code i = some table) :
    ∃ j ≤ i, emitter.config.switchTables.find (uint32 (fn.base + 4 * j)) = some table := by
  induction i generalizing table with
  | zero => exact ⟨0, Nat.le_refl 0, pending⟩
  | succ i ih =>
      unfold Emitter.pending pendingAt at pending
      split at pending
      next isTable =>
        obtain rfl := Option.some.inj pending
        rw [switchTable_succ] at isTable
        split_ifs at isTable
        obtain ⟨j, less, keyed⟩ := ih isTable
        exact ⟨j, Nat.le_succ_of_le less, keyed⟩
      · exact ⟨i + 1, Nat.le_refl _, pending⟩

/-- A label of a table that is pending was collected. -/
theorem mem_labels_of_pending {i : Nat} (inside : i < words fn) {table : RecompilerSwitchTable}
    (pending : emitter.pending fn code i = some table) {address : Nat}
    (listed : address ∈ table.labels) : address ∈ emitter.labels fn code := by
  obtain ⟨j, less, keyed⟩ := keyed_of_pending pending
  refine List.mem_flatMap.mpr ⟨j, List.mem_range.mpr (by omega), ?_⟩
  unfold labelsAt
  rw [keyed]
  exact List.mem_append_left _ (List.mem_append_right _ listed)

theorem mem_labels_of_hook {i : Nat} (inside : i < words fn) {hook : RecompilerMidAsmHook}
    (found : emitter.config.midAsmHooks.find (uint32 (fn.base + 4 * i)) = some hook)
    {address : Nat} (jump : address ∈ jumps hook) : address ∈ emitter.labels fn code := by
  refine List.mem_flatMap.mpr ⟨i, List.mem_range.mpr inside, ?_⟩
  unfold labelsAt
  rw [found]
  exact List.mem_append_right _ jump

/-- The target of a direct branch without a link that lies in the function was collected, when
the function is too short for targets to wrap around. -/
theorem mem_labels_of_target (short : fn.size ≤ 2 ^ 32 - 2 ^ 25) {i : Nat}
    (inside : i < words fn) {id : PpcInst} {index : Nat}
    (decoded : (emitter.insn fn code i).opcode = some id)
    (target : id.targetOperand = some index) (noLink : id ≠ .bl) {address : Nat}
    (isTarget : address = ((emitter.insn fn code i).operand index).toNat)
    (isInside : Inside fn address) :
    address ∈ emitter.labels fn code ∧ (4 ∣ fn.base → 4 ∣ address) := by
  have word : 4 * i < fn.size := by
    unfold words at inside
    omega
  obtain ⟨low, high⟩ := isInside
  -- The address of a branch and its target are both in the function, so that they are less than
  -- the wraparound apart.
  have unwrap : ∀ displacement : Int, -2 ^ 25 ≤ displacement → displacement ≤ 2 ^ 25 →
      4 ∣ displacement →
      (address : Int) = ((fn.base + 4 * i : Nat) + displacement) % 2 ^ 32 →
        sizeT ((fn.base + 4 * i : Nat) + displacement) = address ∧ (4 ∣ fn.base → 4 ∣ address) := by
    intro displacement least most aligned wrapped
    have straight : (address : Int) = (fn.base + 4 * i : Nat) + displacement := by omega
    refine ⟨?_, by omega⟩
    unfold sizeT
    omega
  have collected : ∀ displacement : Int,
      sizeT ((fn.base + 4 * i : Nat) + displacement) = address →
      ppcBl (code i) = false ∧ (ppcOp (code i) = ppcOpB ∧ displacement = ppcBi (code i) ∨
        ppcOp (code i) = ppcOpBc ∧ displacement = ppcBd (code i)) →
      address ∈ emitter.labels fn code := by
    rintro displacement rfl ⟨link, branches⟩
    refine List.mem_flatMap.mpr ⟨i, List.mem_range.mpr inside, ?_⟩
    refine List.mem_append_left _ (List.mem_append_left _ ?_)
    rcases branches with ⟨op, rfl⟩ | ⟨op, rfl⟩
    · simp [op, link]
    · simp [op, ppcOpB, ppcOpBc]
  rcases target_of_disassemble decoded target with ⟨isB, op, link, operand⟩ |
    ⟨-, op, link, operand⟩
  · have bounds := ppcBi_bounds (code i)
    obtain ⟨same, aligned⟩ := unwrap (ppcBi (code i)) (by omega) (by omega)
      (ppcBi_dvd _) (isTarget ▸ operand)
    rw [decide_eq_false noLink] at link
    exact ⟨collected _ same ⟨link, .inl ⟨op, rfl⟩⟩, aligned⟩
  · have bounds := ppcBd_bounds (code i)
    obtain ⟨same, aligned⟩ := unwrap (ppcBd (code i)) (by omega) (by omega)
      (ppcBd_dvd _) (isTarget ▸ operand)
    exact ⟨collected _ same ⟨link, .inr ⟨op, rfl⟩⟩, aligned⟩

/-! ## Printed labels -/

theorem not_label_of_printFunctionCall {actions : List Action} {statement : Statement}
    (member : statement ∈ actions.map Statement.act) : statement.isLabel = false := by
  obtain ⟨action, -, rfl⟩ := List.mem_map.mp member
  rfl

theorem not_label_of_printMidAsmHook {hook : RecompilerMidAsmHook} {statement : Statement}
    (member : statement ∈ printMidAsmHook hook) : statement.isLabel = false := by
  unfold printMidAsmHook at member
  split_ifs at member
  · obtain rfl := List.mem_singleton.mp member
    rfl
  · rcases List.mem_cons.mp member with rfl | leave
    · rfl
    · exact not_label_of_printFunctionCall leave

/-- The case of an instruction prints no label. -/
theorem not_label_of_recompileCase {base : Nat} {insn : Insn} {id : PpcInst}
    {switchTable next : Option RecompilerSwitchTable} {statements : List Statement}
    (printed : emitter.recompileCase fn base insn id switchTable = some (statements, next))
    {statement : Statement} (member : statement ∈ statements) : statement.isLabel = false := by
  cases printed_of_recompileCase printed with
  | tailCall outside => exact not_label_of_printFunctionCall member
  | call link =>
      rcases List.mem_append.mp member with setLr | call
      · rcases link with rfl | rfl
        · simp at setLr
        · obtain rfl := List.mem_singleton.mp setLr
          rfl
      · exact not_label_of_printFunctionCall call
  | conditional _ _ _ counts =>
      rcases List.mem_append.mp member with count | branch
      · rcases counts with rfl | rfl
        · simp at count
        · obtain rfl := List.mem_singleton.mp count
          rfl
      · unfold printConditionalBranchTo at branch
        split_ifs at branch <;> obtain rfl := List.mem_singleton.mp branch <;> rfl
  | callIndirect link =>
      rcases link with rfl | rfl <;> simp at member
      · rw [member]
        rfl
      · rcases member with rfl | rfl <;> rfl
  | jumpIndirect => simp at member; rcases member with rfl | rfl <;> rfl
  | bdzlr => simp at member; rcases member with rfl | rfl <;> rfl
  | _ =>
      obtain rfl := List.mem_singleton.mp member
      rfl

theorem not_label_of_printedInsn {i : Nat} {statement : Statement}
    (member : statement ∈ emitter.printedInsn fn code i) : statement.isLabel = false := by
  unfold printedInsn at member
  split at member
  · obtain rfl := List.mem_singleton.mp member
    rfl
  next id decoded =>
    have hooks : ∀ afterInstruction : Bool,
        statement ∈ emitter.printedHooks (uint32 (fn.base + 4 * i)) afterInstruction →
          statement.isLabel = false := by
      intro afterInstruction member
      obtain ⟨hook, -, member⟩ := mem_printedHooks member
      exact not_label_of_printMidAsmHook member
    cases printed : emitter.recompileCase fn (uint32 (fn.base + 4 * i)) (emitter.insn fn code i) id
        (emitter.pending fn code i) with
    | none =>
        rw [recompileInsn_of_none printed] at member
        rcases List.mem_cons.mp member with rfl | hook
        · rfl
        · exact hooks false hook
    | some result =>
        obtain ⟨statements, next⟩ := result
        rw [recompileInsn_of_some printed] at member
        rcases List.mem_append.mp member with front | back
        · rcases List.mem_append.mp front with front | middle
          · rcases List.mem_cons.mp front with rfl | hook
            · rfl
            · exact hooks false hook
          · exact not_label_of_recompileCase printed middle
        · exact hooks true back

/-- A label is printed once, where a word starts that was collected. -/
theorem count_label (n address : Nat) : (emitter.before fn code n).body.count (.label address) =
    if address ∈ emitter.labels fn code ∧ ∃ i < n, fn.base + 4 * i = address then 1 else 0 := by
  induction n with
  | zero => simp [before]
  | succ n ih =>
      have noLabel : (emitter.printedInsn fn code n).count (.label address) = 0 := by
        refine List.count_eq_zero.mpr fun member => ?_
        simpa [Statement.isLabel] using not_label_of_printedInsn member
      rw [body_succ, List.count_append, List.count_append, ih, noLabel, Nat.add_zero, printedLabel]
      by_cases here : fn.base + 4 * n = address
      · have notEarlier : ¬∃ i < n, fn.base + 4 * i = address := by
          rintro ⟨i, less, same⟩
          omega
        have now : ∃ i < n + 1, fn.base + 4 * i = address := ⟨n, Nat.lt_succ_self n, here⟩
        simp only [here, notEarlier, now, and_false, and_true, if_false, Nat.zero_add]
        split_ifs <;> simp
      · have notHere : (if fn.base + 4 * n ∈ emitter.labels fn code then
            [Statement.label (fn.base + 4 * n)] else []).count (.label address) = 0 := by
          split_ifs <;> simp [here]
        have same : (∃ i < n + 1, fn.base + 4 * i = address) ↔
            ∃ i < n, fn.base + 4 * i = address := by
          constructor
          · rintro ⟨i, less, same⟩
            refine ⟨i, ?_, same⟩
            rcases Nat.lt_succ_iff_lt_or_eq.mp less with earlier | rfl
            · exact earlier
            · exact absurd same here
          · rintro ⟨i, less, same⟩
            exact ⟨i, Nat.lt_succ_of_lt less, same⟩
        rw [notHere, Nat.add_zero]
        simp only [same]

end Emitter

/-- Every jump goes to a label that is printed once, when the labels of switch tables that lie in
the function are words and the function is too short for targets to wrap around. -/
theorem recompile_labels (emitter : Emitter) (fn : Function) (code : Int → Word)
    (alignedBase : 4 ∣ fn.base) (short : fn.size ≤ 2 ^ 32 - 2 ^ 25)
    (tables : ∀ i < Emitter.words fn, ∀ table,
      emitter.config.switchTables.find (uint32 (fn.base + 4 * i)) = some table →
        ∀ label ∈ table.labels, Inside fn label → 4 ∣ label)
    (hooks : ∀ i < Emitter.words fn, ∀ hook,
      emitter.config.midAsmHooks.find (uint32 (fn.base + 4 * i)) = some hook →
        ∀ address ∈ Emitter.jumps hook, Inside fn address ∧ 4 ∣ address) :
    ∀ statement ∈ (emitter.recompile fn code).body, ∀ address ∈ statement.gotos,
      (emitter.recompile fn code).body.count (.label address) = 1 := by
  intro statement member address jump
  rw [Emitter.recompile_eq] at member ⊢
  obtain ⟨i, inside, printed⟩ := Emitter.mem_body.mp member
  have goesTo : address ∈ (emitter.printedInsn fn code i).flatMap Statement.gotos := by
    rcases printed with label | insn
    · unfold Emitter.printedLabel at label
      split_ifs at label
      · obtain rfl := List.mem_singleton.mp label
        simp [Statement.gotos] at jump
      · simp at label
    · exact List.mem_flatMap.mpr ⟨statement, insn, jump⟩
  -- The target was collected, it lies in the function, and it is a word.
  have collected : address ∈ emitter.labels fn code ∧ Inside fn address ∧ 4 ∣ address := by
    unfold Emitter.printedInsn at goesTo
    split at goesTo
    · simp [Statement.gotos] at goesTo
    next id decoded =>
      rcases Emitter.mem_gotos_recompileInsn goesTo with ⟨isInside, ⟨index, target, noLink, operand⟩ |
        ⟨table, pending, listed⟩⟩ | ⟨hook, found, jumps⟩
      · obtain ⟨label, aligned⟩ := Emitter.mem_labels_of_target short inside decoded target noLink
          operand isInside
        exact ⟨label, isInside, aligned alignedBase⟩
      · obtain ⟨j, before, keyed⟩ := Emitter.keyed_of_pending pending
        exact ⟨Emitter.mem_labels_of_pending inside pending listed, isInside,
          tables j (Nat.lt_of_le_of_lt before inside) table keyed address listed isInside⟩
      · obtain ⟨isInside, aligned⟩ := hooks i inside hook found address jumps
        exact ⟨Emitter.mem_labels_of_hook inside found jumps, isInside, aligned⟩
  obtain ⟨label, ⟨low, high⟩, aligned⟩ := collected
  have isWord : ∃ i < Emitter.words fn, fn.base + 4 * i = address := by
    refine ⟨(address - fn.base) / 4, ?_, ?_⟩
    · unfold Emitter.words
      omega
    · omega
  rw [Emitter.count_label, if_pos ⟨label, isWord⟩]

/-- A conditional branch over a `bctr` with a table, then a word with a hook that jumps. -/
def skipCode (i : Int) : Word :=
  if i = 0 then 0x41820008 else if i = 1 then 0x4E800420 else if i = 2 then 0x38630001
  else 0x4E800020

def skipConfig : RecompilerConfig where
  switchTables := ⟨[(0x1004, ⟨11, [0x1000, 0x1008]⟩)], List.nodup_singleton _⟩
  midAsmHooks := ⟨[(0x1008, { name := "skip", jumpAddress := 0x100C })], List.nodup_singleton _⟩

/-- The labels of the branch and the table, and the one of the hook. -/
theorem recompile_labels_skip :
    ((plainEmitter skipConfig).recompile ⟨0x1000, 16, []⟩ skipCode).body.count (.label 0x1008) = 1 ∧
      ((plainEmitter skipConfig).recompile ⟨0x1000, 16, []⟩ skipCode).body.count
        (.label 0x100C) = 1 := by
  have printed := recompile_labels (plainEmitter skipConfig) ⟨0x1000, 16, []⟩ skipCode (by decide)
    (by decide) ?_ ?_
  · exact ⟨printed (.switch 11 [[.goto 0x1000], [.goto 0x1008]]) (by decide +kernel) 0x1008
      (by decide), printed (.act (.goto 0x100C)) (by decide +kernel) 0x100C (by decide)⟩
  · intro i _ table keyed label listed _
    obtain ⟨-, rfl⟩ := Prod.mk.inj (List.mem_singleton.mp (UnorderedMap.mem_of_find keyed))
    have words : ∀ label ∈ [0x1000, 0x1008], 4 ∣ label := by decide
    exact words label listed
  · intro i _ hook found address jump
    obtain ⟨-, rfl⟩ := Prod.mk.inj (List.mem_singleton.mp (UnorderedMap.mem_of_find found))
    obtain rfl : address = 0x100C := by simpa [Emitter.jumps] using jump
    decide

/-- A label between two words has no place, and neither has a target that wrapped around. -/
theorem not_recompile_labels :
    (¬∀ (emitter : Emitter) (fn : Function) (code : Int → Word), 4 ∣ fn.base → 4 ∣ fn.size →
      (∀ entry ∈ emitter.config.switchTables.entries, Inside fn entry.1) →
      (∀ entry ∈ emitter.config.midAsmHooks.entries, ∀ address ∈ Emitter.jumps entry.2,
        Inside fn address ∧ 4 ∣ address) →
      ∀ statement ∈ (emitter.recompile fn code).body, ∀ address ∈ statement.gotos,
        (emitter.recompile fn code).body.count (.label address) = 1) ∧
    ¬∀ (emitter : Emitter) (fn : Function) (code : Int → Word), 4 ∣ fn.base → 4 ∣ fn.size →
      emitter.config.switchTables.entries = [] → emitter.config.midAsmHooks.entries = [] →
      ∀ statement ∈ (emitter.recompile fn code).body, ∀ address ∈ statement.gotos,
        (emitter.recompile fn code).body.count (.label address) = 1 := by
  constructor
  · intro claim
    have once := claim (plainEmitter (tableConfig 0x1000 ⟨11, [0x1002]⟩)) ⟨0x1000, 4, []⟩
      (fun _ => 0x4E800420) (by decide) (by decide) (by decide) (by decide)
      (.switch 11 [[.goto 0x1002]]) (by decide) 0x1002 (by decide)
    exact absurd once (by decide)
  · intro claim
    let code : Int → Word := fun i => if i = 0 then 0x4BFFFFFC else 0
    have printed : (.act (.goto 0xFFFFFFFC) : Statement) ∈
        (plainEmitter {}).printedInsn ⟨0, 2 ^ 32, []⟩ code 0 := by
      decide
    have once := claim (plainEmitter {}) ⟨0, 2 ^ 32, []⟩ code (by decide) (by decide) rfl rfl
      (.act (.goto 0xFFFFFFFC)) (Emitter.mem_body.mpr ⟨0, by decide, .inr printed⟩) 0xFFFFFFFC
      (by decide)
    rw [Emitter.recompile_eq, Emitter.count_label, if_neg] at once
    · simp at once
    · rintro ⟨label, -⟩
      obtain ⟨i, -, collected⟩ := List.mem_flatMap.mp label
      cases i with
      | zero => exact absurd collected (by decide)
      | succ i =>
          have zero : code ((i + 1 : Nat) : Int) = 0 := if_neg (by omega)
          rw [zero] at collected
          exact absurd collected (List.not_mem_nil)

/-! ## Switches -/

/-- Control goes on where a guest's branch to an address does, which clears its low bits: at a
label that is printed in the function. -/
def GoesOnAt (emitter : Emitter) (fn : Function) (code : Int → Word) (exit : Exit)
    (address : Nat) : Prop :=
  exit = .goto (address / 4 * 4) ∧
    (emitter.recompile fn code).body.count (.label (address / 4 * 4)) = 1

/-- A label that was collected is printed exactly where a word of the function starts. -/
theorem count_label_eq_one {emitter : Emitter} {fn : Function} {code : Int → Word} {address : Nat}
    (collected : address ∈ emitter.labels fn code) (isInside : Inside fn address) :
    (emitter.recompile fn code).body.count (.label address) = 1 ↔ 4 ∣ address - fn.base := by
  obtain ⟨low, high⟩ := isInside
  rw [Emitter.recompile_eq, Emitter.count_label]
  constructor
  · intro once
    split_ifs at once with printed
    obtain ⟨-, i, -, rfl⟩ := printed
    omega
  · intro aligned
    refine if_pos ⟨collected, (address - fn.base) / 4, ?_, ?_⟩
    · unfold Emitter.words
      omega
    · omega

/-- The `bctr` of a dispatch sequence goes on at the label that the low half of the selector
chooses exactly when the high half is zero and the label is a word of the function. -/
theorem bctr_continues {emitter : Emitter} {fn : Function} {code : Int → Word}
    (disjoint : emitter.Disjoint fn code) {first last : Nat} {table : RecompilerSwitchTable}
    (inside : last < Emitter.words fn)
    (dispatches : emitter.Dispatches fn code first last table)
    (bounded : table.labels.length ≤ 2 ^ 32) :
    ∃ cases, emitter.recompileCase fn (uint32 (fn.base + 4 * last)) (emitter.insn fn code last)
        .bctr (emitter.pending fn code last) = some ([.switch table.r cases], none) ∧
      ∀ (registers : Nat → BitVec 64) (guard : low32 (registers table.r) < table.labels.length),
        (GoesOnAt emitter fn code (switchExit cases (registers table.r))
            table.labels[low32 (registers table.r)] ↔
          (registers table.r).toNat < 2 ^ 32 ∧
            Inside fn table.labels[low32 (registers table.r)] ∧
            4 ∣ table.labels[low32 (registers table.r)] ∧ 4 ∣ fn.base) := by
  have pending := Emitter.pending_of_dispatches disjoint
    (Nat.lt_of_le_of_lt dispatches.ordered inside) dispatches dispatches.ordered (Nat.le_refl _)
  refine ⟨table.labels.map (Emitter.printCase fn), by rw [pending]; rfl, fun registers guard => ?_⟩
  have collected := Emitter.mem_labels_of_pending inside pending (List.getElem_mem guard)
  generalize isLabel : table.labels[low32 (registers table.r)] = label at collected ⊢
  rw [GoesOnAt, switchExit_printCase]
  by_cases small : (registers table.r).toNat < 2 ^ 32
  · have whole : low32 (registers table.r) = (registers table.r).toNat := Nat.mod_eq_of_lt small
    have selected : table.labels[(registers table.r).toNat]? = some label := by
      rw [← whole, List.getElem?_eq_getElem guard, isLabel]
    rw [selected]
    by_cases isInside : Inside fn label
    · have printed := count_label_eq_one collected isInside
      have behind := isInside.1
      simp only [isInside, if_true, Exit.goto.injEq, small, true_and]
      constructor
      · rintro ⟨isWord, once⟩
        rw [← isWord, printed] at once
        omega
      · rintro ⟨isWord, aligned⟩
        rw [Nat.div_mul_cancel isWord, printed]
        exact ⟨rfl, Nat.dvd_sub isWord aligned⟩
    · simp [isInside]
  · have outside : table.labels[(registers table.r).toNat]? = none :=
      List.getElem?_eq_none (by omega)
    simp only [outside, reduceCtorEq, false_and, false_iff]
    exact fun all => small all.1

/-- A `switch` of its own address. -/
theorem bctr_continues_switchEmitter :
    ∃ cases, switchEmitter.recompileCase ⟨0x1000, 4, []⟩ (uint32 0x1000)
        (switchEmitter.insn ⟨0x1000, 4, []⟩ (fun _ => 0x4E800420) 0) .bctr
        (switchEmitter.pending ⟨0x1000, 4, []⟩ (fun _ => 0x4E800420) 0) =
          some ([.switch 11 cases], none) ∧
      GoesOnAt switchEmitter ⟨0x1000, 4, []⟩ (fun _ => 0x4E800420) (switchExit cases 0) 0x1000 := by
  obtain ⟨cases, printed, continues⟩ := bctr_continues switchEmitter_disjoint (by decide)
    switchEmitter_dispatches (by decide)
  exact ⟨cases, printed,
    (continues (fun _ => 0) (by decide)).mpr ⟨by decide, by decide, by decide, by decide⟩⟩

/-- A bit in the high half of the selector leads to the unreachable default. -/
theorem not_bctr_continues :
    ¬∀ (emitter : Emitter) (fn : Function) (code : Int → Word) (first last : Nat)
      (table : RecompilerSwitchTable), emitter.Disjoint fn code → last < Emitter.words fn →
      emitter.Dispatches fn code first last table →
      ∃ cases, emitter.recompileCase fn (uint32 (fn.base + 4 * last))
          (emitter.insn fn code last) .bctr (emitter.pending fn code last) =
            some ([.switch table.r cases], none) ∧
        ∀ (registers : Nat → BitVec 64) (_ : low32 (registers table.r) < table.labels.length),
          GoesOnAt emitter fn code (switchExit cases (registers table.r))
            table.labels[low32 (registers table.r)] := by
  intro claim
  obtain ⟨cases, printed, continues⟩ := claim _ _ _ 0 0 _ switchEmitter_disjoint (by decide)
    switchEmitter_dispatches
  have same : some ([Statement.switch 11 [[.goto 0x1000]]], none) =
      some ([Statement.switch 11 cases], (none : Option RecompilerSwitchTable)) := printed
  obtain rfl : [[Action.goto 0x1000]] = cases := by simpa using same
  exact absurd (continues (fun _ => 2 ^ 32) (by decide)).1 (by decide)

end UfcRecomp.Recompiler
