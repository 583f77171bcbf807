import UfcRecomp.Recompiler.FlushMode
import UfcRecomp.Recompiler.Labels

/-!
# What is known along the lines

`csrState` follows the lines in the order of the text. Where a statement goes on to the next line,
what is known there is what is known behind the statement or nothing. A floating-point statement
stands where its unit is known, and a label where nothing is. At a hook the mode is known only
behind a floating-point statement that no label and no call separates from it.
-/

namespace UfcRecomp.Recompiler

open UfcRecomp.Ppc UfcRecomp.Utils UfcRecomp.Analyze

/-! ## Actions and statements -/

/-- The unit of a statement that computes. -/
def floatUnit (floatInst : Nat → Option FloatInst) : PpcInst → Option FloatUnit
  | .other number => (floatInst number).bind FloatInst.unit
  | _ => none

def Action.isHook : Action → Bool
  | .hook _ _ => true
  | _ => false

/-- What is known behind an action that goes on. -/
def Action.knownBehind (known : CsrState) : Action → Option CsrState
  | .goto _ | .ret | .longjmp => none
  | .call _ | .callIndirect | .setjmp => some .unknown
  | _ => some known

/-- What a statement may do: one list of actions for each way. -/
def Statement.branches : Statement → List (List Action)
  | .comment | .label _ => [[]]
  | .act action => [[action]]
  | .ifThen _ actions => [actions, []]
  | .ifHook name registers onTrue onFalse =>
    [.hook name registers :: onTrue, .hook name registers :: onFalse]
  | .switch _ cases => cases

/-- Neither `setjmp` nor `longjmp` is called. -/
def WithoutJumps (body : List Statement) : Prop :=
  ∀ statement ∈ body, ∀ actions ∈ statement.branches,
    Action.setjmp ∉ actions ∧ Action.longjmp ∉ actions

def Statement.hooks (statement : Statement) : Bool :=
  statement.branches.any fun actions => actions.any Action.isHook

variable (floatInst : Nat → Option FloatInst)

/-- Whether actions that go on lead from what is known in front of them to what is known at the
next line, and compute where their unit is known. -/
def Tracked (next : CsrState) : CsrState → List Action → Prop
  | known, [] => next = known ∨ next = .unknown
  | known, action :: rest =>
    (∀ id unit, action = .compute id → floatUnit floatInst id = some unit →
      known = .ofEnable (unit == .vmx)) ∧
    ∀ behind, action.knownBehind known = some behind → Tracked next behind rest

/-- Whether a line is tracked in front of a line with the given state. -/
def Line.Tracked (line : Line) (next : CsrState) : Prop :=
  match line.statement with
  | .base statement => (statement.isLabel = true → line.known = .unknown) ∧
    ∀ actions ∈ statement.branches, Recompiler.Tracked floatInst next line.known actions
  | .setFlushMode enable _ => Recompiler.Tracked floatInst next (.ofEnable enable) []

def Line.hooks (line : Line) : Bool :=
  match line.statement with
  | .base statement => statement.hooks
  | .setFlushMode _ _ => false

/-- Whether a floating-point statement was printed since the last label or call. Nothing gets
behind a return without a label. -/
def Line.inBlock (line : Line) (open_ : Bool) : Bool :=
  match line.statement with
  | .base (.label _) => false
  | .base (.act .ret) => true
  | .base (.act (.compute id)) => open_ || (floatUnit floatInst id).isSome
  | .base statement => open_ && !statement.calls
  | .setFlushMode _ _ => open_

def blockAfter (open_ : Bool) (lines : List Line) : Bool :=
  lines.foldl (fun open_ line => line.inBlock floatInst open_) open_

/-- What is known at the first of some lines, or behind them when there are none. -/
def entry (next : CsrState) : List Line → CsrState
  | [] => next
  | line :: _ => line.known

/-- Whether all lines are tracked, and a mode is known at a hook only in a block. -/
def Linked (next : CsrState) : Bool → List Line → Prop
  | _, [] => True
  | open_, line :: rest =>
    line.Tracked floatInst (entry next rest) ∧
    (line.hooks = true → line.known ≠ .unknown → open_ = true) ∧
    Linked next (line.inBlock floatInst open_) rest

variable {floatInst} {next known : CsrState} {open_ : Bool}

theorem Tracked.unknown {actions : List Action} (tracked : Tracked floatInst next known actions) :
    Tracked floatInst .unknown known actions := by
  induction actions generalizing known with
  | nil => exact .inr rfl
  | cons action rest ih => exact ⟨tracked.1, fun behind goesOn => ih (tracked.2 behind goesOn)⟩

theorem Line.Tracked.unknown {line : Line} (tracked : line.Tracked floatInst next) :
    line.Tracked floatInst .unknown := by
  rw [Line.Tracked] at tracked ⊢
  split
  next isBase =>
    rw [isBase] at tracked
    exact ⟨tracked.1, fun actions member => (tracked.2 actions member).unknown⟩
  next => exact .inr rfl

theorem entry_append (first second : List Line) :
    entry next (first ++ second) = entry (entry next second) first := by
  cases first <;> rfl

theorem blockAfter_append (first second : List Line) :
    blockAfter floatInst open_ (first ++ second) =
      blockAfter floatInst (blockAfter floatInst open_ first) second :=
  List.foldl_append

theorem linked_append {first second : List Line} :
    Linked floatInst next open_ (first ++ second) ↔
      Linked floatInst (entry next second) open_ first ∧
        Linked floatInst next (blockAfter floatInst open_ first) second := by
  induction first generalizing open_ with
  | nil => exact by rw [List.nil_append, Linked, true_and]; rfl
  | cons line rest ih =>
      rw [List.cons_append, Linked, ih, entry_append, Linked, and_assoc, and_assoc]
      rfl

/-- Nothing needs to be known behind lines. -/
theorem Linked.unknown {lines : List Line} (linked : Linked floatInst next open_ lines) :
    Linked floatInst .unknown open_ lines := by
  induction lines generalizing open_ with
  | nil => trivial
  | cons line rest ih =>
      obtain ⟨tracked, hooks, linked⟩ := linked
      refine ⟨?_, hooks, ih linked⟩
      cases rest with
      | nil => exact tracked.unknown
      | cons second rest => exact tracked

/-- A line among linked lines. -/
theorem Linked.line {lines : List Line} (linked : Linked floatInst next open_ lines) {p : Nat}
    {line : Line} (here : lines[p]? = some line) :
    line.Tracked floatInst (entry next (lines.drop (p + 1))) ∧
      (line.hooks = true → line.known ≠ .unknown →
        blockAfter floatInst open_ (lines.take p) = true) := by
  induction lines generalizing open_ p with
  | nil => simp at here
  | cons first rest ih =>
      obtain ⟨tracked, hooks, linked⟩ := linked
      cases p with
      | zero =>
          obtain rfl := Option.some.inj here
          exact ⟨tracked, hooks⟩
      | succ p => exact ih linked here

/-! ## Printed statements -/

/-- What is known behind a statement that goes on. -/
def Statement.knownBehind (statement : Statement) (known : CsrState) : CsrState :=
  if statement.calls then .unknown else known

/-- What is known behind statements. -/
def knownBehind (known : CsrState) (statements : List Statement) : CsrState :=
  statements.foldl (fun known statement => statement.knownBehind known) known

/-- A statement that is tracked whatever is known. -/
def Statement.Plain (floatInst : Nat → Option FloatInst) (statement : Statement) : Prop :=
  statement.isLabel = false ∧
    ∀ known, ∀ actions ∈ statement.branches,
      Tracked floatInst (statement.knownBehind known) known actions

theorem linesOf_append (first second : List Statement) : linesOf known (first ++ second) =
    linesOf known first ++ linesOf (knownBehind known first) second := by
  induction first generalizing known with
  | nil => rfl
  | cons statement rest ih =>
      rw [List.cons_append, linesOf, ih]
      rfl

theorem Tracked.weaken {next' : CsrState} {actions : List Action}
    (tracked : Tracked floatInst next known actions) (weaker : next' = next ∨ next' = .unknown) :
    Tracked floatInst next' known actions := by
  rcases weaker with rfl | rfl
  · exact tracked
  · exact tracked.unknown

/-- A plain statement opens no block by itself, but stays in one where the mode is known. -/
theorem Statement.Plain.inBlock {statement : Statement} (plain : statement.Plain floatInst)
    (isOpen : known ≠ .unknown → open_ = true)
    (isKnown : statement.knownBehind known ≠ .unknown) :
    Line.inBlock floatInst ⟨known, .base statement⟩ open_ = true := by
  have goesOn : statement.calls = false ∧ open_ = true := by
    rw [Statement.knownBehind] at isKnown
    split at isKnown
    next => exact absurd rfl isKnown
    next calls => exact ⟨by simpa using calls, isOpen isKnown⟩
  obtain ⟨calls, rfl⟩ := goesOn
  rw [Line.inBlock]
  split
  next isLabel =>
    obtain rfl := FlushStatement.base.inj isLabel
    cases plain.1
  next => rfl
  next => rfl
  next same =>
    obtain rfl := FlushStatement.base.inj same
    rw [calls]
    rfl
  next => rfl

variable (floatInst) in
/-- Whether lines lead from what is known in front of them to what is known behind them. In front
of them and behind them a mode is known only in a block. -/
structure Leads (known after : CsrState) (lines : List Line) : Prop where
  linked : ∀ open_ : Bool, (known ≠ .unknown → open_ = true) →
    Linked floatInst after open_ lines
  block : ∀ open_ : Bool, (known ≠ .unknown → open_ = true) → after ≠ .unknown →
    blockAfter floatInst open_ lines = true
  entry : entry after lines = known ∨ entry after lines = .unknown

theorem Leads.append {middle after : CsrState} {first second : List Line}
    (front : Leads floatInst known middle first) (back : Leads floatInst middle after second) :
    Leads floatInst known after (first ++ second) where
  linked open_ isOpen := by
    rw [linked_append]
    refine ⟨?_, back.linked _ (front.block open_ isOpen)⟩
    rcases back.entry with same | unknown
    · rw [same]
      exact front.linked open_ isOpen
    · rw [unknown]
      exact (front.linked open_ isOpen).unknown
  block open_ isOpen isKnown := by
    rw [blockAfter_append]
    exact back.block _ (front.block open_ isOpen) isKnown
  entry := by
    rw [entry_append]
    cases first with
    | cons line rest => exact front.entry
    | nil =>
        rcases back.entry with same | unknown
        · rw [same]
          exact front.entry
        · exact .inr unknown

/-- Plain statements lead to what is known behind them, or to nothing. -/
theorem leads_linesOf {statements : List Statement}
    (plain : ∀ statement ∈ statements, statement.Plain floatInst)
    (behind : next = knownBehind known statements ∨ next = .unknown) :
    Leads floatInst known next (linesOf known statements) := by
  induction statements generalizing known with
  | nil =>
      refine ⟨fun _ _ => trivial, ?_, behind⟩
      intro open_ isOpen isKnown
      rcases behind with rfl | rfl
      · exact isOpen isKnown
      · exact absurd rfl isKnown
  | cons statement rest ih =>
      have first := plain statement List.mem_cons_self
      have later := ih (fun statement member => plain statement (.tail _ member)) behind
      refine ⟨?_, ?_, .inl rfl⟩
      · intro open_ isOpen
        refine ⟨⟨?_, ?_⟩, fun _ => isOpen, later.linked _ (first.inBlock isOpen)⟩
        · rw [first.1]
          rintro ⟨⟩
        · intro actions member
          exact (first.2 known actions member).weaken later.entry
      · intro open_ isOpen isKnown
        exact later.block _ (first.inBlock isOpen) isKnown

/-! ## Plain statements -/

theorem Action.knownBehind_plain {action : Action} {behind : CsrState}
    (goesOn : action.knownBehind known = some behind) :
    behind = (Statement.act action).knownBehind known := by
  cases action <;> cases goesOn <;> rfl

theorem plain_act {action : Action}
    (noFloat : ∀ id, action = .compute id → floatUnit floatInst id = none) :
    (Statement.act action).Plain floatInst := by
  refine ⟨rfl, ?_⟩
  intro known actions member
  obtain rfl := List.mem_singleton.mp member
  constructor
  · intro id unit isCompute isUnit
    rw [noFloat id isCompute] at isUnit
    cases isUnit
  · intro behind goesOn
    exact .inl (Action.knownBehind_plain goesOn).symm

theorem plain_comment : Statement.comment.Plain floatInst := by
  refine ⟨rfl, ?_⟩
  intro known actions member
  obtain rfl := List.mem_singleton.mp member
  exact .inl rfl

/-- Actions that leave the function or jump in the end. -/
theorem tracked_leave {actions : List Action} {last : Action}
    (noFloat : ∀ id, .compute id ∉ actions ++ [last])
    (leaves : ∀ known, last.knownBehind known = none) :
    Tracked floatInst next known (actions ++ [last]) := by
  induction actions generalizing known with
  | nil =>
      constructor
      · rintro id unit rfl
        exact absurd List.mem_cons_self (noFloat id)
      · intro behind goesOn
        rw [leaves] at goesOn
        cases goesOn
  | cons action rest ih =>
      constructor
      · rintro id unit rfl
        exact absurd List.mem_cons_self (noFloat id)
      · intro behind _
        exact ih fun id member => noFloat id (List.mem_cons_of_mem _ member)

/-- A condition in front of actions that leave or jump. -/
theorem plain_ifThen {condition : Condition} {actions : List Action} {last : Action}
    (noFloat : ∀ id, .compute id ∉ actions ++ [last])
    (leaves : ∀ known, last.knownBehind known = none) :
    (Statement.ifThen condition (actions ++ [last])).Plain floatInst := by
  refine ⟨rfl, ?_⟩
  intro known branch member
  rcases List.mem_cons.mp member with rfl | member
  · exact tracked_leave noFloat leaves
  · obtain rfl := List.mem_singleton.mp member
    exact .inl rfl

theorem knownBehind_of_not_calls {statements : List Statement}
    (noCalls : ∀ statement ∈ statements, statement.calls = false) :
    knownBehind known statements = known := by
  induction statements generalizing known with
  | nil => rfl
  | cons statement rest ih =>
      rw [knownBehind, List.foldl_cons, Statement.knownBehind, noCalls statement List.mem_cons_self]
      exact ih fun statement member => noCalls statement (.tail _ member)

/-- Behind a return anything may be assumed. -/
theorem leads_linesOf_ret {statements : List Statement}
    (plain : ∀ statement ∈ statements, statement.Plain floatInst) :
    Leads floatInst known known (linesOf known (statements ++ [.act .ret])) := by
  have front := @leads_linesOf floatInst _ known _ plain (.inl rfl)
  rw [linesOf_append]
  constructor
  · intro open_ isOpen
    rw [linked_append]
    refine ⟨front.linked open_ isOpen, ⟨by rintro ⟨⟩, ?_⟩, by rintro ⟨⟩, trivial⟩
    intro actions member
    obtain rfl := List.mem_singleton.mp member
    exact @tracked_leave _ _ _ [] .ret (by simp) fun _ => rfl
  · intro open_ isOpen isKnown
    rw [blockAfter_append]
    rfl
  · cases statements <;> exact .inl rfl

/-! ## Instructions -/

namespace Emitter

variable {emitter : Emitter} {fn : Function} {code : Int → Word}

theorem tracked_printLeave (ret : Bool) (jumpAddress : Nat) :
    Tracked floatInst known known (printLeave ret jumpAddress) := by
  rw [printLeave]
  split_ifs
  · exact @tracked_leave _ _ _ [] .ret (by simp) fun _ => rfl
  · exact @tracked_leave _ _ _ [] (.goto jumpAddress) (by simp) fun _ => rfl
  · exact .inl rfl

theorem plain_printMidAsmHook {hook : RecompilerMidAsmHook} {statement : Statement}
    (member : statement ∈ printMidAsmHook hook) :
    statement.Plain floatInst ∧ statement.calls = false := by
  rw [printMidAsmHook] at member
  split at member
  next =>
    obtain rfl := List.mem_singleton.mp member
    refine ⟨⟨rfl, ?_⟩, rfl⟩
    intro known actions branch
    have answer : ∀ {ret jumpAddress}, Tracked floatInst known known
        (.hook hook.name hook.registers :: printLeave ret jumpAddress) := by
      intro ret jumpAddress
      constructor
      · rintro id unit ⟨⟩
      · rintro _ ⟨⟩
        exact tracked_printLeave ret jumpAddress
    simp only [Statement.branches, List.mem_cons, List.not_mem_nil, or_false] at branch
    rcases branch with rfl | rfl <;> exact answer
  next =>
    rcases List.mem_cons.mp member with rfl | leave
    · exact ⟨plain_act (by rintro id ⟨⟩), rfl⟩
    · obtain ⟨action, among, rfl⟩ := List.mem_map.mp leave
      rw [printLeave] at among
      split_ifs at among
      · obtain rfl := List.mem_singleton.mp among
        exact ⟨plain_act (by rintro id ⟨⟩), rfl⟩
      · obtain rfl := List.mem_singleton.mp among
        exact ⟨plain_act (by rintro id ⟨⟩), rfl⟩
      · cases among

/-- The case of an instruction asks for the mode of its unit. -/
theorem setsFlushMode_eq (id : PpcInst) :
    setsFlushMode floatInst id = (floatUnit floatInst id).map (· == .vmx) := by
  cases id
  case other number =>
    rw [setsFlushMode, floatUnit]
    cases floatInst number with
    | none => rfl
    | some inst =>
        change inst.setsFlushMode = inst.unit.map (· == .vmx)
        cases computes : inst.unit with
        | none => cases inst <;> first | rfl | cases computes
        | some unit => exact setsFlushMode_of_unit computes
  all_goals rfl

theorem switched_of_floatUnit {id : PpcInst} (noFloat : floatUnit floatInst id = none) :
    switched floatInst id known = known := by
  rw [switched, setsFlushMode_eq, noFloat]
  rfl

theorem compute_notMem_printFunctionCall (address : Nat) (id : PpcInst) :
    Action.compute id ∉ emitter.printFunctionCall address := by
  rw [printFunctionCall]
  split_ifs
  · simp
  · simp
  · split
    · split_ifs <;> simp
    · simp

theorem plain_printFunctionCall {address : Nat} {statement : Statement}
    (member : statement ∈ (emitter.printFunctionCall address).map Statement.act) :
    statement.Plain floatInst := by
  obtain ⟨action, among, rfl⟩ := List.mem_map.mp member
  refine plain_act ?_
  rintro id rfl
  exact absurd among (compute_notMem_printFunctionCall address id)

theorem plain_printConditionalBranchTo {target : Nat} {condition : Condition}
    {statement : Statement}
    (member : statement ∈ emitter.printConditionalBranchTo fn target condition) :
    statement.Plain floatInst ∧ statement.calls = false := by
  rw [printConditionalBranchTo] at member
  split_ifs at member
  · obtain rfl := List.mem_singleton.mp member
    exact ⟨@plain_ifThen _ _ [] (.goto target) (by simp) fun _ => rfl, rfl⟩
  · obtain rfl := List.mem_singleton.mp member
    refine ⟨plain_ifThen ?_ fun _ => rfl, rfl⟩
    simp [compute_notMem_printFunctionCall]

theorem plain_switch {table : RecompilerSwitchTable} :
    (Statement.switch table.r (table.labels.map (printCase fn))).Plain floatInst := by
  refine ⟨rfl, ?_⟩
  intro known actions member
  obtain ⟨label, -, rfl⟩ := List.mem_map.mp member
  rw [printCase]
  split_ifs
  · exact @tracked_leave _ _ _ [] (.goto label) (by simp) fun _ => rfl
  · exact @tracked_leave _ _ _ [.error label] .ret (by simp) fun _ => rfl

theorem csrStateAfter_eq {id : PpcInst} (notCall : id ≠ .bl) (notIndirect : id ≠ .bctrl) :
    csrStateAfter floatInst id known = switched floatInst id known := by
  cases id <;> first | rfl | contradiction

/-- The statements of a case that does not compute with floating-point numbers. -/
theorem leads_of_plain {id : PpcInst} {statements : List Statement}
    (noFloat : floatUnit floatInst id = none)
    (plain : ∀ statement ∈ statements, statement.Plain floatInst)
    (calls : id = .bl ∨ id = .bctrl ∨ ∀ statement ∈ statements, statement.calls = false) :
    Leads floatInst known (csrStateAfter floatInst id known) (linesOf known statements) := by
  apply leads_linesOf plain
  rcases calls with rfl | rfl | noCalls
  · exact .inr rfl
  · exact .inr rfl
  · rw [knownBehind_of_not_calls noCalls]
    by_cases isCall : id = .bl ∨ id = .bctrl
    · rcases isCall with rfl | rfl <;> exact .inr rfl
    · rw [not_or] at isCall
      rw [csrStateAfter_eq isCall.1 isCall.2, switched_of_floatUnit noFloat]
      exact .inl rfl

/-- The statement of a case that computes with floating-point numbers, behind its switch. -/
theorem leads_compute {id : PpcInst} {unit : FloatUnit}
    (computes : floatUnit floatInst id = some unit) :
    Leads floatInst known (csrStateAfter floatInst id known)
      (printSetFlushMode known (unit == .vmx) ++
        linesOf (.ofEnable (unit == .vmx)) [.act (.compute id)]) := by
  have after : csrStateAfter floatInst id known = .ofEnable (unit == .vmx) := by
    rw [csrStateAfter_eq, switched, setsFlushMode_eq, computes]
    · rfl
    · rintro rfl
      cases computes
    · rintro rfl
      cases computes
  have switch : ∀ open_, Linked floatInst (.ofEnable (unit == .vmx)) open_
        (printSetFlushMode known (unit == .vmx)) ∧
      blockAfter floatInst open_ (printSetFlushMode known (unit == .vmx)) = open_ ∧
      entry (.ofEnable (unit == .vmx)) (printSetFlushMode known (unit == .vmx)) = known := by
    intro open_
    rw [printSetFlushMode]
    split
    next => exact ⟨⟨.inl rfl, by rintro ⟨⟩, trivial⟩, rfl, rfl⟩
    next same => exact ⟨trivial, rfl, (not_not.mp same).symm⟩
  rw [after]
  constructor
  · intro open_ isOpen
    rw [linked_append, (switch open_).2.1]
    refine ⟨(switch open_).1, ⟨by rintro ⟨⟩, ?_⟩, by rintro ⟨⟩, trivial⟩
    intro actions member
    obtain rfl := List.mem_singleton.mp member
    constructor
    · rintro id' unit' ⟨⟩ computes'
      obtain rfl := Option.some.inj (computes.symm.trans computes')
      rfl
    · rintro _ ⟨⟩
      exact .inl rfl
  · intro open_ isOpen isKnown
    rw [blockAfter_append, (switch open_).2.1]
    change (open_ || (floatUnit floatInst id).isSome) = true
    rw [computes]
    exact Bool.or_true _
  · rw [entry_append]
    exact .inl (switch true).2.2

/-- The lines of a case. -/
theorem leads_recompileCase {base : Nat} {insn : Insn} {id : PpcInst}
    {switchTable table : Option RecompilerSwitchTable} {statements : List Statement}
    (printed : emitter.recompileCase fn base insn id switchTable = some (statements, table)) :
    Leads floatInst known (csrStateAfter floatInst id known)
      (printedSwitch floatInst id known ++ linesOf (switched floatInst id known) statements) := by
  have act : ∀ {action : Action}, (∀ id, action ≠ .compute id) →
      (Statement.act action).Plain floatInst := by
    rintro action noCompute
    exact plain_act fun id isCompute => absurd isCompute (noCompute id)
  have ordinary : floatUnit floatInst id = none →
      (∀ statement ∈ statements, statement.Plain floatInst) →
      (id = .bl ∨ id = .bctrl ∨ ∀ statement ∈ statements, statement.calls = false) →
      Leads floatInst known (csrStateAfter floatInst id known)
        (printedSwitch floatInst id known ++ linesOf (switched floatInst id known) statements) := by
    intro noFloat plain calls
    rw [printedSwitch, setsFlushMode_eq, noFloat, switched_of_floatUnit noFloat]
    exact leads_of_plain noFloat plain calls
  cases printed_of_recompileCase printed with
  | goto inside =>
      apply ordinary rfl _ (.inr (.inr _))
      · simpa using act (by simp)
      · simp [Statement.calls]
  | tailCall outside =>
      rw [List.map_append]
      exact leads_linesOf_ret fun _ member => plain_printFunctionCall member
  | call link =>
      apply ordinary rfl _ (.inl rfl)
      intro statement member
      rcases List.mem_append.mp member with setLr | call
      · rcases link with rfl | rfl
        · cases setLr
        · obtain rfl := List.mem_singleton.mp setLr
          exact act (by simp)
      · exact plain_printFunctionCall call
  | conditional target notJump notCall counts =>
      have noFloat : floatUnit floatInst id = none := by
        cases id <;> first | rfl | cases target
      apply ordinary noFloat _ (.inr (.inr _))
      all_goals
        intro statement member
        rcases List.mem_append.mp member with count | branch
      · rcases counts with rfl | rfl
        · cases count
        · obtain rfl := List.mem_singleton.mp count
          exact act (by simp)
      · exact (plain_printConditionalBranchTo branch).1
      · rcases counts with rfl | rfl
        · cases count
        · obtain rfl := List.mem_singleton.mp count
          rfl
      · exact (@plain_printConditionalBranchTo floatInst _ _ _ _ _ branch).2
  | switch =>
      apply ordinary rfl _ (.inr (.inr _))
      · simpa using plain_switch
      · simp [Statement.calls]
  | jumpIndirect =>
      exact @leads_linesOf_ret floatInst _ [.act .callIndirect] (by simpa using act (by simp))
  | callIndirect link =>
      apply ordinary rfl _ (.inr (.inl rfl))
      intro statement member
      rcases List.mem_append.mp member with setLr | call
      · rcases link with rfl | rfl
        · cases setLr
        · obtain rfl := List.mem_singleton.mp setLr
          exact act (by simp)
      · obtain rfl := List.mem_singleton.mp call
        exact act (by simp)
  | bnectr =>
      apply ordinary rfl _ (.inr (.inr _))
      · simpa using @plain_ifThen _ _ [.callIndirect] .ret (by simp) fun _ => rfl
      · simp [Statement.calls]
  | bdzlr =>
      apply ordinary rfl _ (.inr (.inr _))
      · simpa using ⟨act (by simp), @plain_ifThen _ _ [] .ret (by simp) fun _ => rfl⟩
      · simp [Statement.calls]
  | returnIf conditional =>
      have noFloat : floatUnit floatInst id = none := by
        cases id <;> first | rfl | cases conditional
      apply ordinary noFloat _ (.inr (.inr _))
      · simpa using @plain_ifThen _ _ [] .ret (by simp) fun _ => rfl
      · simp [Statement.calls]
  | ret => exact @leads_linesOf_ret floatInst _ [] (by simp)
  | debugtrap =>
      apply ordinary rfl _ (.inr (.inr _))
      · simpa using act (by simp)
      · simp [Statement.calls]
  | compute isOrdinary =>
      cases computes : floatUnit floatInst id with
      | some unit =>
          rw [printedSwitch, switched, setsFlushMode_eq, computes]
          exact leads_compute computes
      | none =>
          apply ordinary computes _ (.inr (.inr _))
          · have plain : (Statement.act (.compute id)).Plain floatInst := by
              apply plain_act
              rintro id' ⟨⟩
              exact computes
            simpa using plain
          · simp [Statement.calls]

/-! ## Words -/

/-- The lines of an instruction. -/
theorem leads_flushInsn {base : Nat} {insn : Insn} {id : PpcInst}
    {switchTable : Option RecompilerSwitchTable} {lines : List Line} {after : CsrState}
    (printed : emitter.flushInsn floatInst fn base insn id switchTable known = (lines, after)) :
    Leads floatInst known after lines := by
  have hooks : ∀ afterInstruction : Bool,
      ∀ statement ∈ emitter.printedHooks base afterInstruction,
        statement.Plain floatInst ∧ statement.calls = false := by
    intro afterInstruction statement member
    obtain ⟨hook, -, member⟩ := mem_printedHooks member
    exact plain_printMidAsmHook member
  have straight : ∀ {known : CsrState} {statements : List Statement},
      (∀ statement ∈ statements, statement.Plain floatInst ∧ statement.calls = false) →
      Leads floatInst known known (linesOf known statements) := by
    intro known statements quiet
    apply leads_linesOf fun statement member => (quiet statement member).1
    exact .inl (knownBehind_of_not_calls fun statement member => (quiet statement member).2).symm
  have comment : Statement.comment.Plain floatInst ∧ Statement.comment.calls = false :=
    ⟨plain_comment, rfl⟩
  rw [flushInsn] at printed
  dsimp only at printed
  split at printed
  next isCase =>
    obtain ⟨rfl, rfl⟩ := Prod.mk.inj printed
    rw [List.append_assoc (linesOf _ _)]
    exact ((straight (List.forall_mem_cons.mpr ⟨comment, hooks false⟩)).append
      (leads_recompileCase isCase)).append (straight (hooks true))
  next =>
    obtain ⟨rfl, rfl⟩ := Prod.mk.inj printed
    exact straight (List.forall_mem_cons.mpr ⟨comment, hooks false⟩)

/-- Nothing is known at a label. -/
theorem leads_label (address : Nat) :
    Leads floatInst known .unknown (linesOf .unknown [.label address]) := by
  refine ⟨?_, fun _ _ isKnown => absurd rfl isKnown, .inr rfl⟩
  intro open_ isOpen
  refine ⟨⟨fun _ => rfl, ?_⟩, by rintro ⟨⟩, trivial⟩
  intro actions member
  obtain rfl := List.mem_singleton.mp member
  exact .inl rfl

theorem leads_flushWord {pass : List Line × CsrState} (i : Nat)
    (before : Leads floatInst .unknown pass.2 pass.1) :
    Leads floatInst .unknown (emitter.flushWord floatInst fn code pass i).2
      (emitter.flushWord floatInst fn code pass i).1 := by
  have label : Leads floatInst pass.2
      (if linesOf .unknown (emitter.printedLabel fn code i) = [] then pass.2 else .unknown)
      (linesOf .unknown (emitter.printedLabel fn code i)) := by
    rw [printedLabel]
    split_ifs with isLabel none none
    · cases none
    · exact leads_label _
    · exact ⟨fun _ _ => trivial, fun _ isOpen => isOpen, .inl rfl⟩
    · exact absurd rfl none
  have front := before.append label
  rw [flushWord]
  dsimp only
  split
  next =>
    apply front.append
    apply leads_linesOf (List.forall_mem_singleton.mpr plain_comment)
    exact .inl rfl
  next => exact front.append (leads_flushInsn rfl)

/-- The lines of the first words. -/
theorem leads_flushBefore (i : Nat) : Leads floatInst .unknown
    (emitter.flushBefore floatInst fn code i).2 (emitter.flushBefore floatInst fn code i).1 := by
  induction i with
  | zero => exact ⟨fun _ _ => trivial, fun _ _ isKnown => absurd rfl isKnown, .inl rfl⟩
  | succ i ih =>
      rw [flushBefore, List.range_succ, List.foldl_append]
      exact leads_flushWord i ih

/-- The lines of a function. -/
theorem linked_flushBody :
    Linked floatInst .unknown false (emitter.flushBody floatInst fn code) :=
  ((leads_flushBefore _).linked false fun isKnown => absurd rfl isKnown).unknown

/-- Nothing is known at the entry. -/
theorem entry_flushBody : entry .unknown (emitter.flushBody floatInst fn code) = .unknown := by
  have first := (@leads_flushBefore floatInst emitter fn code (words fn)).entry
  rw [flushBody]
  cases lines : (emitter.flushBefore floatInst fn code (words fn)).1 with
  | nil => rfl
  | cons line rest =>
      rw [lines, or_self] at first
      exact first

end Emitter

end UfcRecomp.Recompiler
