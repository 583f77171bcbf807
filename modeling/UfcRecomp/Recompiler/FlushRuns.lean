import UfcRecomp.Emitted.FloatControl
import UfcRecomp.Lib.Transition
import UfcRecomp.Recompiler.FlushLines

/-!
# The flush mode along runs

A run of a function takes its lines from the first one on, along jumps and conditions. What a
condition decides, what a called function or a hook leaves in the control register and what value
is moved to it is up to the run. Every scalar operation finds the flush bits clear and every vector
operation finds them set, unless a hook changes them in the middle of floating-point statements:
behind a call `csrState` is forgotten, behind a hook it is not.
-/

namespace UfcRecomp.Recompiler

open UfcRecomp.Ppc UfcRecomp.Utils UfcRecomp.Analyze UfcRecomp.Emitted UfcRecomp.Lib

/-! ## Runs -/

/-- The next line of a run, or the actions of a line that are left, with the control register. -/
inductive Place where
  | line (position : Nat) (control : FloatControl)
  | inside (position : Nat) (actions : List Action) (control : FloatControl)
  | done (control : FloatControl)

/-- What is up to a run: the way it takes through a statement, what a function or a hook leaves in
the control register, and the rounding mode that is moved to it. -/
inductive Choice where
  | next
  | branch (index : Nat)
  | answer (left : FloatControl)
  | value (value : Fin 4)

def FlushStatement.isLabelOf (address : Nat) : FlushStatement → Bool
  | .base (.label other) => other = address
  | _ => false

variable (arch : Host) (floatInst : Nat → Option FloatInst) (lines : List Line)

def floatInstOf : PpcInst → Option FloatInst
  | .other number => floatInst number
  | _ => none

/-- A statement that computes. -/
def computeStep (control : FloatControl) (id : PpcInst) (choice : Choice) : Option FloatControl :=
  match floatInstOf floatInst id, choice with
  | some .mtfsf, .value value => some (control.storeFromGuest arch value)
  | some .mtfsf, _ => none
  | some .mffs, .next => some control.loadFromHost
  | _, .next => some control
  | _, _ => none

/-- The first of the actions that are left. -/
def actionStep (position : Nat) (control : FloatControl) (action : Action) (rest : List Action)
    (choice : Choice) : Option Place :=
  match action, choice with
  | .goto address, .next =>
    (lines.findIdx? fun line => line.statement.isLabelOf address).map fun target =>
      .line target control
  | .ret, .next => some (.done control)
  | .call _, .answer left => some (.inside position rest left)
  | .callIndirect, .answer left => some (.inside position rest left)
  | .setjmp, .answer left => some (.inside position rest left)
  | .hook _ _, .answer left => some (.inside position rest left)
  | .compute id, choice =>
    (computeStep arch floatInst control id choice).map fun left => .inside position rest left
  | .error _, .next => some (.inside position rest control)
  | .setLr _, .next => some (.inside position rest control)
  | .decrementCtr, .next => some (.inside position rest control)
  | .debugtrap, .next => some (.inside position rest control)
  | _, _ => none

/-- A switch of the flush mode. -/
def switchStep (control : FloatControl) (enable unconditional : Bool) : FloatControl :=
  match enable, unconditional with
  | true, true => control.enableFlushModeUnconditional arch
  | true, false => control.enableFlushMode arch
  | false, true => control.disableFlushModeUnconditional arch
  | false, false => control.disableFlushMode arch

def lineStep (position : Nat) (control : FloatControl) (choice : Choice) : Option Place :=
  match lines[position]?, choice with
  | some ⟨_, .setFlushMode enable unconditional⟩, .next =>
    some (.line (position + 1) (switchStep arch control enable unconditional))
  | some ⟨_, .base statement⟩, .branch index =>
    statement.branches[index]?.map fun actions => .inside position actions control
  | none, .next => some (.done control)
  | _, _ => none

/-- A step of a run. -/
def flushStep : Place → Choice → Option Place
  | .line position control, choice => lineStep arch lines position control choice
  | .inside position (action :: rest) control, choice =>
    actionStep arch floatInst lines position control action rest choice
  | .inside position [] control, .next => some (.line (position + 1) control)
  | _, _ => none

/-! ## What is assumed and what is shown -/

/-- Functions and hooks leave the field and the host's register equal. -/
def Preserves : Place → Choice → Prop
  | .inside _ _ control, .answer left => control.Synced → left.Synced
  | _, _ => True

/-- A hook that is called when a floating-point statement was printed since the last label or call
leaves the flush bits as they are. -/
def HookKeeps : Place → Choice → Prop
  | .inside position (action :: _) control, .answer left =>
    action.isHook = true → blockAfter floatInst false (lines.take position) = true →
      left.host &&& arch.flushMask = control.host &&& arch.flushMask
  | _, _ => True

instance decidablePreserves : (place : Place) → (choice : Choice) →
    Decidable (Preserves place choice)
  | .inside _ _ control, .answer left =>
    inferInstanceAs (Decidable (control.csr = control.host → left.csr = left.host))
  | .inside _ _ _, .next => .isTrue trivial
  | .inside _ _ _, .branch _ => .isTrue trivial
  | .inside _ _ _, .value _ => .isTrue trivial
  | .line _ _, _ => .isTrue trivial
  | .done _, _ => .isTrue trivial

instance decidableHookKeeps : (place : Place) → (choice : Choice) →
    Decidable (HookKeeps arch floatInst lines place choice)
  | .inside _ (_ :: _) _, .answer _ => inferInstanceAs (Decidable (_ → _ → _))
  | .inside _ (_ :: _) _, .next => .isTrue trivial
  | .inside _ (_ :: _) _, .branch _ => .isTrue trivial
  | .inside _ (_ :: _) _, .value _ => .isTrue trivial
  | .inside _ [] _, _ => .isTrue trivial
  | .line _ _, _ => .isTrue trivial
  | .done _, _ => .isTrue trivial

/-- The flush mode for the operations of a unit. -/
def FloatUnit.Mode (control : FloatControl) : FloatUnit → Prop
  | .fpu => control.Keeps arch
  | .vmx => control.Flushes arch

/-- Operations find the mode of their unit, and at the exit the field has the value of the host's
register. -/
def Place.Right : Place → Prop
  | .inside _ (.compute id :: _) control =>
    ∀ unit, floatUnit floatInst id = some unit → unit.Mode arch control
  | .done control => control.Synced
  | _ => True

/-! ## The invariant -/

/-- Whether the mode is as known. -/
def CsrState.Holds (control : FloatControl) : CsrState → Prop
  | .unknown => True
  | .fpu => control.Keeps arch
  | .vmx => control.Flushes arch

/-- The field has the value of the host's register, and the mode is as known; what is known leads
to what is known at the next line. -/
def Place.Inv : Place → Prop
  | .line position control =>
    control.Synced ∧ (entry .unknown (lines.drop position)).Holds arch control
  | .inside position actions control =>
    control.Synced ∧ Action.setjmp ∉ actions ∧ ∃ known : CsrState, known.Holds arch control ∧
      Tracked floatInst (entry .unknown (lines.drop (position + 1))) known actions ∧
      (actions.any Action.isHook = true → known ≠ .unknown →
        blockAfter floatInst false (lines.take position) = true)
  | .done control => control.Synced

variable {arch floatInst lines}

theorem CsrState.Holds.congr {known : CsrState} {control left : FloatControl}
    (holds : known.Holds arch control)
    (same : left.host &&& arch.flushMask = control.host &&& arch.flushMask) :
    known.Holds arch left := by
  cases known with
  | unknown => trivial
  | fpu => exact same.trans holds
  | vmx => exact same.trans holds

theorem holds_ofEnable {unit : FloatUnit} {control : FloatControl} :
    (CsrState.ofEnable (unit == .vmx)).Holds arch control ↔ unit.Mode arch control := by
  cases unit <;> rfl

theorem Place.Inv.right {place : Place} (inv : place.Inv arch floatInst lines) :
    place.Right arch floatInst := by
  cases place with
  | line position control => trivial
  | done control => exact inv
  | inside position actions control =>
      obtain ⟨synced, -, known, holds, tracked, -⟩ := inv
      cases actions with
      | nil => trivial
      | cons action rest =>
          cases action with
          | compute id =>
              intro unit computes
              rw [tracked.1 id unit rfl computes] at holds
              exact holds_ofEnable.mp holds
          | _ => trivial

/-- A switch reaches its mode. -/
theorem switchStep_spec {control : FloatControl} (synced : control.Synced)
    (enable unconditional : Bool) :
    (switchStep arch control enable unconditional).Synced ∧
      (CsrState.ofEnable enable).Holds arch (switchStep arch control enable unconditional) := by
  cases enable <;> cases unconditional
  · exact FloatControl.keeps_disable synced
  · exact ⟨FloatControl.synced_setcsr _, FloatControl.keeps_disableUnconditional⟩
  · exact FloatControl.flushes_enable synced
  · exact ⟨FloatControl.synced_setcsr _, FloatControl.flushes_enableUnconditional⟩

/-- What computes leaves the flush bits alone. -/
theorem computeStep_spec {control left : FloatControl} {id : PpcInst} {choice : Choice}
    (synced : control.Synced) (taken : computeStep arch floatInst control id choice = some left) :
    left.Synced ∧ left.host &&& arch.flushMask = control.host &&& arch.flushMask := by
  unfold computeStep at taken
  split at taken
  next value _ =>
    obtain rfl := Option.some.inj taken
    exact ⟨FloatControl.synced_setcsr _, FloatControl.storeFromGuest_flush synced value⟩
  next => cases taken
  next =>
    obtain rfl := Option.some.inj taken
    exact ⟨rfl, rfl⟩
  next =>
    obtain rfl := Option.some.inj taken
    exact ⟨synced, rfl⟩
  next => cases taken

theorem eq_of_isLabelOf {address : Nat} {statement : FlushStatement}
    (isLabel : statement.isLabelOf address = true) : statement = .base (.label address) := by
  unfold FlushStatement.isLabelOf at isLabel
  split at isLabel
  next => rw [of_decide_eq_true isLabel]
  next => cases isLabel

/-- Lines behind a label start with nothing known. -/
theorem holds_of_isLabelOf (linked : Linked floatInst .unknown false lines) {address target : Nat}
    (found : (lines.findIdx? fun line => line.statement.isLabelOf address) = some target)
    (control : FloatControl) : (entry .unknown (lines.drop target)).Holds arch control := by
  obtain ⟨inside, isLabel, -⟩ := List.findIdx?_eq_some_iff_getElem.mp found
  have tracked := (linked.line (List.getElem?_eq_getElem inside)).1
  rw [Line.Tracked, eq_of_isLabelOf isLabel] at tracked
  rw [List.drop_eq_getElem_cons inside, entry, tracked.1 rfl]
  trivial

/-- The actions that are left follow the first one. -/
theorem Place.Inv.tail {position : Nat} {action : Action} {rest : List Action}
    {control left : FloatControl}
    (inv : (Place.inside position (action :: rest) control).Inv arch floatInst lines)
    (synced : left.Synced)
    (goesOn : ∀ known : CsrState, known.Holds arch control →
      (action.isHook = true → known ≠ .unknown →
        blockAfter floatInst false (lines.take position) = true) →
      ∃ behind, action.knownBehind known = some behind ∧ behind.Holds arch left ∧
        (behind ≠ .unknown → behind = known)) :
    (Place.inside position rest left).Inv arch floatInst lines := by
  obtain ⟨-, noSetjmp, known, holds, tracked, hooks⟩ := inv
  obtain ⟨behind, after, holds, same⟩ := goesOn known holds fun isHook =>
    hooks (by rw [List.any_cons, isHook, Bool.true_or])
  refine ⟨synced, fun member => noSetjmp (.tail _ member), behind, holds,
    tracked.2 behind after, ?_⟩
  intro isHook isKnown
  refine hooks (by rw [List.any_cons, isHook, Bool.or_true]) ?_
  rw [← same isKnown]
  exact isKnown

theorem Place.Inv.action (linked : Linked floatInst .unknown false lines) {position : Nat}
    {action : Action} {rest : List Action} {control : FloatControl} {choice : Choice} {next : Place}
    (inv : (Place.inside position (action :: rest) control).Inv arch floatInst lines)
    (preserves : Preserves (.inside position (action :: rest) control) choice)
    (keeps : HookKeeps arch floatInst lines (.inside position (action :: rest) control) choice)
    (taken : actionStep arch floatInst lines position control action rest choice = some next) :
    next.Inv arch floatInst lines := by
  have synced := inv.1
  -- A function leaves nothing known.
  have called : ∀ {left : FloatControl}, left.Synced →
      (∀ known, action.knownBehind known = some .unknown) →
      (Place.inside position rest left).Inv arch floatInst lines := by
    intro left synced forgets
    apply inv.tail synced
    intro known _ _
    exact ⟨.unknown, forgets known, trivial, fun isKnown => absurd rfl isKnown⟩
  -- Other statements leave the flush bits as they are.
  have kept : ∀ {left : FloatControl}, left.Synced →
      left.host &&& arch.flushMask = control.host &&& arch.flushMask →
      (∀ known, action.knownBehind known = some known) →
      (Place.inside position rest left).Inv arch floatInst lines := by
    intro left synced same goesOn
    apply inv.tail synced
    intro known holds _
    exact ⟨known, goesOn known, holds.congr same, fun _ => rfl⟩
  unfold actionStep at taken
  split at taken
  next address =>
    obtain ⟨target, found, rfl⟩ := Option.map_eq_some_iff.mp taken
    exact ⟨synced, holds_of_isLabelOf linked found control⟩
  next =>
    obtain rfl := Option.some.inj taken
    exact synced
  next =>
    obtain rfl := Option.some.inj taken
    exact called (preserves synced) fun _ => rfl
  next =>
    obtain rfl := Option.some.inj taken
    exact called (preserves synced) fun _ => rfl
  next => exact absurd List.mem_cons_self inv.2.1
  next =>
    obtain rfl := Option.some.inj taken
    apply inv.tail (preserves synced)
    intro known holds inBlock
    cases known with
    | unknown => exact ⟨.unknown, rfl, trivial, fun _ => rfl⟩
    | fpu => exact ⟨.fpu, rfl, holds.congr (keeps rfl (inBlock rfl (by simp))), fun _ => rfl⟩
    | vmx => exact ⟨.vmx, rfl, holds.congr (keeps rfl (inBlock rfl (by simp))), fun _ => rfl⟩
  next =>
    obtain ⟨left, computed, rfl⟩ := Option.map_eq_some_iff.mp taken
    obtain ⟨synced, same⟩ := computeStep_spec synced computed
    exact kept synced same fun _ => rfl
  case h_8 | h_9 | h_10 | h_11 =>
    obtain rfl := Option.some.inj taken
    exact kept synced rfl fun _ => rfl
  case h_12 => cases taken

/-- A step from a line. -/
theorem Place.Inv.line (linked : Linked floatInst .unknown false lines)
    (noJumps : WithoutJumps (statementsOf lines)) {position : Nat} {control : FloatControl}
    {choice : Choice} {next : Place}
    (inv : (Place.line position control).Inv arch floatInst lines)
    (taken : lineStep arch lines position control choice = some next) :
    next.Inv arch floatInst lines := by
  obtain ⟨synced, holds⟩ := inv
  unfold lineStep at taken
  split at taken
  next known enable unconditional here =>
    obtain rfl := Option.some.inj taken
    have tracked := (linked.line here).1
    obtain ⟨inside, -⟩ := List.getElem?_eq_some_iff.mp here
    obtain ⟨switched, mode⟩ := switchStep_spec synced enable unconditional
    refine ⟨switched, ?_⟩
    rcases tracked with same | unknown
    · rw [same]
      exact mode
    · rw [unknown]
      trivial
  next known statement index here =>
    obtain ⟨actions, branch, rfl⟩ := Option.map_eq_some_iff.mp taken
    obtain ⟨tracked, hooks⟩ := linked.line here
    obtain ⟨inside, line⟩ := List.getElem?_eq_some_iff.mp here
    have member := List.mem_of_getElem? branch
    have among : statement ∈ statementsOf lines :=
      List.mem_filterMap.mpr ⟨_, List.mem_of_getElem? here, rfl⟩
    rw [List.drop_eq_getElem_cons inside, line] at holds
    refine ⟨synced, (noJumps statement among actions member).1, known, holds,
      tracked.2 actions member, ?_⟩
    intro isHook isKnown
    exact hooks (List.any_eq_true.mpr ⟨actions, member, isHook⟩) isKnown
  next =>
    obtain rfl := Option.some.inj taken
    exact synced
  next => cases taken

/-- Every step of a run keeps the invariant. -/
theorem Place.Inv.step (linked : Linked floatInst .unknown false lines)
    (noJumps : WithoutJumps (statementsOf lines)) {place next : Place} {choice : Choice}
    (inv : place.Inv arch floatInst lines)
    (assumed : Preserves place choice ∧ HookKeeps arch floatInst lines place choice)
    (taken : flushStep arch floatInst lines place choice = some next) :
    next.Inv arch floatInst lines := by
  cases place with
  | line position control => exact inv.line linked noJumps taken
  | done control => cases taken
  | inside position actions control =>
      cases actions with
      | cons action rest => exact inv.action linked assumed.1 assumed.2 taken
      | nil =>
          obtain ⟨synced, -, known, holds, tracked, -⟩ := inv
          cases choice with
          | next =>
              obtain rfl := Option.some.inj taken
              refine ⟨synced, ?_⟩
              rcases tracked with same | unknown
              · rw [same]
                exact holds
              · rw [unknown]
                trivial
          | _ => cases taken

/-! ## The emitted lines -/

/-- In every run whose hooks keep the flush bits in the middle of floating-point statements, every
operation finds the mode of its unit, and the field has the value of the host's register at the
exit. -/
theorem flushMode_right (emitter : Emitter) (floatInst : Nat → Option FloatInst) (fn : Function)
    (code : Int → Word) (arch : Host) (noJumps : WithoutJumps (emitter.recompile fn code).body)
    {control : FloatControl} (synced : control.Synced) {place : Place}
    (reach : Reach (flushStep arch floatInst (emitter.flushBody floatInst fn code))
      (fun place choice => Preserves place choice ∧
        HookKeeps arch floatInst (emitter.flushBody floatInst fn code) place choice)
      (.line 0 control) place) :
    place.Right arch floatInst := by
  rw [← Emitter.statementsOf_flushBody] at noJumps
  have linked := @Emitter.linked_flushBody floatInst emitter fn code
  apply Place.Inv.right
  apply reach.invariant (motive := Place.Inv arch floatInst (emitter.flushBody floatInst fn code))
  · refine ⟨synced, ?_⟩
    rw [List.drop_zero, Emitter.entry_flushBody]
    trivial
  · intro place choice next inv assumed taken
    exact inv.step linked noJumps assumed taken

/-- Two additions and a return, with a hook in front of the second addition. -/
def hookedEmitter : Emitter where
  dis := everyWord
  config := { midAsmHooks := ⟨[(0x1004, { name := "hook", registers := ["fpscr"] })], by decide⟩ }
  symbols := .empty
  hasCase _ := true

def hookedFunction : Function := { base := 0x1000, size := 12 }

def hookedCode (i : Int) : Word :=
  ([0xFC21082A, 0xFC21082A, 0x4E800020] : List Word).getD i.toNat 0

def additions (_ : Nat) : Option FloatInst := some .fadd

/-- The first addition and the hook, which leaves the control register as given. -/
def hookedRun (left : FloatControl) : List Choice :=
  [.branch 0, .next, .next, .branch 0, .next, .next, .branch 0, .next, .branch 0, .answer left,
    .next, .branch 0]

theorem withoutJumps_hooked :
    WithoutJumps (hookedEmitter.recompile hookedFunction hookedCode).body := by
  have body : (hookedEmitter.recompile hookedFunction hookedCode).body =
      [.comment, .act (.compute (.other 0)), .comment, .act (.hook "hook" ["fpscr"]),
        .act (.compute (.other 0)), .comment, .act .ret] := by
    rfl
  rw [body]
  simp [WithoutJumps, Statement.branches]

/-- The second addition finds the flush bits clear when the hook leaves them clear. -/
theorem flushMode_right_hooked :
    (Place.inside 5 [.compute (.other 0)] ⟨0, 0⟩).Right .x86_64 additions :=
  @flushMode_right hookedEmitter additions hookedFunction hookedCode .x86_64 withoutJumps_hooked
    ⟨0, 0⟩ rfl _ (@reach_of_takeAll _ _ _ _ _ _ _ (hookedRun ⟨0, 0⟩) rfl)

/-- A hook that sets the flush bits lets the second addition run with them. -/
theorem not_flushMode_right :
    ¬∀ (emitter : Emitter) (floatInst : Nat → Option FloatInst) (fn : Function)
      (code : Int → Word) (arch : Host), WithoutJumps (emitter.recompile fn code).body →
      ∀ {control : FloatControl}, control.Synced → ∀ {place : Place},
        Reach (flushStep arch floatInst (emitter.flushBody floatInst fn code)) Preserves
          (.line 0 control) place → place.Right arch floatInst := by
  intro right
  have reached : Reach (flushStep .x86_64 additions
      (hookedEmitter.flushBody additions hookedFunction hookedCode)) Preserves (.line 0 ⟨0, 0⟩)
      (.inside 5 [.compute (.other 0)] ⟨0x8040, 0x8040⟩) :=
    @reach_of_takeAll _ _ _ _ _ _ _ (hookedRun ⟨0x8040, 0x8040⟩) rfl
  have keeps : (0x8040 : BitVec 32) &&& Host.flushMask .x86_64 = 0 :=
    right hookedEmitter additions hookedFunction hookedCode .x86_64 withoutJumps_hooked
      (show FloatControl.Synced ⟨0, 0⟩ from rfl) reached .fpu rfl
  exact absurd keeps (by decide)

end UfcRecomp.Recompiler
