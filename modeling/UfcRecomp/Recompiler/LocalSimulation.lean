import UfcRecomp.Recompiler.LocalCheck

/-!
# Local registers change nothing

A run with local registers and one without them take the same steps. The activation that runs knows
the members that were written on its path; of the others nothing is known but what is not local.
-/

namespace UfcRecomp.Recompiler

open UfcRecomp.Ppc UfcRecomp.Utils UfcRecomp.Analyze UfcRecomp.Lib

universe u v

variable {World : Type u} {Scratch : Type v} {machine : Machine World Scratch}
  {program : String → Option TaggedBody} {isLocal : SpecialRegister → Bool} {names : RegisterNames}

/-! ## Related states -/

variable (isLocal names) in
/-- A caller and its counterpart: the path goes on with nothing known. -/
structure Suspended (frame frame' : Frame Scratch) : Prop where
  same : frame' = { frame with locals := frame'.locals }
  disciplined : Disciplined names isLocal id frame.body
  path : Path names frame.body id frame.next frame.insn frame.work ∅

variable (isLocal names) in
/-- What is known around an activation that runs: the members that were written have the same values
without local registers. -/
structure Matched (written : Set Member) (context : Members) (frame : Frame Scratch)
    (rest : List (Frame Scratch)) (context' locals' : Members) (rest' : List (Frame Scratch)) :
    Prop where
  disciplined : Disciplined names isLocal id frame.body
  agree : Layers.Agree (isOwn isLocal) written ⟨context, frame.locals⟩ ⟨context', locals'⟩
  suspended : List.Forall₂ (Suspended isLocal names) rest rest'

variable (isLocal names) in
inductive Related : RunState World Scratch → RunState World Scratch → Prop where
  | ended {context context' world calls}
      (shared : ∀ member, isOwn isLocal member = false → context member = context' member) :
      Related ⟨context, world, [], calls⟩ ⟨context', world, [], calls⟩
  | running {context world calls written frame rest context' locals' rest'}
      (matched : Matched isLocal names written context frame rest context' locals' rest')
      (path : Path names frame.body id frame.next frame.insn frame.work written) :
      Related ⟨context, world, frame :: rest, calls⟩
        ⟨context', world, { frame with locals := locals' } :: rest', calls⟩

/-- What a run shows: the world, the calls, the members that are not local, and whether it ended. -/
def RunState.observe (isLocal : SpecialRegister → Bool) (state : RunState World Scratch) :
    World × List (String × World) × Members × Bool :=
  (state.world, state.calls,
    fun member => if isOwn isLocal member then 0 else state.context member, state.frames.isEmpty)

theorem Related.observe {state state' : RunState World Scratch}
    (related : Related isLocal names state state') :
    state.observe isLocal = state'.observe isLocal := by
  have context : ∀ {context context' : Members},
      (∀ member, isOwn isLocal member = false → context member = context' member) →
      (fun member => if isOwn isLocal member then 0 else context member) =
        fun member => if isOwn isLocal member then 0 else context' member := by
    intro context context' shared
    ext1 member
    split
    next => rfl
    next notOwn => exact shared member (Bool.eq_false_of_not_eq_true notOwn)
  cases related with
  | ended shared =>
      rw [RunState.observe, RunState.observe, context shared]
  | running matched path =>
      rw [RunState.observe, RunState.observe, context fun member => matched.agree.shared]
      rfl

/-! ## Parts of a step -/

section Parts

variable {written : Set Member} {context context' locals' : Members} {world : World}
  {calls : List (String × World)} {frame : Frame Scratch} {rest rest' frames frames' :
    List (Frame Scratch)}

/-- The same members are read. -/
theorem Matched.read
    (matched : Matched isLocal names written context frame rest context' locals' rest')
    {places : List Member}
    (known : ∀ member ∈ places, isLocal member.register = true → member ∈ written) :
    RunState.read (fun _ => false) ⟨context', world, frames', calls⟩
        { frame with locals := locals' } places =
      RunState.read isLocal ⟨context, world, frames, calls⟩ frame places :=
  (matched.agree.read known).symm

/-- The same values are written. -/
theorem Matched.write
    (matched : Matched isLocal names written context frame rest context' locals' rest')
    {places : List Member} (values : Members) (scratch : Scratch) {world' : World}
    (path : Path names frame.body id frame.next frame.insn frame.work
      (written ∪ {member | member ∈ places})) :
    Related isLocal names
      (RunState.write isLocal ⟨context, world, frames, calls⟩ frame rest places values scratch world')
      (RunState.write (fun _ => false) ⟨context', world, frames', calls⟩
        { frame with locals := locals' } rest' places values scratch world') := by
  let layers := Layers.assign (isOwn isLocal) places values ⟨context, frame.locals⟩
  have matched' : Matched isLocal names (written ∪ {member | member ∈ places}) layers.shared
      { frame with locals := layers.own, scratch } rest _ _ rest' :=
    ⟨matched.disciplined, matched.agree.assign places values, matched.suspended⟩
  exact .running matched' path

/-- Somewhere else in the body. -/
theorem Matched.at
    (matched : Matched isLocal names written context frame rest context' locals' rest')
    (next : Nat) (insn : Insn) (work : List Work) :
    Matched isLocal names written context { frame with next, insn, work } rest context' locals'
      rest' :=
  ⟨matched.disciplined, matched.agree, matched.suspended⟩

/-- Behind the end of an activation its caller goes on. -/
theorem Matched.leave
    (matched : Matched isLocal names written context frame rest context' locals' rest') :
    Related isLocal names ⟨context, world, rest, calls⟩ ⟨context', world, rest', calls⟩ := by
  obtain ⟨-, agree, suspended⟩ := matched
  cases suspended with
  | nil => exact .ended fun member => agree.shared
  | cons caller callers =>
      rw [caller.same]
      refine .running ⟨caller.disciplined, ?_, callers⟩ caller.path
      exact Layers.agree_of_shared fun member => agree.shared

/-- A function is called. -/
theorem Matched.call
    (matched : Matched isLocal names written context frame rest context' locals' rest')
    (programs : ∀ name body, program name = some body → Disciplined names isLocal id body)
    (path : Path names frame.body id frame.next frame.insn frame.work ∅) (name : String) :
    Option.Rel (Related isLocal names)
      (RunState.call machine program ⟨context, world, frame :: rest, calls⟩ name)
      (RunState.call machine program
        ⟨context', world, { frame with locals := locals' } :: rest', calls⟩ name) := by
  obtain ⟨disciplined, agree, suspended⟩ := matched
  have nothing : ∀ {locals locals' : Members},
      Layers.Agree (isOwn isLocal) ∅ ⟨context, locals⟩ ⟨context', locals'⟩ :=
    Layers.agree_of_shared fun member => agree.shared
  rw [RunState.call, RunState.call]
  dsimp only
  cases found : program name with
  | some body =>
      have caller : Suspended isLocal names frame { frame with locals := locals' } :=
        ⟨rfl, disciplined, path⟩
      exact .some (.running ⟨programs name body found, nothing, .cons caller suspended⟩ .entry)
  | none =>
      cases machine.imported name world with
      | none => exact .none
      | some world' => exact .some (.running ⟨disciplined, nothing, suspended⟩ path)

end Parts

/-! ## Paths -/

section Paths

variable {written : Set Member} {body : TaggedBody} {next : Nat} {insn : Insn} {work : Work}
  {left more : List Work}

/-- The path behind work that is no call. -/
theorem Path.write (path : Path names body id next insn (work :: left) written)
    (noCall : work.calls = false) (goesOn : more ∈ work.continuations names insn) :
    Path names body id next insn (more ++ left) (written ∪ {member | member ∈ work.writes}) := by
  have behind := path.pass goesOn
  rw [noCall] at behind
  simpa using behind

/-- The path behind work that is no call and writes nothing. -/
theorem Path.go (path : Path names body id next insn (work :: left) written)
    (noCall : work.calls = false) (noWrite : work.writes = [])
    (goesOn : more ∈ work.continuations names insn) :
    Path names body id next insn (more ++ left) written := by
  have behind := path.write noCall goesOn
  rw [noWrite] at behind
  simpa using behind

/-- The path behind a call. -/
theorem Path.called (path : Path names body id next insn (work :: left) written)
    (isCall : work.calls = true) (goesOn : more ∈ work.continuations names insn) :
    Path names body id next insn (more ++ left) ∅ := by
  have behind := path.pass goesOn
  rw [isCall] at behind
  exact behind

end Paths

/-! ## Steps -/

section Steps

variable {written : Set Member} {context context' locals' : Members} {world : World}
  {calls : List (String × World)} {frame : Frame Scratch} {rest rest' frames frames' :
    List (Frame Scratch)}

theorem Matched.act
    (matched : Matched isLocal names written context frame rest context' locals' rest')
    (programs : ∀ name body, program name = some body → Disciplined names isLocal id body)
    {action : Action} (path : Path names frame.body id frame.next frame.insn
      (.statement (.act action) :: frame.work) written) :
    Option.Rel (Related isLocal names)
      (actStep machine program isLocal names ⟨context, world, frames, calls⟩ frame rest action)
      (actStep machine program (fun _ => false) names ⟨context', world, frames', calls⟩
        { frame with locals := locals' } rest' action) := by
  cases action with
  | goto address =>
      rw [actStep, actStep]
      dsimp only
      cases found : labelPosition frame.body address with
      | none => exact .none
      | some target =>
          exact .some (.running (matched.at target frame.insn []) (path.goto found))
  | ret => exact .some matched.leave
  | call name => exact matched.call programs (path.called rfl (.head _)) name
  | callIndirect =>
      have known : ∀ member ∈ [Member.ctrLow], isLocal member.register = true → member ∈ written :=
        matched.disciplined path
      rw [actStep, actStep, matched.read known]
      dsimp only
      cases machine.lookup world (RunState.read isLocal ⟨context, world, frames, calls⟩ frame
          [.ctrLow] .ctrLow) with
      | none => exact .none
      | some name => exact matched.call programs (path.called rfl (.head _)) name
  | longjmp => exact .none
  | setjmp => exact .none
  | error address => exact .some (.running matched (path.go rfl rfl (.head _)))
  | setLr address => exact .some (.running matched (path.go rfl rfl (.head _)))
  | decrementCtr =>
      have known : ∀ member ∈ [Member.ctrLow, .ctrHigh],
          isLocal member.register = true → member ∈ written := matched.disciplined path
      rw [actStep, actStep, matched.read known]
      exact .some (matched.write _ _ (path.write rfl (.head _)))
  | debugtrap => exact .some (.running matched (path.go rfl rfl (.head _)))
  | hook name registers =>
      have known : ∀ member ∈ hookMembers registers,
          isLocal member.register = true → member ∈ written := matched.disciplined path
      rw [actStep, actStep, matched.read known]
      exact .some (matched.write _ _ (path.write rfl (.head _)))
  | compute id =>
      exact .some (.running (matched.at frame.next frame.insn _) (path.go rfl rfl (.head _)))

theorem Matched.work
    (matched : Matched isLocal names written context frame rest context' locals' rest')
    (programs : ∀ name body, program name = some body → Disciplined names isLocal id body)
    {work : Work}
    (path : Path names frame.body id frame.next frame.insn (work :: frame.work) written) :
    Option.Rel (Related isLocal names)
      (workStep machine program isLocal names ⟨context, world, frames, calls⟩ frame rest work)
      (workStep machine program (fun _ => false) names ⟨context', world, frames', calls⟩
        { frame with locals := locals' } rest' work) := by
  cases work with
  | piece index part =>
      have known : ∀ member ∈ part.reads, isLocal member.register = true → member ∈ written :=
        matched.disciplined path
      rw [workStep, workStep, matched.read known]
      exact .some (matched.write _ _ (path.write rfl (.head _)))
  | statement statement =>
      cases statement with
      | comment => exact .some (.running matched (path.go rfl rfl (.head _)))
      | label address => exact .some (.running matched (path.go rfl rfl (.head _)))
      | act action => exact matched.act programs path
      | ifThen condition actions =>
          have known : ∀ member ∈ condition.members,
              isLocal member.register = true → member ∈ written := matched.disciplined path
          rw [workStep, workStep, matched.read known]
          refine .some (.running (matched.at frame.next frame.insn _) (path.go rfl rfl ?_))
          split
          next => exact .head _
          next => exact .tail _ (.head _)
      | ifHook name registers onTrue onFalse =>
          have known : ∀ member ∈ hookMembers registers,
              isLocal member.register = true → member ∈ written := matched.disciplined path
          rw [workStep, workStep, matched.read known]
          refine .some ((matched.at frame.next frame.insn _).write _ _ (path.write rfl ?_))
          split
          next => exact .head _
          next => exact .tail _ (.head _)
      | switch r cases_ =>
          rw [workStep, workStep]
          dsimp only
          cases found : cases_[(machine.gpr r frame.scratch world).toNat]? with
          | none => exact .none
          | some actions =>
              refine .some (.running (matched.at frame.next frame.insn _) (path.go rfl rfl ?_))
              exact List.mem_map_of_mem (List.mem_of_getElem? found)

variable (programs : ∀ name body, program name = some body → Disciplined names isLocal id body)
include programs

/-- Both runs take their steps together. -/
theorem Related.step {state state' : RunState World Scratch}
    (related : Related isLocal names state state') :
    Option.Rel (Related isLocal names) (runStep machine program isLocal names state)
      (runStep machine program (fun _ => false) names state') := by
  cases related with
  | ended => exact .none
  | @running _ _ _ _ frame _ _ _ _ matched path =>
      obtain ⟨body, next, insn, work, locals, scratch⟩ := frame
      cases work with
      | cons work left => exact (matched.at next insn left).work programs path
      | nil =>
          rw [runStep, runStep]
          dsimp only
          cases here : body[next]? with
          | none => exact .some matched.leave
          | some line => exact .some (.running (matched.at (next + 1) line.1 _) (path.line here))

end Steps

/-! ## Emitted functions -/

/-- An emitter without local registers. -/
def Emitter.withoutLocals (emitter : Emitter) : Emitter :=
  { emitter with
    config := { emitter.config with
      ctrAsLocalVariable := false
      xerAsLocalVariable := false
      reservedRegisterAsLocalVariable := false
      crRegistersAsLocalVariables := false } }

/-- The emitted functions, by their names. -/
def Emitter.bodies (emitter : Emitter) (functions : String → Option (Function × (Int → Word)))
    (name : String) : Option TaggedBody :=
  (functions name).map fun entry => emitter.taggedBody entry.1 entry.2

/-- A step of the emitted functions. -/
def Emitter.localStep (emitter : Emitter) (machine : Machine World Scratch) (names : RegisterNames)
    (functions : String → Option (Function × (Int → Word))) :
    RunState World Scratch → Option (RunState World Scratch) :=
  runStep machine (emitter.bodies functions) emitter.config.isLocal names

/-- The start of a function. -/
def Emitter.start (emitter : Emitter) (machine : Machine World Scratch) (fn : Function)
    (code : Int → Word) (context : Members) (world : World) : RunState World Scratch where
  context := context
  world := world
  frames := [.enter machine (emitter.taggedBody fn code)]
  calls := []

/-- No function calls `setjmp`, and in every function each read of a local register is preceded by a
write, as far as the grain tells members apart. -/
def Emitter.AllDisciplined {γ : Type} (emitter : Emitter) (names : RegisterNames)
    (grain : Member → γ) (functions : String → Option (Function × (Int → Word))) : Prop :=
  ∀ name fn code, functions name = some (fn, code) →
    (∀ statement ∈ (emitter.recompile fn code).body, ∀ actions ∈ statement.branches,
      Action.setjmp ∉ actions) ∧
      Disciplined names emitter.config.isLocal grain (emitter.taggedBody fn code)

/-- The statements of the body, in their order. -/
theorem Emitter.taggedBody_statements (emitter : Emitter) (fn : Function) (code : Int → Word) :
    (emitter.taggedBody fn code).map Prod.snd = (emitter.recompile fn code).body := by
  have before : ∀ n, ((List.range n).flatMap fun i =>
      (emitter.printedLabel fn code i ++ emitter.printedInsn fn code i).map fun statement =>
        (emitter.insn fn code i, statement)).map Prod.snd = (emitter.before fn code n).body := by
    intro n
    induction n with
    | zero => rfl
    | succ n ih =>
        rw [List.range_succ, List.flatMap_append, List.map_append, ih, Emitter.body_succ]
        simp [Function.comp_def]
  exact before (words fn)

theorem Emitter.isLocal_withoutLocals (emitter : Emitter) :
    emitter.withoutLocals.config.isLocal = fun _ => false := by
  ext1 register
  cases register <;> rfl

/-- With members of local registers written before they are read, a run of the emitted functions
shows the same with and without local registers after any number of steps. -/
theorem localStep_observe (machine : Machine World Scratch) (emitter : Emitter)
    (names : RegisterNames) (functions : String → Option (Function × (Int → Word)))
    (disciplined : emitter.AllDisciplined names id functions) {name : String} {fn : Function}
    {code : Int → Word} (found : functions name = some (fn, code)) (context : Members)
    (world : World) (n : Nat) :
    (steps (emitter.localStep machine names functions) n
        (emitter.start machine fn code context world)).map (RunState.observe emitter.config.isLocal) =
      (steps (emitter.withoutLocals.localStep machine names functions) n
        (emitter.withoutLocals.start machine fn code context world)).map
          (RunState.observe emitter.config.isLocal) := by
  have programs : ∀ name body, emitter.bodies functions name = some body →
      Disciplined names emitter.config.isLocal id body := by
    intro name body isBody
    obtain ⟨⟨fn, code⟩, found, rfl⟩ := Option.map_eq_some_iff.mp isBody
    exact (disciplined name fn code found).2
  have start : Related emitter.config.isLocal names (emitter.start machine fn code context world)
      (emitter.withoutLocals.start machine fn code context world) := by
    refine .running ⟨(disciplined name fn code found).2, ?_, .nil⟩ .entry
    exact Layers.agree_of_shared fun _ _ => rfl
  apply observe_steps _ Related.observe start
  intro state state' related
  rw [Emitter.localStep, Emitter.localStep, Emitter.isLocal_withoutLocals]
  exact related.step programs

/-! ## Two programs -/

/-- A machine whose comparisons copy the summary overflow bit. -/
def copyMachine : Machine Unit Unit where
  fresh := ()
  gpr _ _ _ := 0
  setLr _ _ := ()
  lookup _ _ := none
  imported _ _ := some ()
  hook _ _ members _ _ := (members, (), (), false)
  compute _ _ members _ _ :=
    (fun
      | .cr _ .so => members .so
      | _ => 0, (), ())

/-- One function under its name. -/
def single (fn : Function) (code : Int → Word) (name : String) : Option (Function × (Int → Word)) :=
  if name = "sub_1000" then some (fn, code) else none

/-- The other instructions are additions that set the carry and compare. -/
def carryNames : RegisterNames := ⟨fun _ => some .addic, fun _ => true⟩

def countEmitter : Emitter := plainEmitter { ctrAsLocalVariable := true }

def countFunction : Function := { base := 0x1000, size := 12 }

/-- A counter is set and counted down. -/
def countCode (i : Int) : Word :=
  ([0x7C6903A6, 0x42000000, 0x4E800020] : List Word).getD i.toNat 0

def carryEmitter : Emitter := plainEmitter { xerAsLocalVariable := true }

def carryFunction : Function := { base := 0x1000, size := 8 }

/-- An addition sets the carry and compares its result with zero. -/
def carryCode (i : Int) : Word := ([0x34630001, 0x4E800020] : List Word).getD i.toNat 0

/-- The summary overflow bit alone is set. -/
def overflowed : Members
  | .so => 1
  | _ => 0

theorem allDisciplined_single {γ : Type} {emitter : Emitter} {names : RegisterNames}
    {grain : Member → γ} {fn : Function} {code : Int → Word}
    (noSetjmp : ∀ statement ∈ (emitter.recompile fn code).body,
      ∀ actions ∈ statement.branches, Action.setjmp ∉ actions)
    (disciplined : Disciplined names emitter.config.isLocal grain (emitter.taggedBody fn code)) :
    emitter.AllDisciplined names grain (single fn code) := by
  intro name fn' code' found
  rw [single] at found
  split at found
  next =>
    obtain ⟨rfl, rfl⟩ := Prod.mk.inj (Option.some.inj found)
    exact ⟨noSetjmp, disciplined⟩
  next => cases found

/-- The count register is written in front of the loop and not left to the context. -/
theorem localStep_observe_count :
    (steps (countEmitter.localStep copyMachine carryNames (single countFunction countCode)) 20
        (countEmitter.start copyMachine countFunction countCode overflowed ())).map
          (RunState.observe countEmitter.config.isLocal) =
      (steps (countEmitter.withoutLocals.localStep copyMachine carryNames
          (single countFunction countCode)) 20
        (countEmitter.withoutLocals.start copyMachine countFunction countCode overflowed ())).map
          (RunState.observe countEmitter.config.isLocal) := by
  have body : (countEmitter.recompile countFunction countCode).body =
      [.comment, .act (.compute .mtctr), .label 0x1004, .comment, .act .decrementCtr,
        .ifThen (.ctr false) [.goto 0x1004], .comment, .act .ret] := by
    rfl
  have disciplined : countEmitter.AllDisciplined carryNames id (single countFunction countCode) := by
    apply allDisciplined_single
    · rw [body]
      simp [Statement.branches]
    · exact @disciplined_of_checkBody _ _ _ _ _ _
        (fun next => if next < 2 then [] else [.ctrLow, .ctrHigh]) 4 rfl
  exact localStep_observe copyMachine countEmitter carryNames _ disciplined
    (show single countFunction countCode "sub_1000" = some (countFunction, countCode) from rfl)
    overflowed () 20

/-- A write to the carry is no write to the summary overflow bit, which the comparison copies. -/
theorem not_localStep_observe :
    ¬∀ (machine : Machine Unit Unit) (emitter : Emitter) (names : RegisterNames)
      (functions : String → Option (Function × (Int → Word))),
      emitter.AllDisciplined names Member.register functions →
      ∀ {name : String} {fn : Function} {code : Int → Word},
        functions name = some (fn, code) → ∀ (context : Members) (world : Unit) (n : Nat),
          (steps (emitter.localStep machine names functions) n
              (emitter.start machine fn code context world)).map
                (RunState.observe emitter.config.isLocal) =
            (steps (emitter.withoutLocals.localStep machine names functions) n
              (emitter.withoutLocals.start machine fn code context world)).map
                (RunState.observe emitter.config.isLocal) := by
  intro preserves
  have body : (carryEmitter.recompile carryFunction carryCode).body =
      [.comment, .act (.compute (.other 0)), .comment, .act .ret] := by
    rfl
  have disciplined :
      carryEmitter.AllDisciplined carryNames Member.register (single carryFunction carryCode) := by
    apply allDisciplined_single
    · rw [body]
      simp [Statement.branches]
    · exact @disciplined_of_checkBody _ _ _ _ _ _ (fun _ => []) 6 rfl
  have same := preserves copyMachine carryEmitter carryNames _ disciplined
    (show single carryFunction carryCode "sub_1000" = some (carryFunction, carryCode) from rfl)
    overflowed () 11
  -- The summary overflow bit of the comparison at the end.
  have bit := congrArg (Option.map fun observed => observed.2.2.1 (.cr 0 .so)) same
  exact absurd (show some (0 : BitVec 8) = some 1 from bit) (by decide)

end UfcRecomp.Recompiler
