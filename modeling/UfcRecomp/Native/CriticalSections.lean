import Mathlib.Data.List.Count
import Mathlib.Logic.Function.Basic
import UfcRecomp.Lib.RecursiveMutex
import UfcRecomp.Lib.Transition

/-!
# Critical sections

A critical section of the guest is a recursive mutex of the host, found by its address in a map that
has a mutex of its own. The pointer to it is copied while the map's mutex is held, and used
afterwards. Threads call the functions at the same time, and each access to what they share is an
action of its own.
-/

namespace UfcRecomp.Native

open UfcRecomp.Lib

namespace CriticalSections

/-- The functions of the kernel, without the part `__imp__` of their names. -/
inductive Call where
  | rtlInitializeCriticalSection
  | rtlInitializeCriticalSectionAndSpinCount
  | rtlEnterCriticalSection
  | rtlTryEnterCriticalSection
  | rtlLeaveCriticalSection
  deriving DecidableEq

/-- Whether only `GetCriticalSection` is called. -/
def Call.initializes : Call → Bool
  | .rtlInitializeCriticalSection | .rtlInitializeCriticalSectionAndSpinCount => true
  | _ => false

/-- Where a thread is: in the guest with the result of its last call, at a line of
`GetCriticalSection`, or behind it. -/
inductive Phase where
  | guest (r3 : BitVec 64)
  /-- Before `std::lock_guard lock(gCriticalSectionsMutex)`. -/
  | entering (call : Call) (guestAddress : BitVec 32)
  /-- Before `gCriticalSections[guestAddress]`. -/
  | searching (call : Call) (guestAddress : BitVec 32)
  /-- Before `section = std::make_shared<std::recursive_mutex>()`. -/
  | creating (call : Call) (guestAddress : BitVec 32)
  /-- With the copy to return, before the end of the guard. -/
  | returning (call : Call) (guestAddress : BitVec 32) (pointer : Nat)
  /-- Before the operation on the mutex that the copy points to. -/
  | operating (call : Call) (guestAddress : BitVec 32) (pointer : Nat)
  deriving DecidableEq

namespace Phase

/-- The call that a thread is in. -/
def call : Phase → Option Call
  | guest _ => none
  | entering call _ | searching call _ | creating call _ | returning call _ _
  | operating call _ _ => some call

def address : Phase → Option (BitVec 32)
  | guest _ => none
  | entering _ guestAddress | searching _ guestAddress | creating _ guestAddress
  | returning _ guestAddress _ | operating _ guestAddress _ => some guestAddress

/-- Whether a thread is where it holds the mutex of the map. -/
def guarded : Phase → Bool
  | searching _ _ | creating _ _ | returning _ _ _ => true
  | _ => false

/-- The copy of the pointer that a thread has. -/
def pointer : Phase → Option Nat
  | returning _ _ pointer | operating _ _ pointer => some pointer
  | _ => none

end Phase

/-- What has been done to a critical section. -/
inductive Event (τ : Type) where
  | entered (thread : τ) (guestAddress : BitVec 32)
  | left (thread : τ) (guestAddress : BitVec 32)
  deriving DecidableEq

/-- What a thread does next. -/
inductive Action (τ : Type) where
  | call (thread : τ) (call : Call) (r3 : BitVec 64)
  | advance (thread : τ)

end CriticalSections

open CriticalSections

/-- The state that the threads `τ` share, where each of them is, and what has been done so far. -/
structure CriticalSections (τ : Type) where
  gCriticalSectionsMutex : Option τ
  gCriticalSections : BitVec 32 → Option Nat
  /-- The recursive mutexes by what points to them, and how many were made. The map keeps its
  pointers, so that none of them is destroyed. -/
  mutexes : Nat → RecursiveMutex τ
  made : Nat
  phase : τ → CriticalSections.Phase
  history : List (Event τ)

namespace CriticalSections

variable {τ : Type} [DecidableEq τ]

/-- No call has been made. -/
def initial : CriticalSections τ where
  gCriticalSectionsMutex := none
  gCriticalSections _ := none
  mutexes _ := .free
  made := 0
  phase _ := .guest 0
  history := []

/-- A thread goes on. -/
def go (state : CriticalSections τ) (thread : τ) (phase : Phase) : CriticalSections τ :=
  { state with phase := Function.update state.phase thread phase }

/-- `std::make_shared<std::recursive_mutex>()`, stored in the map. -/
def make (state : CriticalSections τ) (guestAddress : BitVec 32) : CriticalSections τ :=
  { state with
    gCriticalSections := Function.update state.gCriticalSections guestAddress (some state.made)
    mutexes := Function.update state.mutexes state.made .free
    made := state.made + 1 }

/-- A mutex is entered or left. -/
def change (state : CriticalSections τ) (pointer : Nat) (mutex : RecursiveMutex τ)
    (event : Event τ) : CriticalSections τ :=
  { state with
    mutexes := Function.update state.mutexes pointer mutex
    history := event :: state.history }

/-- What a function does with the mutex that `GetCriticalSection` returned. -/
def operate (state : CriticalSections τ) (thread : τ) (guestAddress : BitVec 32) (pointer : Nat) :
    Call → Option (CriticalSections τ)
  | .rtlInitializeCriticalSection | .rtlInitializeCriticalSectionAndSpinCount =>
    some (state.go thread (.guest 0))
  | .rtlEnterCriticalSection =>
    ((state.mutexes pointer).lock thread).map fun mutex =>
      (state.change pointer mutex (.entered thread guestAddress)).go thread (.guest 0)
  | .rtlTryEnterCriticalSection =>
    match (state.mutexes pointer).tryLock thread with
    | (mutex, true) =>
      some ((state.change pointer mutex (.entered thread guestAddress)).go thread (.guest 1))
    | (_, false) => some (state.go thread (.guest 0))
  | .rtlLeaveCriticalSection =>
    ((state.mutexes pointer).unlock thread).map fun mutex =>
      (state.change pointer mutex (.left thread guestAddress)).go thread (.guest 0)

/-- What an action does, when the thread is where it can be taken and does not have to wait. -/
def step (state : CriticalSections τ) : Action τ → Option (CriticalSections τ)
  | .call thread call r3 =>
    match state.phase thread with
    | .guest _ => some (state.go thread (.entering call (r3.setWidth 32)))
    | _ => none
  | .advance thread =>
    match state.phase thread with
    | .guest _ => none
    | .entering call guestAddress =>
      if state.gCriticalSectionsMutex = none then
        some ({ state with gCriticalSectionsMutex := some thread }.go thread
          (.searching call guestAddress))
      else none
    | .searching call guestAddress =>
      match state.gCriticalSections guestAddress with
      | none => some (state.go thread (.creating call guestAddress))
      | some pointer => some (state.go thread (.returning call guestAddress pointer))
    | .creating call guestAddress =>
      some ((state.make guestAddress).go thread (.returning call guestAddress state.made))
    | .returning call guestAddress pointer =>
      some ({ state with gCriticalSectionsMutex := none }.go thread
        (.operating call guestAddress pointer))
    | .operating call guestAddress pointer => state.operate thread guestAddress pointer call

/-! ## What was entered and left -/

/-- How often a thread has entered and left a critical section. -/
def entries (state : CriticalSections τ) (thread : τ) (guestAddress : BitVec 32) : Nat :=
  state.history.count (.entered thread guestAddress)

def exits (state : CriticalSections τ) (thread : τ) (guestAddress : BitVec 32) : Nat :=
  state.history.count (.left thread guestAddress)

/-- A thread has entered a critical section more often than left. -/
def Inside (state : CriticalSections τ) (thread : τ) (guestAddress : BitVec 32) : Prop :=
  state.exits thread guestAddress < state.entries thread guestAddress

/-- Only owners leave. -/
def Issued (state : CriticalSections τ) : Action τ → Prop
  | .call thread .rtlLeaveCriticalSection r3 => state.Inside thread (r3.setWidth 32)
  | _ => True

/-- The mutex of an address. -/
def lockOf (state : CriticalSections τ) (guestAddress : BitVec 32) : Option (RecursiveMutex τ) :=
  (state.gCriticalSections guestAddress).map state.mutexes

/-- The address that an action is about. -/
def concerns (state : CriticalSections τ) : Action τ → Option (BitVec 32)
  | .call _ _ _ => none
  | .advance thread => (state.phase thread).address

/-! ## What a step does -/

/-- The steps that can be taken. -/
inductive Does (state : CriticalSections τ) : Action τ → CriticalSections τ → Prop where
  | call {thread call r3 last} (phase : state.phase thread = .guest last) :
      Does state (.call thread call r3) (state.go thread (.entering call (r3.setWidth 32)))
  | guard {thread call guestAddress} (phase : state.phase thread = .entering call guestAddress)
      (free : state.gCriticalSectionsMutex = none) :
      Does state (.advance thread) ({ state with gCriticalSectionsMutex := some thread }.go thread
        (.searching call guestAddress))
  | miss {thread call guestAddress} (phase : state.phase thread = .searching call guestAddress)
      (missing : state.gCriticalSections guestAddress = none) :
      Does state (.advance thread) (state.go thread (.creating call guestAddress))
  | find {thread call guestAddress pointer}
      (phase : state.phase thread = .searching call guestAddress)
      (found : state.gCriticalSections guestAddress = some pointer) :
      Does state (.advance thread) (state.go thread (.returning call guestAddress pointer))
  | make {thread call guestAddress} (phase : state.phase thread = .creating call guestAddress) :
      Does state (.advance thread)
        ((state.make guestAddress).go thread (.returning call guestAddress state.made))
  | release {thread call guestAddress pointer}
      (phase : state.phase thread = .returning call guestAddress pointer) :
      Does state (.advance thread) ({ state with gCriticalSectionsMutex := none }.go thread
        (.operating call guestAddress pointer))
  | rest {thread call guestAddress pointer}
      (phase : state.phase thread = .operating call guestAddress pointer)
      (nothing : call.initializes = true ∨ call = .rtlTryEnterCriticalSection ∧
        (state.mutexes pointer).lock thread = none) :
      Does state (.advance thread) (state.go thread (.guest 0))
  | enter {thread call guestAddress pointer mutex r3}
      (phase : state.phase thread = .operating call guestAddress pointer)
      (enters : call = .rtlEnterCriticalSection ∧ r3 = 0 ∨
        call = .rtlTryEnterCriticalSection ∧ r3 = 1)
      (entered : (state.mutexes pointer).lock thread = some mutex) :
      Does state (.advance thread)
        ((state.change pointer mutex (.entered thread guestAddress)).go thread (.guest r3))
  | leave {thread guestAddress pointer mutex}
      (phase : state.phase thread = .operating .rtlLeaveCriticalSection guestAddress pointer)
      (left : (state.mutexes pointer).unlock thread = some mutex) :
      Does state (.advance thread)
        ((state.change pointer mutex (.left thread guestAddress)).go thread (.guest 0))

variable {state next : CriticalSections τ} {action : Action τ}

/-- What is done behind `GetCriticalSection`. -/
theorem does_of_operate {thread : τ} {call : Call} {guestAddress : BitVec 32} {pointer : Nat}
    (phase : state.phase thread = .operating call guestAddress pointer)
    (taken : state.operate thread guestAddress pointer call = some next) :
    Does state (.advance thread) next := by
  cases call with
  | rtlInitializeCriticalSection | rtlInitializeCriticalSectionAndSpinCount =>
      cases taken
      exact .rest phase (.inl rfl)
  | rtlEnterCriticalSection =>
      obtain ⟨mutex, entered, rfl⟩ := Option.map_eq_some_iff.mp taken
      exact .enter phase (.inl ⟨rfl, rfl⟩) entered
  | rtlTryEnterCriticalSection =>
      rw [operate, RecursiveMutex.tryLock] at taken
      cases attempt : (state.mutexes pointer).lock thread with
      | none =>
          rw [attempt] at taken
          cases taken
          exact .rest phase (.inr ⟨rfl, attempt⟩)
      | some mutex =>
          rw [attempt] at taken
          cases taken
          exact .enter phase (.inr ⟨rfl, rfl⟩) attempt
  | rtlLeaveCriticalSection =>
      obtain ⟨mutex, left, rfl⟩ := Option.map_eq_some_iff.mp taken
      exact .leave phase left

theorem does_of_step (taken : state.step action = some next) : Does state action next := by
  cases action with
  | call thread call r3 =>
      rw [step] at taken
      split at taken
      next last phase =>
        cases taken
        exact .call phase
      next => cases taken
  | advance thread =>
      rw [step] at taken
      split at taken
      next => cases taken
      next call guestAddress phase =>
        split at taken
        next free =>
          cases taken
          exact .guard phase free
        next => cases taken
      next call guestAddress phase =>
        split at taken
        next missing =>
          cases taken
          exact .miss phase missing
        next pointer found =>
          cases taken
          exact .find phase found
      next call guestAddress phase =>
        cases taken
        exact .make phase
      next call guestAddress pointer phase =>
        cases taken
        exact .release phase
      next call guestAddress pointer phase => exact does_of_operate phase taken

/-! ## The map -/

@[simp] theorem phase_go (state : CriticalSections τ) (thread other : τ) (phase : Phase) :
    (state.go thread phase).phase other = if other = thread then phase else state.phase other :=
  Function.update_apply ..

omit [DecidableEq τ] in
theorem sections_make (state : CriticalSections τ) (guestAddress other : BitVec 32) :
    (state.make guestAddress).gCriticalSections other =
      if other = guestAddress then some state.made else state.gCriticalSections other :=
  Function.update_apply ..

/-- The mutex of the map is held by the thread that is where it holds it. What the map points to was
made, for one address only, and the pointers that threads have are those of the map. -/
structure Mapped (state : CriticalSections τ) : Prop where
  guarded : ∀ thread,
    (state.phase thread).guarded = true ↔ state.gCriticalSectionsMutex = some thread
  made : ∀ {guestAddress pointer},
    state.gCriticalSections guestAddress = some pointer → pointer < state.made
  injective : ∀ {first second pointer}, state.gCriticalSections first = some pointer →
    state.gCriticalSections second = some pointer → first = second
  missing : ∀ {thread call guestAddress}, state.phase thread = .creating call guestAddress →
    state.gCriticalSections guestAddress = none
  copied : ∀ {thread guestAddress pointer}, (state.phase thread).address = some guestAddress →
    (state.phase thread).pointer = some pointer →
    state.gCriticalSections guestAddress = some pointer

omit [DecidableEq τ] in
theorem mapped_initial : Mapped (initial : CriticalSections τ) where
  guarded _ := iff_of_false Bool.false_ne_true nofun
  made found := by cases found
  injective found := by cases found
  missing phase := by cases phase
  copied address := by cases address

/-- A thread goes on without a change of the map; it may take or give back the map's mutex. -/
theorem Mapped.go (mapped : Mapped state) {thread : τ} {phase : Phase} {guard : Option τ}
    (own : phase.guarded = true ↔ guard = some thread)
    (others : ∀ other, other ≠ thread →
      (guard = some other ↔ state.gCriticalSectionsMutex = some other))
    (missing : ∀ call guestAddress, phase = .creating call guestAddress →
      state.gCriticalSections guestAddress = none)
    (copied : ∀ guestAddress pointer, phase.address = some guestAddress →
      phase.pointer = some pointer → state.gCriticalSections guestAddress = some pointer) :
    Mapped ({ state with gCriticalSectionsMutex := guard }.go thread phase) where
  guarded other := by
    rw [phase_go]
    split
    next same =>
      rw [same]
      exact own
    next apart => exact (mapped.guarded other).trans (others other apart).symm
  made := mapped.made
  injective := mapped.injective
  missing {other call guestAddress} creating := by
    rw [phase_go] at creating
    split at creating
    · exact missing call guestAddress creating
    · exact mapped.missing creating
  copied {other guestAddress pointer} address copy := by
    rw [phase_go] at address copy
    split at address
    next same =>
      rw [if_pos same] at copy
      exact copied guestAddress pointer address copy
    next apart =>
      rw [if_neg apart] at copy
      exact mapped.copied address copy

/-- A thread goes on outside the guard. -/
theorem Mapped.go_outside (mapped : Mapped state) {thread : τ} {phase : Phase}
    (before : (state.phase thread).guarded = false) (after : phase.guarded = false)
    (alone : phase.pointer = none) : Mapped (state.go thread phase) := by
  have unheld : state.gCriticalSectionsMutex ≠ some thread := by
    rw [Ne, ← mapped.guarded, before]
    decide
  apply @Mapped.go _ _ _ mapped _ _ state.gCriticalSectionsMutex
  · exact iff_of_false (by rw [after]; decide) unheld
  · exact fun _ _ => Iff.rfl
  · rintro call guestAddress rfl
    cases after
  · intro guestAddress pointer _ copy
    rw [alone] at copy
    cases copy

omit [DecidableEq τ] in
/-- Entering or leaving a critical section does not concern the map. -/
theorem Mapped.change (mapped : Mapped state) (pointer : Nat) (mutex : RecursiveMutex τ)
    (event : Event τ) : Mapped (state.change pointer mutex event) :=
  ⟨mapped.guarded, mapped.made, mapped.injective, mapped.missing, mapped.copied⟩

omit [DecidableEq τ] in
/-- A thread that goes on where it holds the mutex of the map. -/
theorem Mapped.holds (mapped : Mapped state) {thread : τ}
    (guarded : (state.phase thread).guarded = true) :
    state.gCriticalSectionsMutex = some thread := (mapped.guarded thread).mp guarded

omit [DecidableEq τ] in
/-- The pointer behind `GetCriticalSection` is that of the address. -/
theorem Mapped.found (mapped : Mapped state) {thread : τ} {call : Call} {guestAddress : BitVec 32}
    {pointer : Nat} (phase : state.phase thread = .operating call guestAddress pointer) :
    state.gCriticalSections guestAddress = some pointer :=
  @Mapped.copied _ _ mapped thread _ _ (by rw [phase]; rfl) (by rw [phase]; rfl)

theorem Mapped.make (mapped : Mapped state) {thread : τ} {call : Call} {guestAddress : BitVec 32}
    (phase : state.phase thread = .creating call guestAddress) :
    Mapped ((state.make guestAddress).go thread (.returning call guestAddress state.made)) := by
  have held : state.gCriticalSectionsMutex = some thread := mapped.holds (by rw [phase]; rfl)
  have absent := mapped.missing phase
  -- What the map points to afterwards.
  have cases_of_found : ∀ {other pointer}, (state.make guestAddress).gCriticalSections other =
      some pointer → other = guestAddress ∧ pointer = state.made ∨
        other ≠ guestAddress ∧ state.gCriticalSections other = some pointer := by
    intro other pointer found
    rw [sections_make] at found
    split at found
    next same =>
      cases found
      exact .inl ⟨same, rfl⟩
    next apart => exact .inr ⟨apart, found⟩
  constructor
  · intro other
    rw [phase_go]
    split
    next same =>
      rw [same]
      exact iff_of_true rfl held
    next apart => exact mapped.guarded other
  · intro other pointer found
    obtain ⟨-, rfl⟩ | ⟨-, found⟩ := cases_of_found found
    · exact Nat.lt_succ_self _
    · exact Nat.lt_succ_of_lt (mapped.made found)
  · intro first second pointer firstFound secondFound
    obtain ⟨firstSame, firstNew⟩ | ⟨-, firstFound⟩ := cases_of_found firstFound
    · obtain ⟨secondSame, -⟩ | ⟨-, secondFound⟩ := cases_of_found secondFound
      · rw [firstSame, secondSame]
      · exact absurd firstNew (Nat.ne_of_lt (mapped.made secondFound))
    · obtain ⟨-, secondNew⟩ | ⟨-, secondFound⟩ := cases_of_found secondFound
      · exact absurd secondNew (Nat.ne_of_lt (mapped.made firstFound))
      · exact mapped.injective firstFound secondFound
  · intro other otherCall otherAddress creating
    rw [phase_go] at creating
    split at creating
    next => cases creating
    next apart =>
      have otherHeld : state.gCriticalSectionsMutex = some other := by
        apply mapped.holds
        rw [show state.phase other = _ from creating]
        rfl
      rw [held] at otherHeld
      exact absurd (Option.some.inj otherHeld).symm apart
  · intro other otherAddress pointer address copy
    rw [phase_go] at address copy
    split at address
    next same =>
      rw [if_pos same] at copy
      cases address
      cases copy
      exact Function.update_self ..
    next apart =>
      rw [if_neg apart] at copy
      have found := mapped.copied address copy
      have other : otherAddress ≠ guestAddress := by
        rintro rfl
        rw [absent] at found
        cases found
      exact (Function.update_of_ne other ..).trans found

/-- Every step keeps the map. -/
theorem Mapped.step (mapped : Mapped state) (does : Does state action next) : Mapped next := by
  cases does with
  | call phase => exact mapped.go_outside (by rw [phase]; rfl) rfl rfl
  | @guard thread _ _ phase free =>
      apply mapped.go
      · exact iff_of_true rfl rfl
      · intro other apart
        rw [free]
        exact iff_of_false (fun same => apart (Option.some.inj same).symm) nofun
      · exact nofun
      · exact nofun
  | @miss thread _ _ phase missing =>
      apply @Mapped.go _ _ _ mapped _ _ state.gCriticalSectionsMutex
      · exact iff_of_true rfl (mapped.holds (by rw [phase]; rfl))
      · exact fun _ _ => Iff.rfl
      · rintro _ _ ⟨⟩
        exact missing
      · exact nofun
  | @find thread _ _ _ phase found =>
      apply @Mapped.go _ _ _ mapped _ _ state.gCriticalSectionsMutex
      · exact iff_of_true rfl (mapped.holds (by rw [phase]; rfl))
      · exact fun _ _ => Iff.rfl
      · exact nofun
      · rintro _ _ ⟨⟩ ⟨⟩
        exact found
  | make phase => exact mapped.make phase
  | @release thread call guestAddress pointer phase =>
      have held : state.gCriticalSectionsMutex = some thread := mapped.holds (by rw [phase]; rfl)
      apply mapped.go
      · exact iff_of_false Bool.false_ne_true nofun
      · intro other apart
        rw [held]
        exact iff_of_false nofun fun same => apart (Option.some.inj same).symm
      · exact nofun
      · rintro _ _ ⟨⟩ ⟨⟩
        exact @Mapped.copied _ _ mapped thread _ _ (by rw [phase]; rfl) (by rw [phase]; rfl)
  | rest phase => exact mapped.go_outside (by rw [phase]; rfl) rfl rfl
  | enter phase | leave phase =>
      exact (mapped.change _ _ _).go_outside (by rw [CriticalSections.change, phase]; rfl) rfl rfl

/-! ## The mutexes -/

/-- How often a thread is inside a mutex is how often it has entered and not left the critical
section, and only owners are on their way to leave. -/
structure Counted (state : CriticalSections τ) : Prop where
  depth : ∀ {guestAddress pointer}, state.gCriticalSections guestAddress = some pointer →
    ∀ thread, (state.mutexes pointer).depth thread + state.exits thread guestAddress =
      state.entries thread guestAddress
  unused : ∀ {guestAddress}, state.gCriticalSections guestAddress = none →
    ∀ thread, state.exits thread guestAddress = state.entries thread guestAddress
  leaving : ∀ {thread guestAddress}, (state.phase thread).call = some .rtlLeaveCriticalSection →
    (state.phase thread).address = some guestAddress → state.Inside thread guestAddress

theorem counted_initial : Counted (initial : CriticalSections τ) where
  depth found := by cases found
  unused _ _ := rfl
  leaving call := by cases call

/-- A thread goes on; if it is to leave, it is inside. -/
theorem Counted.go (counted : Counted state) {thread : τ} {phase : Phase} {guard : Option τ}
    (leaving : ∀ guestAddress, phase.call = some .rtlLeaveCriticalSection →
      phase.address = some guestAddress → state.Inside thread guestAddress) :
    Counted ({ state with gCriticalSectionsMutex := guard }.go thread phase) where
  depth := counted.depth
  unused := counted.unused
  leaving {other guestAddress} call address := by
    rw [phase_go] at call address
    split at call
    next same =>
      rw [if_pos same] at address
      rw [same]
      exact leaving guestAddress call address
    next apart =>
      rw [if_neg apart] at address
      exact counted.leaving call address

/-- A thread goes on in the same call. -/
theorem Counted.go_on (counted : Counted state) {thread : τ} {phase : Phase} {guard : Option τ}
    (call : phase.call = (state.phase thread).call)
    (address : phase.address = (state.phase thread).address) :
    Counted ({ state with gCriticalSectionsMutex := guard }.go thread phase) := by
  apply counted.go
  intro guestAddress leave found
  exact counted.leaving (call.symm.trans leave) (address.symm.trans found)

theorem entries_change (state : CriticalSections τ) (pointer : Nat) (mutex : RecursiveMutex τ)
    (event : Event τ) (thread : τ) (guestAddress : BitVec 32) :
    (state.change pointer mutex event).entries thread guestAddress =
      state.entries thread guestAddress + if event = .entered thread guestAddress then 1 else 0 := by
  simp [entries, CriticalSections.change, List.count_cons]

theorem exits_change (state : CriticalSections τ) (pointer : Nat) (mutex : RecursiveMutex τ)
    (event : Event τ) (thread : τ) (guestAddress : BitVec 32) :
    (state.change pointer mutex event).exits thread guestAddress =
      state.exits thread guestAddress + if event = .left thread guestAddress then 1 else 0 := by
  simp [exits, CriticalSections.change, List.count_cons]

/-- The critical section and the thread of an event. -/
def Event.thread : Event τ → τ
  | .entered thread _ | .left thread _ => thread

def Event.guestAddress : Event τ → BitVec 32
  | .entered _ guestAddress | .left _ guestAddress => guestAddress

/-- An event of another thread or address is not counted. -/
theorem counts_change (state : CriticalSections τ) (pointer : Nat) (mutex : RecursiveMutex τ)
    {event : Event τ} {thread : τ} {guestAddress : BitVec 32}
    (apart : event.thread ≠ thread ∨ event.guestAddress ≠ guestAddress) :
    (state.change pointer mutex event).entries thread guestAddress =
        state.entries thread guestAddress ∧
      (state.change pointer mutex event).exits thread guestAddress =
        state.exits thread guestAddress := by
  constructor
  · rw [entries_change, if_neg, Nat.add_zero]
    rintro rfl
    exact apart.elim (fun apart => apart rfl) fun apart => apart rfl
  · rw [exits_change, if_neg, Nat.add_zero]
    rintro rfl
    exact apart.elim (fun apart => apart rfl) fun apart => apart rfl

/-- A thread enters or leaves, and its call is over. -/
theorem Counted.change (counted : Counted state) (mapped : Mapped state) {thread : τ}
    {guestAddress : BitVec 32} {pointer : Nat} {mutex : RecursiveMutex τ} {event : Event τ}
    (found : state.gCriticalSections guestAddress = some pointer)
    (subject : event.thread = thread ∧ event.guestAddress = guestAddress)
    (depth : ∀ other, mutex.depth other +
        (state.change pointer mutex event).exits other guestAddress =
      (state.change pointer mutex event).entries other guestAddress) (r3 : BitVec 64) :
    Counted ((state.change pointer mutex event).go thread (.guest r3)) where
  depth {other otherPointer} otherFound otherThread := by
    by_cases same : other = guestAddress
    · subst same
      have pointers : otherPointer = pointer := Option.some.inj (otherFound.symm.trans found)
      have changed : ((state.change pointer mutex event).go thread (.guest r3)).mutexes pointer =
          mutex := Function.update_self (β := fun _ => RecursiveMutex τ) ..
      rw [pointers, changed]
      exact depth otherThread
    · have apart : otherPointer ≠ pointer := by
        rintro rfl
        exact same (mapped.injective otherFound found)
      obtain ⟨entries, exits⟩ := counts_change state pointer mutex
        (.inr (by rw [subject.2]; exact Ne.symm same) : event.thread ≠ otherThread ∨ _)
      have kept : ((state.change pointer mutex event).go thread (.guest r3)).mutexes otherPointer =
          state.mutexes otherPointer := Function.update_of_ne apart ..
      rw [kept]
      exact (congrArg _ exits).trans ((counted.depth otherFound otherThread).trans entries.symm)
  unused {other} otherMissing otherThread := by
    have apart : event.guestAddress ≠ other := by
      rw [subject.2]
      rintro rfl
      cases found.symm.trans otherMissing
    obtain ⟨entries, exits⟩ := counts_change state pointer mutex
      (.inr apart : event.thread ≠ otherThread ∨ _)
    exact exits.trans ((counted.unused otherMissing otherThread).trans entries.symm)
  leaving {other otherAddress} call address := by
    rw [phase_go] at call address
    split at call
    next => cases call
    next apart =>
      rw [if_neg apart] at address
      obtain ⟨entries, exits⟩ := counts_change state pointer mutex
        (.inl (by rw [subject.1]; exact Ne.symm apart) : _ ∨ event.guestAddress ≠ otherAddress)
      calc (state.change pointer mutex event).exits other otherAddress
          = state.exits other otherAddress := exits
        _ < state.entries other otherAddress := counted.leaving call address
        _ = (state.change pointer mutex event).entries other otherAddress := entries.symm

theorem Counted.make (counted : Counted state) (mapped : Mapped state) {guestAddress : BitVec 32}
    (missing : state.gCriticalSections guestAddress = none) :
    Counted (state.make guestAddress) where
  depth {other pointer} found thread := by
    rw [sections_make] at found
    split at found
    next same =>
      cases found
      rw [same, show (state.make guestAddress).mutexes state.made = .free from
        Function.update_self .., RecursiveMutex.depth, Nat.zero_add]
      exact counted.unused missing thread
    next apart =>
      have older : pointer ≠ state.made := Nat.ne_of_lt (mapped.made found)
      rw [show (state.make guestAddress).mutexes pointer = state.mutexes pointer from
        Function.update_of_ne older ..]
      exact counted.depth found thread
  unused {other} absent thread := by
    rw [sections_make] at absent
    split at absent
    next => cases absent
    next => exact counted.unused absent thread
  leaving := counted.leaving

/-- Every step keeps the counts, if only owners leave. -/
theorem Counted.step (counted : Counted state) (mapped : Mapped state) (issued : state.Issued action)
    (does : Does state action next) : Counted next := by
  cases does with
  | @call thread call r3 last phase =>
      apply @Counted.go _ _ _ counted _ _ state.gCriticalSectionsMutex
      rintro guestAddress ⟨⟩ ⟨⟩
      exact issued
  | guard phase | release phase =>
      apply counted.go_on
      · rw [phase]
        rfl
      · rw [phase]
        rfl
  | miss phase | find phase =>
      apply @Counted.go_on _ _ _ counted _ _ state.gCriticalSectionsMutex
      · rw [phase]
        rfl
      · rw [phase]
        rfl
  | make phase =>
      apply @Counted.go_on _ _ _ (counted.make mapped (mapped.missing phase)) _ _
        state.gCriticalSectionsMutex
      · rw [CriticalSections.make, phase]
        rfl
      · rw [CriticalSections.make, phase]
        rfl
  | rest phase =>
      apply @Counted.go _ _ _ counted _ _ state.gCriticalSectionsMutex
      exact nofun
  | @enter thread call guestAddress pointer mutex r3 phase enters entered =>
      have found := mapped.found phase
      apply counted.change mapped found ⟨rfl, rfl⟩
      intro other
      have before := counted.depth found other
      rw [RecursiveMutex.depth_lock entered, entries_change, exits_change]
      simp only [Event.entered.injEq, reduceCtorEq, and_true, if_false, @eq_comm _ thread]
      omega
  | @leave thread guestAddress pointer mutex phase left =>
      have found := mapped.found phase
      apply counted.change mapped found ⟨rfl, rfl⟩
      intro other
      have before := counted.depth found other
      rw [← RecursiveMutex.depth_unlock left] at before
      rw [entries_change, exits_change]
      simp only [Event.left.injEq, reduceCtorEq, and_true, if_false, @eq_comm _ thread]
      omega

/-! ## Exclusion -/

/-- A thread is inside a critical section when it is inside the mutex. -/
theorem Counted.inside_iff (counted : Counted state) {guestAddress : BitVec 32} {pointer : Nat}
    (found : state.gCriticalSections guestAddress = some pointer) (thread : τ) :
    state.Inside thread guestAddress ↔ 0 < (state.mutexes pointer).depth thread := by
  have depth := counted.depth found thread
  rw [Inside]
  omega

/-- Nobody is inside a critical section that was never used. -/
theorem Counted.exists_of_inside (counted : Counted state) {thread : τ} {guestAddress : BitVec 32}
    (inside : state.Inside thread guestAddress) :
    ∃ pointer, state.gCriticalSections guestAddress = some pointer := by
  cases found : state.gCriticalSections guestAddress with
  | none => exact absurd (counted.unused found thread) (Nat.ne_of_lt inside)
  | some pointer => exact ⟨pointer, rfl⟩

/-- At most one thread is inside a critical section. -/
theorem Counted.exclusive (counted : Counted state) {thread other : τ} {guestAddress : BitVec 32}
    (inside : state.Inside thread guestAddress) (otherInside : state.Inside other guestAddress) :
    thread = other := by
  obtain ⟨pointer, found⟩ := counted.exists_of_inside inside
  exact RecursiveMutex.eq_of_depth_pos ((counted.inside_iff found thread).mp inside)
    ((counted.inside_iff found other).mp otherInside)

/-- The mutex of a critical section is free when every thread has left as often as entered. -/
theorem Counted.free_iff (counted : Counted state) {guestAddress : BitVec 32}
    {mutex : RecursiveMutex τ} (found : state.lockOf guestAddress = some mutex) :
    mutex = .free ↔
      ∀ thread, state.exits thread guestAddress = state.entries thread guestAddress := by
  obtain ⟨pointer, stored, rfl⟩ := Option.map_eq_some_iff.mp found
  rw [RecursiveMutex.eq_free_iff]
  apply forall_congr'
  intro thread
  have depth := counted.depth stored thread
  omega

/-- The mutex lets in a thread that is alone. -/
theorem Counted.lock_isSome_iff (counted : Counted state) {guestAddress : BitVec 32}
    {pointer : Nat} (found : state.gCriticalSections guestAddress = some pointer) (thread : τ) :
    ((state.mutexes pointer).lock thread).isSome ↔
      ∀ other, state.Inside other guestAddress → other = thread := by
  rw [RecursiveMutex.lock_isSome_iff]
  apply forall_congr'
  intro other
  rw [counted.inside_iff found]

/-- No step takes the mutex of an address away. -/
theorem Mapped.keeps (mapped : Mapped state) (does : Does state action next)
    {guestAddress : BitVec 32} {pointer : Nat}
    (found : state.gCriticalSections guestAddress = some pointer) :
    next.gCriticalSections guestAddress = some pointer := by
  cases does with
  | @make thread call other phase =>
      have apart : guestAddress ≠ other := by
        rintro rfl
        cases found.symm.trans (mapped.missing phase)
      exact ((sections_make state other guestAddress).trans (if_neg apart)).trans found
  | _ => exact found

/-- What a step leaves of the critical sections that it is not about. -/
theorem Mapped.frame (mapped : Mapped state) (does : Does state action next)
    {guestAddress : BitVec 32} (other : state.concerns action ≠ some guestAddress) :
    next.lockOf guestAddress = state.lockOf guestAddress ∧ ∀ thread,
      next.entries thread guestAddress = state.entries thread guestAddress ∧
      next.exits thread guestAddress = state.exits thread guestAddress := by
  -- A mutex is replaced that is not the one of the address.
  have replaced : ∀ {pointer} (mutex : RecursiveMutex τ),
      state.gCriticalSections guestAddress ≠ some pointer →
      (state.gCriticalSections guestAddress).map (Function.update state.mutexes pointer mutex) =
        state.lockOf guestAddress := by
    intro pointer mutex apart
    rw [lockOf]
    cases found : state.gCriticalSections guestAddress with
    | none => rfl
    | some own =>
        rw [found] at apart
        exact congrArg some (Function.update_of_ne (fun same => apart (congrArg some same)) ..)
  have changed : ∀ {thread call address pointer} (mutex : RecursiveMutex τ) (event : Event τ)
      (r3 : BitVec 64), state.concerns action = some address →
      event.guestAddress = address → state.phase thread = .operating call address pointer →
      ((state.change pointer mutex event).go thread (.guest r3)).lockOf guestAddress =
          state.lockOf guestAddress ∧
        ∀ thread, (state.change pointer mutex event).entries thread guestAddress =
            state.entries thread guestAddress ∧
          (state.change pointer mutex event).exits thread guestAddress =
            state.exits thread guestAddress := by
    intro thread call address pointer mutex event r3 concerns subject phase
    have apart : address ≠ guestAddress := by
      rintro rfl
      exact other concerns
    have own := mapped.found phase
    constructor
    · exact replaced mutex fun found => apart (mapped.injective own found)
    · exact fun thread => counts_change state pointer mutex (.inr (by rwa [subject]))
  cases does with
  | @make thread call address phase =>
      have apart : guestAddress ≠ address := by
        rintro rfl
        exact other (by rw [concerns, phase]; rfl)
      refine ⟨?_, fun _ => ⟨rfl, rfl⟩⟩
      calc ((state.make address).gCriticalSections guestAddress).map (state.make address).mutexes
          = (state.gCriticalSections guestAddress).map (state.make address).mutexes := by
            rw [sections_make, if_neg apart]
        _ = state.lockOf guestAddress :=
            replaced .free fun found => absurd (mapped.made found) (Nat.lt_irrefl _)
  | enter phase => exact changed _ _ _ (by rw [concerns, phase]; rfl) rfl phase
  | leave phase => exact changed _ _ _ (by rw [concerns, phase]; rfl) rfl phase
  | _ => exact ⟨rfl, fun _ => ⟨rfl, rfl⟩⟩

/-- A thread that holds the mutex of the map does not wait. -/
theorem advances_of_guarded {thread : τ} (guarded : (state.phase thread).guarded = true) :
    (state.step (.advance thread)).isSome := by
  rw [step]
  cases phase : state.phase thread with
  | guest | entering | operating =>
      rw [phase] at guarded
      cases guarded
  | searching call guestAddress =>
      dsimp only
      split
      · rfl
      · rfl
  | creating | returning => rfl

/-- A thread has entered a critical section: the entry is recorded, and the thread holds the mutex
once more. -/
structure Entered (state next : CriticalSections τ) (thread : τ) (guestAddress : BitVec 32) :
    Prop where
  history : next.history = .entered thread guestAddress :: state.history
  mutex : ∃ before after, state.lockOf guestAddress = some before ∧
    next.lockOf guestAddress = some after ∧
    ∀ other, after.depth other = before.depth other + if other = thread then 1 else 0

/-- A thread has left a critical section: the exit is recorded, and the thread holds the mutex once
less. -/
structure Left (state next : CriticalSections τ) (thread : τ) (guestAddress : BitVec 32) :
    Prop where
  history : next.history = .left thread guestAddress :: state.history
  mutex : ∃ before after, state.lockOf guestAddress = some before ∧
    next.lockOf guestAddress = some after ∧
    ∀ other, after.depth other + (if other = thread then 1 else 0) = before.depth other

/-- A critical section is as it was. -/
structure Unchanged (state next : CriticalSections τ) (guestAddress : BitVec 32) : Prop where
  history : next.history = state.history
  mutex : next.lockOf guestAddress = state.lockOf guestAddress

/-- What a call has done when it is over, by its result. -/
def Completed (state next : CriticalSections τ) (thread : τ) (guestAddress : BitVec 32) :
    Call → Prop
  | .rtlInitializeCriticalSection | .rtlInitializeCriticalSectionAndSpinCount =>
    next.phase thread = .guest 0 ∧ Unchanged state next guestAddress
  | .rtlEnterCriticalSection =>
    next.phase thread = .guest 0 ∧ Entered state next thread guestAddress
  | .rtlTryEnterCriticalSection =>
    next.phase thread = .guest 1 ∧ Entered state next thread guestAddress ∨
      next.phase thread = .guest 0 ∧ Unchanged state next guestAddress
  | .rtlLeaveCriticalSection => next.phase thread = .guest 0 ∧ Left state next thread guestAddress

/-- What critical sections are for. -/
structure Excludes (state : CriticalSections τ) : Prop where
  /-- An address has one mutex for the whole run, no other address has it, and every thread uses
  that of its address. -/
  same : ∀ {later}, Reach step Issued state later → ∀ {guestAddress pointer},
    state.gCriticalSections guestAddress = some pointer →
      later.gCriticalSections guestAddress = some pointer
  apart : ∀ {first second pointer}, state.gCriticalSections first = some pointer →
    state.gCriticalSections second = some pointer → first = second
  used : ∀ {thread guestAddress pointer}, (state.phase thread).address = some guestAddress →
    (state.phase thread).pointer = some pointer →
      state.gCriticalSections guestAddress = some pointer
  exclusive : ∀ {thread other guestAddress}, state.Inside thread guestAddress →
    state.Inside other guestAddress → thread = other
  free : ∀ {guestAddress mutex}, state.lockOf guestAddress = some mutex →
    (mutex = .free ↔
      ∀ thread, state.exits thread guestAddress = state.entries thread guestAddress)
  /-- How often a thread holds the mutex is how often it has entered and not left. -/
  held : ∀ {guestAddress mutex}, state.lockOf guestAddress = some mutex → ∀ thread,
    mutex.depth thread + state.exits thread guestAddress = state.entries thread guestAddress
  completed : ∀ {thread call guestAddress pointer next},
    state.phase thread = .operating call guestAddress pointer →
      state.step (.advance thread) = some next →
        Completed state next thread guestAddress call
  /-- Who enters waits for another thread that is inside. -/
  enter : ∀ {thread guestAddress pointer},
    state.phase thread = .operating .rtlEnterCriticalSection guestAddress pointer →
      ((state.step (.advance thread)).isSome ↔
        ∀ other, state.Inside other guestAddress → other = thread)
  tryEnter : ∀ {thread guestAddress pointer},
    state.phase thread = .operating .rtlTryEnterCriticalSection guestAddress pointer →
      ∃ next, state.step (.advance thread) = some next ∧
        (next.phase thread = .guest 1 ∨ next.phase thread = .guest 0) ∧
        (next.phase thread = .guest 1 ↔
          ∀ other, state.Inside other guestAddress → other = thread)
  /-- Leaving has a meaning, and the last exit of the owner frees the mutex. -/
  leave : ∀ {thread guestAddress pointer},
    state.phase thread = .operating .rtlLeaveCriticalSection guestAddress pointer →
      ∃ next, state.step (.advance thread) = some next ∧
        (next.lockOf guestAddress = some .free ↔
          next.exits thread guestAddress = next.entries thread guestAddress)
  /-- A mutex that exists is not made anew. -/
  initialized : ∀ {thread call next}, (state.phase thread).call = some call →
    call.initializes = true → state.step (.advance thread) = some next →
      ∀ {guestAddress mutex}, state.lockOf guestAddress = some mutex →
        next.lockOf guestAddress = some mutex
  frame : ∀ {action next guestAddress}, state.step action = some next →
    state.concerns action ≠ some guestAddress →
      next.lockOf guestAddress = state.lockOf guestAddress ∧ ∀ thread,
        next.entries thread guestAddress = state.entries thread guestAddress ∧
        next.exits thread guestAddress = state.exits thread guestAddress
  /-- The mutex of the map is not held while a thread waits for a critical section. -/
  unblocked : ∀ {holder}, state.gCriticalSectionsMutex = some holder →
    (state.step (.advance holder)).isSome

/-- Taking a thread on behind `GetCriticalSection`. -/
theorem step_operating {thread : τ} {call : Call} {guestAddress : BitVec 32} {pointer : Nat}
    (phase : state.phase thread = .operating call guestAddress pointer) :
    state.step (.advance thread) = state.operate thread guestAddress pointer call := by
  rw [step, phase]

/-- A mutex that is replaced is that of the address. -/
theorem lockOf_change {thread : τ} {guestAddress : BitVec 32} {pointer : Nat}
    {mutex : RecursiveMutex τ} {event : Event τ} {phase : Phase}
    (found : state.gCriticalSections guestAddress = some pointer) :
    ((state.change pointer mutex event).go thread phase).lockOf guestAddress = some mutex :=
  (congrArg (Option.map _) found).trans (congrArg some (Function.update_self ..))

/-- Every call that comes to its end has done what it is for. -/
theorem Mapped.completed (mapped : Mapped state) {thread : τ} {call : Call}
    {guestAddress : BitVec 32} {pointer : Nat}
    (phase : state.phase thread = .operating call guestAddress pointer)
    (taken : state.step (.advance thread) = some next) :
    Completed state next thread guestAddress call := by
  have found := mapped.found phase
  have own : state.lockOf guestAddress = some (state.mutexes pointer) :=
    congrArg (Option.map _) found
  have entered : ∀ {mutex r3}, (state.mutexes pointer).lock thread = some mutex →
      Entered state ((state.change pointer mutex (.entered thread guestAddress)).go thread
        (.guest r3)) thread guestAddress := fun locked =>
    ⟨rfl, _, _, own, lockOf_change found, RecursiveMutex.depth_lock locked⟩
  rw [step_operating phase] at taken
  cases call with
  | rtlInitializeCriticalSection | rtlInitializeCriticalSectionAndSpinCount =>
      cases taken
      exact ⟨by rw [phase_go, if_pos rfl], rfl, rfl⟩
  | rtlEnterCriticalSection =>
      obtain ⟨mutex, locked, rfl⟩ := Option.map_eq_some_iff.mp taken
      exact ⟨by rw [phase_go, if_pos rfl], entered locked⟩
  | rtlTryEnterCriticalSection =>
      rw [operate, RecursiveMutex.tryLock] at taken
      cases attempt : (state.mutexes pointer).lock thread with
      | none =>
          rw [attempt] at taken
          cases taken
          exact .inr ⟨by rw [phase_go, if_pos rfl], rfl, rfl⟩
      | some mutex =>
          rw [attempt] at taken
          cases taken
          exact .inl ⟨by rw [phase_go, if_pos rfl], entered attempt⟩
  | rtlLeaveCriticalSection =>
      obtain ⟨mutex, left, rfl⟩ := Option.map_eq_some_iff.mp taken
      exact ⟨by rw [phase_go, if_pos rfl], rfl, _, _, own, lockOf_change found,
        RecursiveMutex.depth_unlock left⟩

/-- An attempt to enter does not wait, and succeeds for a thread that is alone. -/
theorem Counted.tryEnter (counted : Counted state) (mapped : Mapped state) {thread : τ}
    {guestAddress : BitVec 32} {pointer : Nat}
    (phase : state.phase thread = .operating .rtlTryEnterCriticalSection guestAddress pointer) :
    ∃ next, state.step (.advance thread) = some next ∧
      (next.phase thread = .guest 1 ∨ next.phase thread = .guest 0) ∧
      (next.phase thread = .guest 1 ↔
        ∀ other, state.Inside other guestAddress → other = thread) := by
  have found := mapped.found phase
  rw [← counted.lock_isSome_iff found, step_operating phase, operate, RecursiveMutex.tryLock]
  cases (state.mutexes pointer).lock thread with
  | none =>
      refine ⟨_, rfl, ?_⟩
      rw [phase_go, if_pos rfl]
      exact ⟨.inr rfl, iff_of_false (by decide) nofun⟩
  | some mutex =>
      refine ⟨_, rfl, ?_⟩
      rw [phase_go, if_pos rfl]
      exact ⟨.inl rfl, iff_of_true rfl rfl⟩

/-- Leaving has a meaning for a thread that was inside when it called. -/
theorem Counted.leave (counted : Counted state) (mapped : Mapped state) {thread : τ}
    {guestAddress : BitVec 32} {pointer : Nat}
    (phase : state.phase thread = .operating .rtlLeaveCriticalSection guestAddress pointer) :
    ∃ next, state.step (.advance thread) = some next ∧
      (next.lockOf guestAddress = some .free ↔
        next.exits thread guestAddress = next.entries thread guestAddress) := by
  have found := mapped.found phase
  have inside : state.Inside thread guestAddress :=
    counted.leaving (by rw [phase]; rfl) (by rw [phase]; rfl)
  obtain ⟨mutex, left⟩ := Option.isSome_iff_exists.mp
    (RecursiveMutex.unlock_isSome ((counted.inside_iff found thread).mp inside))
  refine ⟨_, by rw [step_operating phase, operate, left]; rfl, ?_⟩
  have after := counted.step mapped (show Issued state (.advance thread) from trivial)
    (.leave phase left)
  have stored : ((state.change pointer mutex (.left thread guestAddress)).go thread
      (.guest 0)).lockOf guestAddress = some mutex := lockOf_change found
  rw [stored, Option.some.injEq, after.free_iff stored]
  constructor
  · exact fun all => all thread
  · intro own other
    by_cases same : other = thread
    · rw [same]
      exact own
    · -- Another thread was outside, and its counts are as they were.
      have apart : (Event.left thread guestAddress).thread ≠ other := Ne.symm same
      obtain ⟨entries, exits⟩ := @counts_change _ _ state pointer mutex _ _ guestAddress (.inl apart)
      have outside : ¬state.Inside other guestAddress :=
        fun otherInside => same (counted.exclusive otherInside inside)
      have depth := counted.depth found other
      have zero : (state.mutexes pointer).depth other = 0 := by
        rw [counted.inside_iff found] at outside
        exact Nat.eq_zero_of_not_pos outside
      exact exits.trans (Eq.trans (by omega) entries.symm)

/-- An initialization leaves the mutexes that exist. -/
theorem Mapped.initialized (mapped : Mapped state) (does : Does state action next) {thread : τ}
    {call : Call} (same : action = .advance thread) (calling : (state.phase thread).call = some call)
    (initializes : call.initializes = true) {guestAddress : BitVec 32} {mutex : RecursiveMutex τ}
    (found : state.lockOf guestAddress = some mutex) : next.lockOf guestAddress = some mutex := by
  obtain ⟨pointer, stored, rfl⟩ := Option.map_eq_some_iff.mp found
  have kept := mapped.keeps does stored
  cases does with
  | make phase =>
      have older : pointer ≠ state.made := Nat.ne_of_lt (mapped.made stored)
      exact (congrArg (Option.map _) kept).trans (congrArg some (Function.update_of_ne older ..))
  | enter phase enters =>
      cases same
      rw [phase] at calling
      cases calling
      obtain ⟨rfl, -⟩ | ⟨rfl, -⟩ := enters
      · cases initializes
      · cases initializes
  | leave phase =>
      cases same
      rw [phase] at calling
      cases calling
      cases initializes
  | _ => exact found

/-- What all steps keep. -/
theorem kept_of_reach {first : CriticalSections τ} (reach : Reach step Issued first state)
    (start : Mapped first ∧ Counted first) : Mapped state ∧ Counted state := by
  apply @Reach.invariant _ _ _ _ _ _ (fun state => Mapped state ∧ Counted state) reach start
  rintro state action next ⟨mapped, counted⟩ issued taken
  have does := does_of_step taken
  exact ⟨mapped.step does, counted.step mapped issued does⟩

/-- The mutex of an address stays the same one in every run. -/
theorem found_of_reach {first : CriticalSections τ} (reach : Reach step Issued first state)
    (mapped : Mapped first) {guestAddress : BitVec 32} {pointer : Nat}
    (found : first.gCriticalSections guestAddress = some pointer) :
    state.gCriticalSections guestAddress = some pointer := by
  have kept : Mapped state ∧ state.gCriticalSections guestAddress = some pointer := by
    apply @Reach.invariant _ _ _ _ _ _
      (fun state => Mapped state ∧ state.gCriticalSections guestAddress = some pointer) reach
      ⟨mapped, found⟩
    rintro state action next ⟨mapped, found⟩ - taken
    have does := does_of_step taken
    exact ⟨mapped.step does, mapped.keeps does found⟩
  exact kept.2

/-- In every state of every run in which only owners leave, critical sections exclude. -/
theorem excludes (reach : Reach step Issued initial state) : Excludes state := by
  obtain ⟨mapped, counted⟩ := kept_of_reach reach ⟨mapped_initial, counted_initial⟩
  constructor
  · intro later further guestAddress pointer found
    exact found_of_reach further mapped found
  · exact mapped.injective
  · exact mapped.copied
  · exact counted.exclusive
  · exact counted.free_iff
  · intro guestAddress mutex found thread
    obtain ⟨pointer, stored, rfl⟩ := Option.map_eq_some_iff.mp found
    exact counted.depth stored thread
  · intro thread call guestAddress pointer next phase taken
    exact mapped.completed phase taken
  · intro thread guestAddress pointer phase
    rw [step_operating phase, operate, Option.isSome_map]
    exact counted.lock_isSome_iff (mapped.found phase) thread
  · exact counted.tryEnter mapped
  · exact counted.leave mapped
  · intro thread call next calling initializes taken guestAddress mutex found
    exact mapped.initialized (does_of_step taken) rfl calling initializes found
  · intro action next guestAddress taken other
    exact mapped.frame (does_of_step taken) other
  · intro holder held
    exact advances_of_guarded ((mapped.guarded holder).mpr held)

instance (state : CriticalSections τ) : (action : Action τ) → Decidable (state.Issued action)
  | .call _ .rtlLeaveCriticalSection _ => inferInstanceAs (Decidable (_ < _))
  | .call _ .rtlInitializeCriticalSection _
  | .call _ .rtlInitializeCriticalSectionAndSpinCount _
  | .call _ .rtlEnterCriticalSection _
  | .call _ .rtlTryEnterCriticalSection _
  | .advance _ => inferInstanceAs (Decidable True)

/-- One thread is inside, and the other one is refused. -/
theorem excludes_refused : ∃ state : CriticalSections Bool,
    state.phase false = .guest 0 ∧ state.Inside true 0x82000000 ∧ Excludes state := by
  have run : (takeAll step Issued
      [.call true .rtlEnterCriticalSection 0x82000000, .advance true, .advance true, .advance true,
        .advance true, .advance true, .call false .rtlTryEnterCriticalSection 0x82000000,
        .advance false, .advance false, .advance false, .advance false]
      initial).map (fun state : CriticalSections Bool => (state.phase false, state.history)) =
      some (.guest 0, [.entered true 0x82000000]) := by decide
  obtain ⟨state, taken, same⟩ := Option.map_eq_some_iff.mp run
  simp only [Prod.mk.injEq] at same
  refine ⟨state, same.1, ?_, excludes (reach_of_takeAll taken)⟩
  rw [Inside, exits, entries, same.2]
  decide

end CriticalSections

end UfcRecomp.Native
