import UfcRecomp.Lib.Bits
import UfcRecomp.Native.Allocation

/-!
# Requests of memory

What one call of `ExAllocatePoolTypeWithTag` or `NtAllocateVirtualMemory` does from its start to its
return, with no call of another thread in between: what it commits when it succeeds, and what it
leaves behind when it does not.
-/

namespace UfcRecomp.Native

open UfcRecomp.Lib

inductive Request where
  | exAllocatePoolTypeWithTag (r4 : BitVec 32)
  | ntAllocateVirtualMemory (requestedAddress requestedSize : BitVec 32)
  deriving DecidableEq

namespace Request

def action {τ : Type} (thread : τ) : Request → Action τ
  | exAllocatePoolTypeWithTag r4 => .exAllocatePoolTypeWithTag thread r4
  | ntAllocateVirtualMemory requestedAddress requestedSize =>
    .ntAllocateVirtualMemory thread requestedAddress requestedSize

/-- What a call returns that fails. -/
def failure : Request → BitVec 64
  | exAllocatePoolTypeWithTag _ => 0
  | ntAllocateVirtualMemory _ _ => kStatusNoMemory

/-- Whether a call that returns `r3` has succeeded. -/
def Succeeds (r3 : BitVec 64) : Request → Prop
  | exAllocatePoolTypeWithTag _ => r3 ≠ 0
  | ntAllocateVirtualMemory _ _ => r3 = 0

/-- What a request adds to the next address of the pool. -/
def poolAdvance : Request → BitVec 32
  | exAllocatePoolTypeWithTag r4 => poolSize r4
  | ntAllocateVirtualMemory _ _ => 0

/-- What a request adds to the next address of the virtual memory. -/
def virtualAdvance : Request → BitVec 32
  | exAllocatePoolTypeWithTag _ => 0
  | ntAllocateVirtualMemory requestedAddress requestedSize =>
    if requestedSize ≠ 0 ∧ requestedAddress = 0 then virtualSize requestedAddress requestedSize
    else 0

/-- The size and the offset in the first page are not more than the addresses that there are. -/
def Fits : Request → Prop
  | exAllocatePoolTypeWithTag _ => True
  | ntAllocateVirtualMemory requestedAddress requestedSize =>
    requestedSize.toNat + requestedAddress.toNat % kPageSize ≤ 2 ^ 32

end Request

/-- Which ranges the host commits: none that is empty or not within the reservation. -/
structure Host where
  commits : Region → Bool
  nonempty : ∀ region, commits region = true → 0 < region.size
  reserved : ∀ region, commits region = true → region.start + region.size ≤ 2 ^ 32

/-- A host that commits what it can. -/
def Host.generous : Host where
  commits region := 0 < region.size && region.start + region.size ≤ 2 ^ 32
  nonempty region committed := by
    simp only [Bool.and_eq_true, decide_eq_true_eq] at committed
    exact committed.1
  reserved region committed := by
    simp only [Bool.and_eq_true, decide_eq_true_eq] at committed
    exact committed.2

/-! ## Whole calls -/

namespace Allocators

variable {τ : Type} [DecidableEq τ]

/-- The call of `VirtualAlloc`, where there is one. -/
def commit (state : Allocators τ) (thread : τ) (host : Host) : Option (Allocators τ) :=
  match state.pending thread with
  | none => some state
  | some region => state.step (.virtualAlloc thread (host.commits region))

/-- The recording of an allocation of the pool. -/
def record (state : Allocators τ) (thread : τ) : Option (Allocators τ) :=
  match state.phase thread with
  | .registerPool _ _ => state.step (.finish thread)
  | _ => some state

/-- A whole call. -/
def call (state : Allocators τ) (host : Host) (thread : τ) (request : Request) :
    Option (Allocators τ) :=
  (state.step (request.action thread)).bind fun state =>
    (state.commit thread host).bind fun state => state.record thread

/-- A call that fails behind its check, or at it. -/
structure Failed (state after : Allocators τ) (thread : τ) (request : Request) : Prop where
  pool : after.gNextPoolAddress = state.gNextPoolAddress + request.poolAdvance
  dynamic : after.gNextVirtualAddress = state.gNextVirtualAddress + request.virtualAdvance
  allocations : after.gPoolAllocations = state.gPoolAllocations
  live : after.live = state.live
  phase : after.phase = Function.update state.phase thread (.guest request.failure none)

@[simp] theorem enter_phase (state : Allocators τ) (thread : τ) (phase : Phase) :
    (state.enter thread phase).phase thread = phase := Function.update_self ..

@[simp] theorem enter_enter (state : Allocators τ) (thread : τ) (first second : Phase) :
    (state.enter thread first).enter thread second = state.enter thread second := by
  simp only [enter, Function.update_idem]

/-- A call of `VirtualAlloc` for the pool, and what comes behind it. -/
theorem commit_pool {state after : Allocators τ} {host : Host} {thread : τ}
    {guestAddress committedSize : BitVec 32}
    (called : ((state.enter thread (.commitPool guestAddress committedSize)).commit thread host).bind
      (fun state => state.record thread) = some after) :
    host.commits (range guestAddress committedSize) = false ∧
        after = state.enter thread (.guest 0 none) ∨
      host.commits (range guestAddress committedSize) = true ∧
        after = { state with
          live := range guestAddress committedSize :: state.live
          gPoolAllocations := Function.update state.gPoolAllocations guestAddress
            (some committedSize) }.enter thread (.guest (guestAddress.setWidth 64) none) := by
  have pending : (state.enter thread (.commitPool guestAddress committedSize)).pending thread =
      some (range guestAddress committedSize) := by
    rw [Allocators.pending, enter_phase, Phase.pending]
  rw [commit, pending] at called
  cases committed : host.commits (range guestAddress committedSize) with
  | false =>
      simp only [committed, step, enter_phase, enter_enter, Option.bind_some, record] at called
      cases called
      exact .inl ⟨rfl, rfl⟩
  | true =>
      have nonzero : committedSize ≠ 0 := by
        rintro rfl
        exact absurd (host.nonempty _ committed) (Nat.lt_irrefl 0)
      simp only [committed, step, enter_phase, if_neg nonzero, Option.bind_some, record] at called
      cases called
      refine .inr ⟨rfl, ?_⟩
      simp only [enter, Function.update_idem]

/-- A call of `VirtualAlloc` for the virtual memory. -/
theorem commit_virtual {state after : Allocators τ} {host : Host} {thread : τ}
    {guestAddress committedSize : BitVec 32}
    (called : ((state.enter thread (.commitVirtual guestAddress committedSize)).commit thread
      host).bind (fun state => state.record thread) = some after) :
    host.commits (range guestAddress committedSize) = false ∧
        after = state.enter thread (.guest kStatusNoMemory none) ∨
      host.commits (range guestAddress committedSize) = true ∧
        after = { state with live := range guestAddress committedSize :: state.live }.enter thread
          (.guest 0 (some (guestAddress, committedSize))) := by
  have pending : (state.enter thread (.commitVirtual guestAddress committedSize)).pending thread =
      some (range guestAddress committedSize) := by
    rw [Allocators.pending, enter_phase, Phase.pending]
  rw [commit, pending] at called
  cases committed : host.commits (range guestAddress committedSize) with
  | false =>
      simp only [committed, step, enter_phase, enter_enter, Option.bind_some, record] at called
      cases called
      exact .inl ⟨rfl, rfl⟩
  | true =>
      have nonzero : committedSize ≠ 0 := by
        rintro rfl
        exact absurd (host.nonempty _ committed) (Nat.lt_irrefl 0)
      simp only [committed, step, enter_phase, if_neg nonzero, Option.bind_some, record] at called
      cases called
      refine .inr ⟨rfl, ?_⟩
      simp only [enter, Function.update_idem]

/-- A call that returns without a call of `VirtualAlloc`. -/
theorem commit_none {state after : Allocators τ} {host : Host} {thread : τ} {r3 : BitVec 64}
    {stored : Option (BitVec 32 × BitVec 32)}
    (called : ((state.enter thread (.guest r3 stored)).commit thread host).bind
      (fun state => state.record thread) = some after) :
    after = state.enter thread (.guest r3 stored) := by
  have pending : (state.enter thread (.guest r3 stored)).pending thread = none := by
    rw [Allocators.pending, enter_phase, Phase.pending]
    all_goals simp
  rw [commit, pending] at called
  simp only [record, enter_phase, Option.bind_some] at called
  cases called
  rfl

section Calls

variable {state after : Allocators τ} {host : Host} {thread : τ} {r3 : BitVec 64}
  {stored : Option (BitVec 32 × BitVec 32)} (idle : state.phase thread = .guest r3 stored)

include idle

theorem call_pool {r4 : BitVec 32}
    (called : state.call host thread (.exAllocatePoolTypeWithTag r4) = some after) :
    state.Failed after thread (.exAllocatePoolTypeWithTag r4) ∨
      host.commits (range state.gNextPoolAddress (poolSize r4)) = true ∧
        after.gNextPoolAddress = state.gNextPoolAddress + poolSize r4 ∧
        after.live = range state.gNextPoolAddress (poolSize r4) :: state.live ∧
        after.phase thread = .guest (state.gNextPoolAddress.setWidth 64) none := by
  simp only [call, Request.action, step, idle, Option.bind_some, exAllocatePoolTypeWithTag] at called
  split at called
  next refused =>
    obtain rfl := commit_none called
    exact .inl ⟨rfl, (BitVec.add_zero _).symm, rfl, rfl, rfl⟩
  next passes =>
    obtain ⟨-, rfl⟩ | ⟨committed, rfl⟩ := commit_pool called
    · exact .inl ⟨rfl, (BitVec.add_zero _).symm, rfl, rfl, rfl⟩
    · exact .inr ⟨committed, rfl, rfl, enter_phase _ _ _⟩

/-- A request for virtual memory commits the range that it was asked for, or one at the next
address. -/
theorem call_virtual {requestedAddress requestedSize : BitVec 32}
    (called : state.call host thread
      (.ntAllocateVirtualMemory requestedAddress requestedSize) = some after) :
    state.Failed after thread (.ntAllocateVirtualMemory requestedAddress requestedSize) ∨
      ∃ guestAddress : BitVec 32,
        (guestAddress = if requestedAddress = 0 then state.gNextVirtualAddress
          else requestedAddress &&& ~~~0xFFF#32) ∧
        host.commits (range guestAddress (virtualSize requestedAddress requestedSize)) = true ∧
        after.live =
          range guestAddress (virtualSize requestedAddress requestedSize) :: state.live ∧
        after.phase thread =
          .guest 0 (some (guestAddress, virtualSize requestedAddress requestedSize)) := by
  simp only [call, Request.action, step, idle, Option.bind_some, ntAllocateVirtualMemory] at called
  split at called
  next zero =>
    obtain rfl := commit_none called
    exact .inl ⟨(BitVec.add_zero _).symm, by simp [Request.virtualAdvance, zero, enter], rfl, rfl,
      rfl⟩
  next nonzero =>
    split at called
    next any =>
      have advance : (Request.ntAllocateVirtualMemory requestedAddress requestedSize).virtualAdvance =
          virtualSize requestedAddress requestedSize := by
        rw [Request.virtualAdvance, if_pos ⟨nonzero, any⟩]
      split at called
      next refused =>
        obtain rfl := commit_none called
        exact .inl ⟨(BitVec.add_zero _).symm, by rw [advance]; rfl, rfl, rfl, rfl⟩
      next passes =>
        obtain ⟨-, rfl⟩ | ⟨committed, rfl⟩ := commit_virtual called
        · exact .inl ⟨(BitVec.add_zero _).symm, by rw [advance]; rfl, rfl, rfl, rfl⟩
        · exact .inr ⟨_, (if_pos any).symm, committed, rfl, enter_phase _ _ _⟩
    next known =>
      have advance : (Request.ntAllocateVirtualMemory requestedAddress requestedSize).virtualAdvance =
          0 := by
        rw [Request.virtualAdvance, if_neg fun both => known both.2]
      obtain ⟨-, rfl⟩ | ⟨committed, rfl⟩ := commit_virtual called
      · exact .inl ⟨(BitVec.add_zero _).symm, by rw [advance]; exact (BitVec.add_zero _).symm, rfl,
          rfl, rfl⟩
      · exact .inr ⟨_, (if_neg known).symm, committed, rfl, enter_phase _ _ _⟩

end Calls

/-! ## Later calls -/

/-- States in which later calls do the same. -/
structure Alike (left right : Allocators τ) : Prop where
  pool : left.gNextPoolAddress = right.gNextPoolAddress
  dynamic : left.gNextVirtualAddress = right.gNextVirtualAddress
  allocations : left.gPoolAllocations = right.gPoolAllocations
  phase : ∀ thread, left.phase thread = right.phase thread ∨
    (∃ r3 stored, left.phase thread = .guest r3 stored) ∧
      ∃ r3 stored, right.phase thread = .guest r3 stored

/-- A thread comes to the same place in both states. -/
theorem Alike.enter {left right : Allocators τ} (alike : left.Alike right) (thread : τ)
    (phase : Phase) :
    (left.enter thread phase).Alike (right.enter thread phase) ∧
      (left.enter thread phase).phase thread = (right.enter thread phase).phase thread := by
  constructor
  · refine ⟨alike.pool, alike.dynamic, alike.allocations, fun other => ?_⟩
    by_cases same : other = thread
    · subst same
      exact .inl ((enter_phase left other phase).trans (enter_phase right other phase).symm)
    · simp only [Allocators.enter, Function.update_of_ne same]
      exact alike.phase other
  · exact (enter_phase left thread phase).trans (enter_phase right thread phase).symm

omit [DecidableEq τ] in
/-- A thread that is in the guest in one of the states is so in the other one. -/
theorem Alike.guest {left right : Allocators τ} (alike : left.Alike right) {thread : τ}
    {r3 : BitVec 64} {stored : Option (BitVec 32 × BitVec 32)}
    (idle : left.phase thread = .guest r3 stored) :
    ∃ r3 stored, right.phase thread = .guest r3 stored := by
  obtain same | ⟨-, other⟩ := alike.phase thread
  · exact ⟨r3, stored, same ▸ idle⟩
  · exact other

omit [DecidableEq τ] in
/-- A thread that is elsewhere is at the same place in both. -/
theorem Alike.same {left right : Allocators τ} (alike : left.Alike right) {thread : τ}
    (busy : ∀ r3 stored, left.phase thread ≠ .guest r3 stored) :
    right.phase thread = left.phase thread := by
  obtain same | ⟨⟨r3, stored, idle⟩, -⟩ := alike.phase thread
  · exact same.symm
  · exact absurd idle (busy r3 stored)

end Allocators

/-- The thread that takes an action. -/
def Action.thread {τ : Type} : Action τ → τ
  | .exAllocatePoolTypeWithTag thread _ => thread
  | .exFreePool thread _ => thread
  | .ntAllocateVirtualMemory thread _ _ => thread
  | .virtualAlloc thread _ => thread
  | .finish thread => thread

namespace Allocators

variable {τ : Type} [DecidableEq τ]

theorem Alike.exAllocatePoolTypeWithTag {left right : Allocators τ} (alike : left.Alike right)
    (thread : τ) (r4 : BitVec 32) :
    (left.exAllocatePoolTypeWithTag thread r4).Alike (right.exAllocatePoolTypeWithTag thread r4) ∧
      (left.exAllocatePoolTypeWithTag thread r4).phase thread =
        (right.exAllocatePoolTypeWithTag thread r4).phase thread := by
  rw [Allocators.exAllocatePoolTypeWithTag, Allocators.exAllocatePoolTypeWithTag, alike.pool]
  dsimp only
  split
  · apply Alike.enter
    exact ⟨rfl, alike.dynamic, alike.allocations, alike.phase⟩
  · apply Alike.enter
    exact ⟨rfl, alike.dynamic, alike.allocations, alike.phase⟩

theorem Alike.exFreePool {left right : Allocators τ} (alike : left.Alike right) (thread : τ)
    (r3 : BitVec 64) :
    (left.exFreePool thread r3).Alike (right.exFreePool thread r3) ∧
      (left.exFreePool thread r3).phase thread = (right.exFreePool thread r3).phase thread := by
  rw [Allocators.exFreePool, Allocators.exFreePool, alike.allocations]
  split
  · apply Alike.enter
    exact ⟨alike.pool, alike.dynamic, alike.allocations, alike.phase⟩
  · apply Alike.enter
    exact ⟨alike.pool, alike.dynamic, rfl, alike.phase⟩

theorem Alike.ntAllocateVirtualMemory {left right : Allocators τ} (alike : left.Alike right)
    (thread : τ) (requestedAddress requestedSize : BitVec 32) :
    (left.ntAllocateVirtualMemory thread requestedAddress requestedSize).Alike
        (right.ntAllocateVirtualMemory thread requestedAddress requestedSize) ∧
      (left.ntAllocateVirtualMemory thread requestedAddress requestedSize).phase thread =
        (right.ntAllocateVirtualMemory thread requestedAddress requestedSize).phase thread := by
  rw [Allocators.ntAllocateVirtualMemory, Allocators.ntAllocateVirtualMemory, alike.dynamic]
  dsimp only
  split
  · apply Alike.enter
    exact ⟨alike.pool, alike.dynamic, alike.allocations, alike.phase⟩
  split
  · split
    · apply Alike.enter
      exact ⟨alike.pool, rfl, alike.allocations, alike.phase⟩
    · apply Alike.enter
      exact ⟨alike.pool, rfl, alike.allocations, alike.phase⟩
  · apply Alike.enter
    exact ⟨alike.pool, alike.dynamic, alike.allocations, alike.phase⟩

/-- An action moves only its own thread, and in alike states to the same place. -/
theorem Alike.step {left right next : Allocators τ} (alike : left.Alike right) {action : Action τ}
    (taken : left.step action = some next) :
    ∃ next', right.step action = some next' ∧ next.Alike next' ∧
      next.phase action.thread = next'.phase action.thread := by
  cases action with
  | exAllocatePoolTypeWithTag thread r4 =>
      simp only [Allocators.step] at taken ⊢
      split at taken
      next idle =>
        cases taken
        obtain ⟨_, _, idle⟩ := alike.guest idle
        rw [idle]
        exact ⟨_, rfl, alike.exAllocatePoolTypeWithTag thread r4⟩
      next => cases taken
  | exFreePool thread r3 =>
      simp only [Allocators.step] at taken ⊢
      split at taken
      next idle =>
        cases taken
        obtain ⟨_, _, idle⟩ := alike.guest idle
        rw [idle]
        exact ⟨_, rfl, alike.exFreePool thread r3⟩
      next => cases taken
  | ntAllocateVirtualMemory thread requestedAddress requestedSize =>
      simp only [Allocators.step] at taken ⊢
      split at taken
      next idle =>
        cases taken
        obtain ⟨_, _, idle⟩ := alike.guest idle
        rw [idle]
        exact ⟨_, rfl, alike.ntAllocateVirtualMemory thread requestedAddress requestedSize⟩
      next => cases taken
  | finish thread =>
      simp only [Allocators.step] at taken ⊢
      split at taken
      next there =>
        cases taken
        rw [alike.same (by simp [there]), there]
        refine ⟨_, rfl, ?_⟩
        apply Alike.enter
        exact ⟨alike.pool, alike.dynamic,
          congrArg (fun table => Function.update table _ _) alike.allocations, alike.phase⟩
      next there =>
        cases taken
        rw [alike.same (by simp [there]), there]
        refine ⟨_, rfl, ?_⟩
        apply Alike.enter
        exact ⟨alike.pool, alike.dynamic, alike.allocations, alike.phase⟩
      next => cases taken
  | virtualAlloc thread succeeds =>
      cases succeeds with
      | false =>
          simp only [Allocators.step] at taken ⊢
          split at taken
          next there =>
            cases taken
            rw [alike.same (by simp [there]), there]
            refine ⟨_, rfl, ?_⟩
            apply Alike.enter
            exact ⟨alike.pool, alike.dynamic, alike.allocations, alike.phase⟩
          next there =>
            cases taken
            rw [alike.same (by simp [there]), there]
            refine ⟨_, rfl, ?_⟩
            apply Alike.enter
            exact ⟨alike.pool, alike.dynamic, alike.allocations, alike.phase⟩
          next => cases taken
      | true =>
          simp only [Allocators.step] at taken ⊢
          split at taken
          next there =>
            split at taken
            next => cases taken
            next nonzero =>
              cases taken
              rw [alike.same (by simp [there]), there]
              refine ⟨_, if_neg nonzero, ?_⟩
              apply Alike.enter
              exact ⟨alike.pool, alike.dynamic, alike.allocations, alike.phase⟩
          next there =>
            split at taken
            next => cases taken
            next nonzero =>
              cases taken
              rw [alike.same (by simp [there]), there]
              refine ⟨_, if_neg nonzero, ?_⟩
              apply Alike.enter
              exact ⟨alike.pool, alike.dynamic, alike.allocations, alike.phase⟩
          next => cases taken

/-- An action leaves the places of the other threads. -/
theorem phase_of_ne {state next : Allocators τ} {action : Action τ} {thread : τ}
    (apart : thread ≠ action.thread) (taken : state.step action = some next) :
    next.phase thread = state.phase thread := by
  have entered : ∀ (state : Allocators τ) (phase : Phase),
      (state.enter action.thread phase).phase thread = state.phase thread :=
    fun _ _ => Function.update_of_ne apart _ _
  cases action with
  | exAllocatePoolTypeWithTag actor r4 =>
      simp only [Allocators.step] at taken
      split at taken
      next =>
        cases taken
        rw [exAllocatePoolTypeWithTag]
        dsimp only
        split
        · exact entered _ _
        · exact entered _ _
      next => cases taken
  | exFreePool actor r3 =>
      simp only [Allocators.step, exFreePool] at taken
      split at taken
      next =>
        split at taken
        next =>
          cases taken
          exact entered _ _
        next =>
          cases taken
          exact entered _ _
      next => cases taken
  | ntAllocateVirtualMemory actor requestedAddress requestedSize =>
      simp only [Allocators.step] at taken
      split at taken
      next =>
        cases taken
        rw [ntAllocateVirtualMemory]
        dsimp only
        split
        · exact entered _ _
        split
        · split
          · exact entered _ _
          · exact entered _ _
        · exact entered _ _
      next => cases taken
  | finish actor =>
      simp only [Allocators.step] at taken
      split at taken
      next =>
        cases taken
        exact entered _ _
      next =>
        cases taken
        exact entered _ _
      next => cases taken
  | virtualAlloc actor succeeds =>
      cases succeeds with
      | false =>
          simp only [Allocators.step] at taken
          split at taken
          next =>
            cases taken
            exact entered _ _
          next =>
            cases taken
            exact entered _ _
          next => cases taken
      | true =>
          simp only [Allocators.step] at taken
          split at taken
          next =>
            split at taken
            next => cases taken
            next =>
              cases taken
              exact entered _ _
          next =>
            split at taken
            next => cases taken
            next =>
              cases taken
              exact entered _ _
          next => cases taken

/-- Runs from alike states take the same actions, and bring the threads that act to the same
places. -/
theorem exists_run_of_alike {left right reached : Allocators τ} {actions : List (Action τ)}
    (alike : left.Alike right)
    (taken : takeAll step (fun _ _ => True) actions left = some reached) :
    ∃ reached', takeAll step (fun _ _ => True) actions right = some reached' ∧
      ∀ thread, (∃ action ∈ actions, action.thread = thread) ∨
          left.phase thread = right.phase thread →
        reached.phase thread = reached'.phase thread := by
  induction actions generalizing left right with
  | nil =>
      cases taken
      refine ⟨right, rfl, fun thread known => ?_⟩
      obtain ⟨action, member, -⟩ | same := known
      · cases member
      · exact same
  | cons action rest ih =>
      rw [takeAll, if_pos trivial] at taken
      obtain ⟨next, first, later⟩ := Option.bind_eq_some_iff.mp taken
      obtain ⟨next', first', still, same⟩ := alike.step first
      obtain ⟨reached', later', places⟩ := ih still later
      refine ⟨reached', ?_, fun thread known => places thread ?_⟩
      · rw [takeAll, if_pos trivial, first', Option.bind_some, later']
      by_cases acts : thread = action.thread
      · exact .inr (acts ▸ same)
      obtain ⟨actor, member, rfl⟩ | before := known
      · obtain rfl | member := List.mem_cons.mp member
        · exact absurd rfl acts
        · exact .inl ⟨actor, member, rfl⟩
      · exact .inr (by rw [phase_of_ne acts first, before, phase_of_ne acts first'])

/-! ## Failed calls -/

/-- Nothing is left of a call: no next address has moved, no allocation is recorded, nothing is
committed or stored in the guest's words, and whatever threads do from then on they could have done
before, with the same results. -/
structure Unchanged (state after : Allocators τ) (thread : τ) : Prop where
  pool : after.gNextPoolAddress = state.gNextPoolAddress
  dynamic : after.gNextVirtualAddress = state.gNextVirtualAddress
  allocations : after.gPoolAllocations = state.gPoolAllocations
  live : after.live = state.live
  stored : ∃ r3, after.phase thread = .guest r3 none
  later : ∀ actions reached, takeAll step (fun _ _ => True) actions state = some reached →
    ∃ reached', takeAll step (fun _ _ => True) actions after = some reached' ∧
      ∀ action ∈ actions, reached.phase action.thread = reached'.phase action.thread

section Failures

variable {state after : Allocators τ} {thread : τ} {request : Request}

/-- A failed call that adds nothing. -/
theorem Failed.unchanged {r3 : BitVec 64} {stored : Option (BitVec 32 × BitVec 32)}
    (failed : state.Failed after thread request) (idle : state.phase thread = .guest r3 stored)
    (pool : request.poolAdvance = 0) (dynamic : request.virtualAdvance = 0) :
    state.Unchanged after thread := by
  have poolSame : after.gNextPoolAddress = state.gNextPoolAddress := by
    rw [failed.pool, pool]
    exact BitVec.add_zero _
  have dynamicSame : after.gNextVirtualAddress = state.gNextVirtualAddress := by
    rw [failed.dynamic, dynamic]
    exact BitVec.add_zero _
  have returned : after.phase thread = .guest request.failure none := by
    rw [failed.phase, Function.update_self]
  have alike : state.Alike after := by
    refine ⟨poolSame.symm, dynamicSame.symm, failed.allocations.symm, fun other => ?_⟩
    by_cases same : other = thread
    · subst same
      exact .inr ⟨⟨_, _, idle⟩, _, _, returned⟩
    · rw [failed.phase, Function.update_of_ne same]
      exact .inl rfl
  refine ⟨poolSame, dynamicSame, failed.allocations, failed.live, ⟨_, returned⟩, ?_⟩
  intro actions reached taken
  obtain ⟨reached', taken', places⟩ := exists_run_of_alike alike taken
  exact ⟨reached', taken', fun action member => places _ (.inl ⟨action, member, rfl⟩)⟩

/-- A failed call that leaves the next addresses added nothing to them. -/
theorem Failed.advance_eq_zero (failed : state.Failed after thread request)
    (unchanged : state.Unchanged after thread) :
    request.poolAdvance = 0 ∧ request.virtualAdvance = 0 := by
  have pool := failed.pool.symm.trans unchanged.pool
  have dynamic := failed.dynamic.symm.trans unchanged.dynamic
  constructor
  · bv_omega
  · bv_omega

end Failures

end Allocators

/-- A call that fails leaves nothing behind, if and only if its request has nothing to add to the
next addresses. -/
theorem unchanged_iff {τ : Type} [DecidableEq τ] {state after : Allocators τ} {host : Host}
    {thread : τ} {request : Request} {r3 : BitVec 64} {stored : Option (BitVec 32 × BitVec 32)}
    {changed : Option (BitVec 32 × BitVec 32)} (idle : state.phase thread = .guest r3 stored)
    (called : state.call host thread request = some after)
    (failed : after.phase thread = .guest request.failure changed) :
    state.Unchanged after thread ↔ request.poolAdvance = 0 ∧ request.virtualAdvance = 0 := by
  have refused : state.Failed after thread request →
      (state.Unchanged after thread ↔ request.poolAdvance = 0 ∧ request.virtualAdvance = 0) := by
    intro failed
    exact ⟨failed.advance_eq_zero, fun ⟨pool, dynamic⟩ => failed.unchanged idle pool dynamic⟩
  cases request with
  | exAllocatePoolTypeWithTag r4 =>
      obtain refusal | ⟨committed, -, live, -⟩ := Allocators.call_pool idle called
      · exact refused refusal
      · -- The range at the address zero is committed, which the guest takes for a failure.
        apply iff_of_false
        · intro unchanged
          exact List.cons_ne_self _ _ (live.symm.trans unchanged.live)
        · rintro ⟨zero, -⟩
          rw [show poolSize r4 = 0 from zero] at committed
          exact absurd (host.nonempty _ committed) (Nat.lt_irrefl 0)
  | ntAllocateVirtualMemory requestedAddress requestedSize =>
      obtain refusal | ⟨_, -, -, -, returned⟩ := Allocators.call_virtual idle called
      · exact refused refusal
      · rw [returned] at failed
        cases failed

/-- A request of more than fits into the window of the pool moves its next address. -/
theorem unchanged_iff_oversized : ∃ after : Allocators Bool,
    Allocators.initial.call .generous true (.exAllocatePoolTypeWithTag 0x70000000) = some after ∧
      (Allocators.initial.Unchanged after true ↔ poolSize 0x70000000 = 0 ∧ (0 : BitVec 32) = 0) := by
  have returned : (Allocators.initial.call Host.generous true
      (.exAllocatePoolTypeWithTag 0x70000000)).map (fun after : Allocators Bool =>
        after.phase true) = some (.guest 0 none) := by decide
  obtain ⟨after, called, failed⟩ := Option.map_eq_some_iff.mp returned
  exact ⟨after, called, unchanged_iff rfl called failed⟩

/-- It has moved although the call has failed. -/
theorem not_unchanged : ¬∀ (state after : Allocators Bool) (host : Host) (thread : Bool)
    (request : Request) (r3 : BitVec 64) (stored changed : Option (BitVec 32 × BitVec 32)),
    state.phase thread = .guest r3 stored → state.call host thread request = some after →
      after.phase thread = .guest request.failure changed → state.Unchanged after thread := by
  intro every
  have returned : (Allocators.initial.call Host.generous true
      (.exAllocatePoolTypeWithTag 0x70000000)).map (fun after : Allocators Bool =>
        (after.phase true, after.gNextPoolAddress)) = some (.guest 0 none, 0x80000000) := by decide
  obtain ⟨after, called, known⟩ := Option.map_eq_some_iff.mp returned
  obtain ⟨failed, moved⟩ := Prod.mk.inj known
  have unchanged := every _ after _ _ _ 0 none none rfl called failed
  exact absurd (moved.symm.trans unchanged.pool) (by decide)

/-! ## Calls that succeed -/

namespace Allocators

variable {τ : Type}

/-- The next addresses are those of pages. -/
structure Aligned (state : Allocators τ) : Prop where
  pool : state.gNextPoolAddress.toNat % kPageSize = 0
  dynamic : state.gNextVirtualAddress.toNat % kPageSize = 0

theorem aligned_add {address size : BitVec 32} (start : address.toNat % kPageSize = 0)
    (pages : size.toNat % kPageSize = 0) : (address + size).toNat % kPageSize = 0 := by
  rw [BitVec.toNat_add]
  simp only [kPageSize] at *
  omega

variable [DecidableEq τ]

/-- The next addresses move by whole pages. -/
theorem Aligned.step {state next : Allocators τ} {action : Action τ} (aligned : state.Aligned)
    (taken : state.step action = some next) : next.Aligned := by
  cases action with
  | exAllocatePoolTypeWithTag thread r4 =>
      have moved := aligned_add aligned.pool (show (poolSize r4).toNat % kPageSize = 0 from
        roundToPage_aligned _)
      simp only [Allocators.step] at taken
      split at taken
      next =>
        cases taken
        rw [exAllocatePoolTypeWithTag]
        dsimp only
        split
        · exact ⟨moved, aligned.dynamic⟩
        · exact ⟨moved, aligned.dynamic⟩
      next => cases taken
  | exFreePool thread r3 =>
      simp only [Allocators.step, exFreePool] at taken
      split at taken
      next =>
        split at taken
        next =>
          cases taken
          exact ⟨aligned.pool, aligned.dynamic⟩
        next =>
          cases taken
          exact ⟨aligned.pool, aligned.dynamic⟩
      next => cases taken
  | ntAllocateVirtualMemory thread requestedAddress requestedSize =>
      have moved := aligned_add aligned.dynamic
        (show (virtualSize requestedAddress requestedSize).toNat % kPageSize = 0 from
          roundToPage_aligned _)
      simp only [Allocators.step] at taken
      split at taken
      next =>
        cases taken
        rw [ntAllocateVirtualMemory]
        dsimp only
        split
        · exact ⟨aligned.pool, aligned.dynamic⟩
        split
        · split
          · exact ⟨aligned.pool, moved⟩
          · exact ⟨aligned.pool, moved⟩
        · exact ⟨aligned.pool, aligned.dynamic⟩
      next => cases taken
  | finish thread =>
      simp only [Allocators.step] at taken
      split at taken
      next =>
        cases taken
        exact ⟨aligned.pool, aligned.dynamic⟩
      next =>
        cases taken
        exact ⟨aligned.pool, aligned.dynamic⟩
      next => cases taken
  | virtualAlloc thread succeeds =>
      cases succeeds with
      | false =>
          simp only [Allocators.step] at taken
          split at taken
          next =>
            cases taken
            exact ⟨aligned.pool, aligned.dynamic⟩
          next =>
            cases taken
            exact ⟨aligned.pool, aligned.dynamic⟩
          next => cases taken
      | true =>
          simp only [Allocators.step] at taken
          split at taken
          next =>
            split at taken
            next => cases taken
            next =>
              cases taken
              exact ⟨aligned.pool, aligned.dynamic⟩
          next =>
            split at taken
            next => cases taken
            next =>
              cases taken
              exact ⟨aligned.pool, aligned.dynamic⟩
          next => cases taken

theorem Aligned.of_reach {state : Allocators τ}
    (reach : Reach Allocators.step (fun _ _ => True) Allocators.initial state) : state.Aligned :=
  reach.invariant
    ⟨show kPoolBase.toNat % kPageSize = 0 by decide, show kDynamicBase.toNat % kPageSize = 0 by decide⟩
    fun aligned _ taken => aligned.step taken

end Allocators

/-- What a request was answered with: pages that were committed, and what the guest sees of them. -/
structure Request.Answered {τ : Type} (request : Request) (state after : Allocators τ)
    (thread : τ) (guestAddress committedSize : BitVec 32) : Prop where
  start : guestAddress.toNat % kPageSize = 0
  pages : committedSize.toNat % kPageSize = 0
  nonempty : 0 < committedSize.toNat
  within : guestAddress.toNat + committedSize.toNat ≤ 2 ^ 32
  live : after.live = range guestAddress committedSize :: state.live
  pool : ∀ r4, request = .exAllocatePoolTypeWithTag r4 →
    after.phase thread = .guest (guestAddress.setWidth 64) none ∧
      max r4.toNat 1 ≤ committedSize.toNat
  dynamic : ∀ requestedAddress requestedSize,
    request = .ntAllocateVirtualMemory requestedAddress requestedSize →
    after.phase thread = .guest 0 (some (guestAddress, committedSize)) ∧
      requestedSize.toNat ≤ committedSize.toNat ∧
      (requestedAddress ≠ 0 → guestAddress.toNat ≤ requestedAddress.toNat) ∧
      requestedAddress.toNat + requestedSize.toNat ≤ guestAddress.toNat + committedSize.toNat

/-- The offset in a page and its address. -/
theorem page_parts (address : BitVec 32) :
    (address &&& 0xFFF#32).toNat = address.toNat % kPageSize ∧
      (address &&& ~~~0xFFF#32).toNat = address.toNat - address.toNat % kPageSize := by
  have bound := address.isLt
  have offset : (address &&& 0xFFF#32).toNat = address.toNat % 2 ^ 12 :=
    (BitVec.toNat_and _ _).trans (Nat.and_two_pow_sub_one_eq_mod address.toNat 12)
  have page : (address &&& ~~~0xFFF#32).toNat = address.toNat / 2 ^ 12 % 2 ^ 20 * 2 ^ 12 :=
    (BitVec.toNat_and _ _).trans (and_field address.toNat 12 20)
  constructor
  · exact offset
  · rw [page]
    simp only [kPageSize]
    omega

/-- What is rounded up is no less, unless it becomes zero. -/
theorem le_roundToPage {value : BitVec 32} (nonzero : 0 < (roundToPage value).toNat) :
    value.toNat ≤ (roundToPage value).toNat := by
  have bound := value.isLt
  have sum : (value + 0xFFF#32).toNat = (value.toNat + 0xFFF) % 2 ^ 32 := BitVec.toNat_add _ _
  rw [roundToPage, (page_parts _).2, sum] at nonzero ⊢
  simp only [kPageSize] at *
  omega

/-- The size of a request and its offset in the first page. -/
theorem toNat_size_add (requestedAddress requestedSize : BitVec 32) :
    (requestedSize + (requestedAddress &&& 0xFFF#32)).toNat =
      (requestedSize.toNat + requestedAddress.toNat % kPageSize) % 2 ^ 32 := by
  rw [BitVec.toNat_add, (page_parts requestedAddress).1]

/-- The range of a successful call is what was asked for, if and only if the request fits. -/
theorem answered_iff {τ : Type} [DecidableEq τ] {state after : Allocators τ} {host : Host}
    {thread : τ} {request : Request} {r3 result : BitVec 64}
    {stored changed : Option (BitVec 32 × BitVec 32)}
    (reach : Reach Allocators.step (fun _ _ => True) Allocators.initial state)
    (idle : state.phase thread = .guest r3 stored)
    (called : state.call host thread request = some after)
    (returned : after.phase thread = .guest result changed) (succeeds : request.Succeeds result) :
    (∃ guestAddress committedSize, request.Answered state after thread guestAddress committedSize) ↔
      request.Fits := by
  have aligned := Allocators.Aligned.of_reach reach
  have failing : ¬request.Succeeds request.failure := by
    cases request with
    | exAllocatePoolTypeWithTag r4 => exact fun nonzero => nonzero rfl
    | ntAllocateVirtualMemory requestedAddress requestedSize => exact (by decide : kStatusNoMemory ≠ 0)
  have refuted : ¬state.Failed after thread request := by
    intro failed
    rw [failed.phase, Function.update_self] at returned
    cases returned
    exact failing succeeds
  cases request with
  | exAllocatePoolTypeWithTag r4 =>
      obtain failed | ⟨committed, -, live, phase⟩ := Allocators.call_pool idle called
      · exact absurd failed refuted
      have positive := host.nonempty _ committed
      have enough : (if r4 = 0 then 1 else r4).toNat ≤ (poolSize r4).toNat := le_roundToPage positive
      refine iff_of_true ⟨_, _, aligned.pool, roundToPage_aligned _, positive,
        host.reserved _ committed, live, ?_, fun _ _ other => nomatch other⟩ trivial
      intro other same
      cases same
      refine ⟨phase, le_trans (max_le ?_ ?_) enough⟩
      · split
        next zero => rw [zero]; decide
        next _ => exact Nat.le_refl _
      · split
        next _ => decide
        next nonzero =>
          apply Nat.one_le_iff_ne_zero.mpr
          intro zero
          exact nonzero (BitVec.eq_of_toNat_eq zero)
  | ntAllocateVirtualMemory requestedAddress requestedSize =>
      obtain failed | ⟨guestAddress, start, committed, live, phase⟩ :=
        Allocators.call_virtual idle called
      · exact absurd failed refuted
      have positive := host.nonempty _ committed
      have within := host.reserved _ committed
      have enough : (requestedSize.toNat + requestedAddress.toNat % kPageSize) % 2 ^ 32 ≤
          (virtualSize requestedAddress requestedSize).toNat := by
        rw [← toNat_size_add]
        exact le_roundToPage positive
      constructor
      · rintro ⟨address, size, answered⟩
        obtain ⟨seen, -, -, covered⟩ := answered.dynamic _ _ rfl
        obtain ⟨rfl, rfl⟩ : address = guestAddress ∧
            size = virtualSize requestedAddress requestedSize := by
          have same := phase.symm.trans seen
          simp only [Phase.guest.injEq, Option.some.injEq, Prod.mk.injEq, true_and] at same
          exact ⟨same.1.symm, same.2.symm⟩
        rw [Request.Fits]
        by_cases any : requestedAddress = 0
        · subst any
          have bound := requestedSize.isLt
          rw [show (0 : BitVec 32).toNat = 0 from rfl, Nat.zero_mod]
          exact Nat.le_of_lt bound
        · rw [start, if_neg any, (page_parts _).2] at covered
          have bound := (virtualSize requestedAddress requestedSize).isLt
          have offset := Nat.mod_le requestedAddress.toNat kPageSize
          omega
      · intro fits
        rw [Request.Fits] at fits
        -- A sum of `2 ^ 32` would be rounded to zero, which is not committed.
        have small : requestedSize.toNat + requestedAddress.toNat % kPageSize < 2 ^ 32 := by
          apply Nat.lt_of_le_of_ne fits
          intro whole
          have zero : requestedSize + (requestedAddress &&& 0xFFF#32) = 0 := by
            apply BitVec.eq_of_toNat_eq
            rw [toNat_size_add, whole]
            rfl
          rw [virtualSize, zero] at positive
          exact absurd (show 0 < (alignUp 0).toNat from positive) (by decide)
        rw [Nat.mod_eq_of_lt small] at enough
        refine ⟨guestAddress, virtualSize requestedAddress requestedSize, ?_, roundToPage_aligned _,
          positive, within, live, fun _ other => (nomatch other), ?_⟩
        · rw [start]
          split
          next _ => exact aligned.dynamic
          next _ =>
            rw [(page_parts _).2]
            simp only [kPageSize]
            omega
        · intro address size same
          cases same
          refine ⟨phase, by omega, ?_, ?_⟩
          · intro known
            rw [start, if_neg known, (page_parts _).2]
            exact Nat.sub_le _ _
          · rw [start]
            have offset := Nat.mod_le requestedAddress.toNat kPageSize
            split
            next zero =>
              have first : requestedAddress.toNat = 0 := by
                rw [zero]
                rfl
              omega
            next _ =>
              rw [(page_parts _).2]
              omega

/-- One byte in the middle of a page. -/
theorem answered_iff_byte : ∃ after : Allocators Bool,
    Allocators.initial.call .generous true (.ntAllocateVirtualMemory 0x30000800 1) = some after ∧
      ((∃ guestAddress committedSize, (Request.ntAllocateVirtualMemory 0x30000800 1).Answered
        Allocators.initial after true guestAddress committedSize) ↔
          (Request.ntAllocateVirtualMemory 0x30000800 1).Fits) := by
  have returned : (Allocators.initial.call Host.generous true
      (.ntAllocateVirtualMemory 0x30000800 1)).map (fun after : Allocators Bool =>
        after.phase true) = some (.guest 0 (some (0x30000000, 0x1000))) := by decide
  obtain ⟨after, called, phase⟩ := Option.map_eq_some_iff.mp returned
  exact ⟨after, called, answered_iff .refl rfl called phase rfl⟩

/-- The size and the offset in the page wrap around, and one page is committed. -/
theorem not_answered : ¬∀ (state after : Allocators Bool) (host : Host) (thread : Bool)
    (request : Request) (r3 result : BitVec 64) (stored changed : Option (BitVec 32 × BitVec 32)),
    Reach Allocators.step (fun _ _ => True) Allocators.initial state →
      state.phase thread = .guest r3 stored → state.call host thread request = some after →
      after.phase thread = .guest result changed → request.Succeeds result →
      ∃ guestAddress committedSize,
        request.Answered state after thread guestAddress committedSize := by
  intro every
  have returned : (Allocators.initial.call Host.generous true
      (.ntAllocateVirtualMemory 0x30000002 0xFFFFFFFF)).map (fun after : Allocators Bool =>
        after.phase true) = some (.guest 0 (some (0x30000000, 0x1000))) := by decide
  obtain ⟨after, called, phase⟩ := Option.map_eq_some_iff.mp returned
  obtain ⟨address, size, answered⟩ := every _ after _ _ _ 0 0 none _ .refl rfl called phase rfl
  obtain ⟨seen, -, -, covered⟩ := answered.dynamic _ _ rfl
  have same := phase.symm.trans seen
  simp only [Phase.guest.injEq, Option.some.injEq, Prod.mk.injEq, true_and] at same
  rw [← same.1, ← same.2] at covered
  exact absurd covered (by decide)

end UfcRecomp.Native
