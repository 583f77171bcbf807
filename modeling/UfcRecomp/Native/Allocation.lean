import UfcRecomp.Lib.Holding
import UfcRecomp.Lib.Transition
import UfcRecomp.Native.Memory

/-!
# The guest's allocators

`ExAllocatePoolTypeWithTag` and `NtAllocateVirtualMemory` each take the next addresses of a window
of the reservation, and commit them; `ExFreePool` decommits what the first one recorded. Threads
call them at the same time. What is atomic in the source is one action here: adding to a cursor,
with the thread's own computation around it, a use of the recorded allocations under their mutex,
and each call of the host system.
-/

namespace UfcRecomp.Native

open UfcRecomp.Lib

/-! ## Pages -/

def kPageSize : Nat := 0x1000

/-- Whether a page has an address of the region. -/
def Region.HoldsPage (region : Region) (page : Nat) : Prop :=
  ∃ address, region.Holds address ∧ address / kPageSize = page

/-- No page has addresses of both regions. -/
def Region.Apart (first second : Region) : Prop :=
  ∀ page, ¬ (first.HoldsPage page ∧ second.HoldsPage page)

theorem Region.Apart.symm {first second : Region} (apart : first.Apart second) :
    second.Apart first := fun page ⟨inSecond, inFirst⟩ => apart page ⟨inFirst, inSecond⟩

/-- Regions on both sides of a page boundary. -/
theorem Region.apart_of_le {first second : Region} {boundary : Nat}
    (aligned : boundary % kPageSize = 0) (before : first.start + first.size ≤ boundary)
    (behind : boundary ≤ second.start) : first.Apart second := by
  rintro page ⟨⟨low, ⟨_, lowEnd⟩, lowPage⟩, ⟨high, ⟨highStart, _⟩, highPage⟩⟩
  simp only [kPageSize] at *
  omega

/-- An empty region has no pages. -/
theorem Region.apart_of_empty {first second : Region} (empty : first.size = 0) :
    first.Apart second := by
  rintro page ⟨⟨address, ⟨start, finish⟩, _⟩, _⟩
  omega

/-- Rounding up to whole pages, modulo `2 ^ 32`. -/
def roundToPage (value : BitVec 32) : BitVec 32 := (value + 0xFFF#32) &&& ~~~0xFFF#32

/-- `AlignToPage` of the pool. -/
def alignToPage (size : BitVec 32) : BitVec 32 := roundToPage size

/-- `AlignUp` of the virtual memory. -/
def alignUp (value : BitVec 32) : BitVec 32 := roundToPage value

theorem roundToPage_aligned (value : BitVec 32) : (roundToPage value).toNat % kPageSize = 0 := by
  have mask : (~~~0xFFF#32 : BitVec 32).toNat % 2 ^ 12 = 0 := by decide
  have parts := @Nat.and_mod_two_pow (value + 0xFFF#32).toNat (~~~0xFFF#32 : BitVec 32).toNat 12
  rw [mask, Nat.and_zero] at parts
  rw [roundToPage, BitVec.toNat_and]
  exact parts

/-! ## Threads -/

def kPoolBase : BitVec 32 := 0x10000000
def kPoolLimit : BitVec 32 := 0x70000000
def kDynamicBase : BitVec 32 := 0x20000000
def kDynamicLimit : BitVec 32 := 0x50000000
def kStatusNoMemory : BitVec 64 := 0xC0000017

/-- Where a thread is. In the guest it has the result of its last call: `r3`, and for
`NtAllocateVirtualMemory` the address and the size that were stored. -/
inductive Phase where
  | guest (r3 : BitVec 64) (stored : Option (BitVec 32 × BitVec 32))
  | commitPool (guestAddress committedSize : BitVec 32)
  | registerPool (guestAddress committedSize : BitVec 32)
  | decommit (r3 : BitVec 64) (committedSize : BitVec 32)
  | commitVirtual (guestAddress committedSize : BitVec 32)
  deriving DecidableEq

/-- A range of guest addresses given by 32-bit numbers. -/
def range (guestAddress committedSize : BitVec 32) : Region :=
  ⟨guestAddress.toNat, committedSize.toNat⟩

/-- What is committed next. -/
def Phase.pending : Phase → Option Region
  | .commitPool guestAddress committedSize => some (range guestAddress committedSize)
  | .commitVirtual guestAddress committedSize => some (range guestAddress committedSize)
  | _ => none

/-- The state that the threads `τ` share, and where each of them is. -/
structure Allocators (τ : Type) where
  gNextPoolAddress : BitVec 32
  gPoolAllocations : BitVec 32 → Option (BitVec 32)
  gNextVirtualAddress : BitVec 32
  phase : τ → Phase
  /-- What is allocated: committed by an allocator and not decommitted since. -/
  live : List Region
  /-- Where the addresses end that each allocator has handed out. -/
  poolEnd : Nat
  dynamicEnd : Nat

/-- What a thread does next. -/
inductive Action (τ : Type) where
  | exAllocatePoolTypeWithTag (thread : τ) (r4 : BitVec 32)
  | exFreePool (thread : τ) (r3 : BitVec 64)
  | ntAllocateVirtualMemory (thread : τ) (requestedAddress requestedSize : BitVec 32)
  /-- The call of `VirtualAlloc`, which may fail. -/
  | virtualAlloc (thread : τ) (succeeds : Bool)
  /-- Recording an allocation, or the call of `VirtualFree`. -/
  | finish (thread : τ)

/-- `committedSize` of a request to the pool. -/
def poolSize (r4 : BitVec 32) : BitVec 32 := alignToPage (if r4 = 0 then 1 else r4)

/-- The check of the pool. -/
def exceedsPool (guestAddress committedSize : BitVec 32) : Bool :=
  guestAddress > kPoolLimit || committedSize > kPoolLimit - guestAddress

/-- `committedSize` of a request for virtual memory. -/
def virtualSize (requestedAddress requestedSize : BitVec 32) : BitVec 32 :=
  alignUp (requestedSize + (requestedAddress &&& 0xFFF#32))

/-- The check of the virtual memory. -/
def exceedsDynamic (guestAddress committedSize : BitVec 32) : Bool :=
  guestAddress ≥ kDynamicLimit || committedSize > kDynamicLimit - guestAddress

namespace Allocators

variable {τ : Type} [DecidableEq τ]

/-- No call has been made. -/
def initial : Allocators τ where
  gNextPoolAddress := kPoolBase
  gPoolAllocations _ := none
  gNextVirtualAddress := kDynamicBase
  phase _ := .guest 0 none
  live := []
  poolEnd := kPoolBase.toNat
  dynamicEnd := kDynamicBase.toNat

/-- A thread goes on. -/
def enter (state : Allocators τ) (thread : τ) (phase : Phase) : Allocators τ :=
  { state with phase := Function.update state.phase thread phase }

/-- `__imp__ExAllocatePoolTypeWithTag` up to its call of `VirtualAlloc`. -/
def exAllocatePoolTypeWithTag (state : Allocators τ) (thread : τ) (r4 : BitVec 32) :
    Allocators τ :=
  let committedSize := poolSize r4
  let guestAddress := state.gNextPoolAddress
  let state := { state with gNextPoolAddress := guestAddress + committedSize }
  if exceedsPool guestAddress committedSize then state.enter thread (.guest 0 none)
  else
    { state with poolEnd := guestAddress.toNat + committedSize.toNat }.enter thread
      (.commitPool guestAddress committedSize)

/-- `__imp__ExFreePool` up to its call of `VirtualFree`; it leaves `r3` as it is. -/
def exFreePool (state : Allocators τ) (thread : τ) (r3 : BitVec 64) : Allocators τ :=
  let allocation := r3.setWidth 32
  match state.gPoolAllocations allocation with
  | none => state.enter thread (.guest r3 none)
  | some committedSize =>
    { state with gPoolAllocations := Function.update state.gPoolAllocations allocation none }.enter
      thread (.decommit r3 committedSize)

/-- `__imp__NtAllocateVirtualMemory` up to its call of `VirtualAlloc`. -/
def ntAllocateVirtualMemory (state : Allocators τ) (thread : τ)
    (requestedAddress requestedSize : BitVec 32) : Allocators τ :=
  if requestedSize = 0 then state.enter thread (.guest kStatusNoMemory none)
  else
    let committedSize := virtualSize requestedAddress requestedSize
    if requestedAddress = 0 then
      let guestAddress := state.gNextVirtualAddress
      let state := { state with gNextVirtualAddress := guestAddress + committedSize }
      if exceedsDynamic guestAddress committedSize then
        state.enter thread (.guest kStatusNoMemory none)
      else
        { state with dynamicEnd := guestAddress.toNat + committedSize.toNat }.enter thread
          (.commitVirtual guestAddress committedSize)
    else state.enter thread (.commitVirtual (requestedAddress &&& ~~~0xFFF#32) committedSize)

/-- What an action does, when the thread is where it can be taken. A commit of an empty range
fails. -/
def step (state : Allocators τ) : Action τ → Option (Allocators τ)
  | .exAllocatePoolTypeWithTag thread r4 =>
    match state.phase thread with
    | .guest _ _ => some (state.exAllocatePoolTypeWithTag thread r4)
    | _ => none
  | .exFreePool thread r3 =>
    match state.phase thread with
    | .guest _ _ => some (state.exFreePool thread r3)
    | _ => none
  | .ntAllocateVirtualMemory thread requestedAddress requestedSize =>
    match state.phase thread with
    | .guest _ _ => some (state.ntAllocateVirtualMemory thread requestedAddress requestedSize)
    | _ => none
  | .virtualAlloc thread false =>
    match state.phase thread with
    | .commitPool _ _ => some (state.enter thread (.guest 0 none))
    | .commitVirtual _ _ => some (state.enter thread (.guest kStatusNoMemory none))
    | _ => none
  | .virtualAlloc thread true =>
    match state.phase thread with
    | .commitPool guestAddress committedSize =>
      if committedSize = 0 then none
      else
        some ({ state with live := range guestAddress committedSize :: state.live }.enter thread
          (.registerPool guestAddress committedSize))
    | .commitVirtual guestAddress committedSize =>
      if committedSize = 0 then none
      else
        some ({ state with live := range guestAddress committedSize :: state.live }.enter thread
          (.guest 0 (some (guestAddress, committedSize))))
    | _ => none
  | .finish thread =>
    match state.phase thread with
    | .registerPool guestAddress committedSize =>
      some ({ state with
        gPoolAllocations :=
          Function.update state.gPoolAllocations guestAddress (some committedSize) }.enter thread
        (.guest (guestAddress.setWidth 64) none))
    | .decommit r3 committedSize =>
      some ({ state with live := state.live.erase (range (r3.setWidth 32) committedSize) }.enter
        thread (.guest r3 none))
    | _ => none

end Allocators

/-! ## Addresses handed out -/

/-- Whether two regions have an address in common. -/
def Region.Meets (first second : Region) : Prop :=
  max first.start second.start < min (first.start + first.size) (second.start + second.size)

instance (first second : Region) : Decidable (first.Meets second) :=
  inferInstanceAs (Decidable (_ < _))

/-- A region that does not meet another one is apart from all parts of it, when one of the two
boundaries between them is that of a page. -/
theorem Region.apart_of_not_meets {first taken second : Region}
    (start : taken.start % kPageSize = 0)
    (boundary : first.start % kPageSize = 0 ∨ (taken.start + taken.size) % kPageSize = 0)
    (free : ¬ first.Meets taken) (above : taken.start ≤ second.start)
    (below : second.start + second.size ≤ taken.start + taken.size) : first.Apart second := by
  rw [Region.Meets] at free
  by_cases empty : first.size = 0
  · exact Region.apart_of_empty empty
  by_cases nothing : second.size = 0
  · exact (Region.apart_of_empty nothing).symm
  by_cases before : first.start + first.size ≤ taken.start
  · exact Region.apart_of_le start before above
  · have behind : taken.start + taken.size ≤ first.start := by omega
    rcases boundary with aligned | aligned
    · exact (Region.apart_of_le aligned (by omega) (Nat.le_refl _)).symm
    · exact (Region.apart_of_le aligned below behind).symm

/-- A range that passes the check of its allocator ends within the window. -/
theorem end_le_of_not_exceedsPool {guestAddress committedSize : BitVec 32}
    (passes : exceedsPool guestAddress committedSize = false) :
    guestAddress.toNat + committedSize.toNat ≤ kPoolLimit.toNat := by
  simp [exceedsPool, kPoolLimit] at passes ⊢
  bv_omega

theorem end_le_of_not_exceedsDynamic {guestAddress committedSize : BitVec 32}
    (passes : exceedsDynamic guestAddress committedSize = false) :
    guestAddress.toNat + committedSize.toNat ≤ kDynamicLimit.toNat := by
  simp [exceedsDynamic, kDynamicLimit] at passes ⊢
  bv_omega

/-- The page of kernel data. -/
def kernelData : Region := ⟨kKernelDataBase, kKernelDataSize⟩

/-- Whether a request for virtual memory leaves the address to the allocator. -/
def Action.AnyAddress {τ : Type} : Action τ → Prop
  | .ntAllocateVirtualMemory _ requestedAddress _ => requestedAddress = 0
  | _ => True

instance {τ : Type} : (action : Action τ) → Decidable action.AnyAddress
  | .ntAllocateVirtualMemory _ _ _ => inferInstanceAs (Decidable (_ = _))
  | .exAllocatePoolTypeWithTag _ _ | .exFreePool _ _ | .virtualAlloc _ _ | .finish _ =>
    inferInstanceAs (Decidable True)

namespace Allocators

variable {τ : Type}

/-- What the pool and the virtual memory have handed out so far. -/
def poolTaken (state : Allocators τ) : Region :=
  ⟨kPoolBase.toNat, state.poolEnd - kPoolBase.toNat⟩

def dynamicTaken (state : Allocators τ) : Region :=
  ⟨kDynamicBase.toNat, state.dynamicEnd - kDynamicBase.toNat⟩

/-- The cursor that a request moves does not wrap around, and when the request passes the check of
its allocator, the range at the cursor meets neither what the other allocator has handed out nor
the page of kernel data. -/
def Fits (state : Allocators τ) : Action τ → Prop
  | .exAllocatePoolTypeWithTag _ r4 =>
    state.gNextPoolAddress.toNat + (poolSize r4).toNat < 2 ^ 32 ∧
      (exceedsPool state.gNextPoolAddress (poolSize r4) = false →
        ¬ (range state.gNextPoolAddress (poolSize r4)).Meets state.dynamicTaken ∧
        ¬ (range state.gNextPoolAddress (poolSize r4)).Meets kernelData)
  | .ntAllocateVirtualMemory _ _ requestedSize =>
    requestedSize ≠ 0 →
      state.gNextVirtualAddress.toNat + (virtualSize 0 requestedSize).toNat < 2 ^ 32 ∧
      (exceedsDynamic state.gNextVirtualAddress (virtualSize 0 requestedSize) = false →
        ¬ (range state.gNextVirtualAddress (virtualSize 0 requestedSize)).Meets state.poolTaken)
  | _ => True

instance (state : Allocators τ) : (action : Action τ) → Decidable (state.Fits action)
  | .exAllocatePoolTypeWithTag _ _ => inferInstanceAs (Decidable (_ ∧ _))
  | .ntAllocateVirtualMemory _ _ _ => inferInstanceAs (Decidable (_ → _))
  | .exFreePool _ _ | .virtualAlloc _ _ | .finish _ => inferInstanceAs (Decidable True)

/-! ## What a step keeps -/

/-- What a thread is about to commit. -/
def pending (state : Allocators τ) (thread : τ) : Option Region := (state.phase thread).pending

/-- A region of the pool, or of the virtual memory. -/
inductive Placed (state : Allocators τ) (region : Region) : Prop where
  | pool (above : kPoolBase.toNat ≤ region.start)
      (below : region.start + region.size ≤ state.poolEnd) (clear : ¬ region.Meets kernelData)
  | dynamic (above : kDynamicBase.toNat ≤ region.start)
      (below : region.start + region.size ≤ state.dynamicEnd)

/-- The cursors are page boundaries behind what was handed out, every region is where its
allocator has handed out addresses, and the regions are apart from each other. -/
structure Disjoint (state : Allocators τ) : Prop where
  pool_aligned : state.gNextPoolAddress.toNat % kPageSize = 0
  dynamic_aligned : state.gNextVirtualAddress.toNat % kPageSize = 0
  pool_bounds : kPoolBase.toNat ≤ state.poolEnd ∧ state.poolEnd ≤ state.gNextPoolAddress.toNat ∧
    state.poolEnd ≤ kPoolLimit.toNat
  dynamic_bounds : kDynamicBase.toNat ≤ state.dynamicEnd ∧
    state.dynamicEnd ≤ state.gNextVirtualAddress.toNat ∧ state.dynamicEnd ≤ kDynamicLimit.toNat
  live_placed : ∀ region ∈ state.live, state.Placed region
  pending_placed : ∀ {thread region}, state.pending thread = some region → state.Placed region
  separated : Separated Region.Apart state.pending state.live

theorem Placed.mono {state state' : Allocators τ} {region : Region} (placed : state.Placed region)
    (pool : state.poolEnd ≤ state'.poolEnd) (dynamic : state.dynamicEnd ≤ state'.dynamicEnd) :
    state'.Placed region := by
  cases placed with
  | pool above below clear => exact .pool above (by omega) clear
  | dynamic above below => exact .dynamic above (by omega)

variable {state : Allocators τ}

namespace Disjoint

theorem initial : (Allocators.initial : Allocators τ).Disjoint where
  pool_aligned := show kPoolBase.toNat % kPageSize = 0 by decide
  dynamic_aligned := show kDynamicBase.toNat % kPageSize = 0 by decide
  pool_bounds := ⟨Nat.le_refl _, Nat.le_refl _, show kPoolBase.toNat ≤ kPoolLimit.toNat by decide⟩
  dynamic_bounds :=
    ⟨Nat.le_refl _, Nat.le_refl _, show kDynamicBase.toNat ≤ kDynamicLimit.toNat by decide⟩
  live_placed := by
    rintro _ ⟨⟩
  pending_placed := by
    rintro _ _ ⟨⟩
  separated := .empty

/-- The cursors move on. -/
theorem move (disjoint : state.Disjoint) {pool dynamic : BitVec 32}
    (poolAligned : pool.toNat % kPageSize = 0) (dynamicAligned : dynamic.toNat % kPageSize = 0)
    (poolUp : state.gNextPoolAddress.toNat ≤ pool.toNat)
    (dynamicUp : state.gNextVirtualAddress.toNat ≤ dynamic.toNat) :
    { state with gNextPoolAddress := pool, gNextVirtualAddress := dynamic }.Disjoint where
  pool_aligned := poolAligned
  dynamic_aligned := dynamicAligned
  pool_bounds :=
    ⟨disjoint.pool_bounds.1, Nat.le_trans disjoint.pool_bounds.2.1 poolUp, disjoint.pool_bounds.2.2⟩
  dynamic_bounds :=
    ⟨disjoint.dynamic_bounds.1, Nat.le_trans disjoint.dynamic_bounds.2.1 dynamicUp,
      disjoint.dynamic_bounds.2.2⟩
  live_placed region inside :=
    (disjoint.live_placed region inside).mono (Nat.le_refl _) (Nat.le_refl _)
  pending_placed found := (disjoint.pending_placed found).mono (Nat.le_refl _) (Nat.le_refl _)
  separated := disjoint.separated

end Disjoint

variable [DecidableEq τ]

theorem pending_enter (thread : τ) (phase : Phase) :
    (state.enter thread phase).pending = Function.update state.pending thread phase.pending := by
  ext1 other
  by_cases same : other = thread
  · subst same
    simp [pending, enter]
  · simp [pending, enter, Function.update_of_ne same]

namespace Disjoint

/-- A thread goes on to where it commits nothing. -/
theorem leave (disjoint : state.Disjoint) {allocations : BitVec 32 → Option (BitVec 32)}
    {live : List Region} {thread : τ} {phase : Phase} (idle : phase.pending = none)
    (sublist : live.Sublist state.live) :
    ({ state with gPoolAllocations := allocations, live := live }.enter thread phase).Disjoint where
  pool_aligned := disjoint.pool_aligned
  dynamic_aligned := disjoint.dynamic_aligned
  pool_bounds := disjoint.pool_bounds
  dynamic_bounds := disjoint.dynamic_bounds
  live_placed region inside :=
    (disjoint.live_placed region (sublist.subset inside)).mono (Nat.le_refl _) (Nat.le_refl _)
  pending_placed := by
    intro other region found
    rw [pending_enter, idle] at found
    by_cases same : other = thread
    · subst same
      simp at found
    · rw [Function.update_of_ne same] at found
      have placed := @disjoint.pending_placed other region found
      exact placed.mono (Nat.le_refl _) (Nat.le_refl _)
  separated := by
    rw [pending_enter, idle]
    exact (disjoint.separated.remove sublist).release thread

/-- A thread has committed its range. -/
theorem commit (disjoint : state.Disjoint) {region : Region} {thread : τ} {phase : Phase}
    (holds : state.pending thread = some region) (idle : phase.pending = none) :
    ({ state with live := region :: state.live }.enter thread phase).Disjoint := by
  have left : (state.enter thread phase).Disjoint := disjoint.leave idle (List.Sublist.refl _)
  constructor
  · exact left.pool_aligned
  · exact left.dynamic_aligned
  · exact left.pool_bounds
  · exact left.dynamic_bounds
  · intro entry inside
    rcases List.mem_cons.mp inside with rfl | inside
    · exact (disjoint.pending_placed holds).mono (Nat.le_refl _) (Nat.le_refl _)
    · exact (disjoint.live_placed entry inside).mono (Nat.le_refl _) (Nat.le_refl _)
  · intro other entry found
    exact (@left.pending_placed other entry found).mono (Nat.le_refl _) (Nat.le_refl _)
  · rw [pending_enter, idle]
    exact disjoint.separated.publish Region.Apart.symm holds

/-- A thread is handed a range that is apart from every place where the others are. -/
theorem hold (disjoint : state.Disjoint) {poolEnd dynamicEnd : Nat} {thread : τ} {phase : Phase}
    {region : Region} (poolUp : state.poolEnd ≤ poolEnd) (dynamicUp : state.dynamicEnd ≤ dynamicEnd)
    (poolBounds : poolEnd ≤ state.gNextPoolAddress.toNat ∧ poolEnd ≤ kPoolLimit.toNat)
    (dynamicBounds : dynamicEnd ≤ state.gNextVirtualAddress.toNat ∧
      dynamicEnd ≤ kDynamicLimit.toNat)
    (holds : phase.pending = some region)
    (placed : { state with poolEnd := poolEnd, dynamicEnd := dynamicEnd }.Placed region)
    (apart : ∀ other, state.Placed other → region.Apart other) :
    ({ state with poolEnd := poolEnd, dynamicEnd := dynamicEnd }.enter thread phase).Disjoint where
  pool_aligned := disjoint.pool_aligned
  dynamic_aligned := disjoint.dynamic_aligned
  pool_bounds := ⟨Nat.le_trans disjoint.pool_bounds.1 poolUp, poolBounds⟩
  dynamic_bounds := ⟨Nat.le_trans disjoint.dynamic_bounds.1 dynamicUp, dynamicBounds⟩
  live_placed other inside := (disjoint.live_placed other inside).mono poolUp dynamicUp
  pending_placed := by
    intro thread' other found
    rw [pending_enter, holds] at found
    by_cases same : thread' = thread
    · subst same
      rw [Function.update_self] at found
      cases found
      exact placed.mono (Nat.le_refl _) (Nat.le_refl _)
    · rw [Function.update_of_ne same] at found
      exact (@disjoint.pending_placed thread' other found).mono poolUp dynamicUp
  separated := by
    rw [pending_enter, holds]
    apply disjoint.separated.acquire Region.Apart.symm
    · intro other inside
      exact apart other (disjoint.live_placed other inside)
    · intro thread' other _ found
      exact apart other (disjoint.pending_placed found)

/-- A request to the pool. -/
theorem allocatePool (disjoint : state.Disjoint) {thread : τ} {r4 : BitVec 32}
    (below : state.gNextPoolAddress.toNat + (poolSize r4).toNat < 2 ^ 32)
    (free : exceedsPool state.gNextPoolAddress (poolSize r4) = false →
      ¬ (range state.gNextPoolAddress (poolSize r4)).Meets state.dynamicTaken ∧
      ¬ (range state.gNextPoolAddress (poolSize r4)).Meets kernelData) :
    (state.exAllocatePoolTypeWithTag thread r4).Disjoint := by
  have aligned : (poolSize r4).toNat % kPageSize = 0 := roundToPage_aligned _
  have cursor := disjoint.pool_aligned
  have bounds := disjoint.pool_bounds
  have next : (state.gNextPoolAddress + poolSize r4).toNat =
      state.gNextPoolAddress.toNat + (poolSize r4).toNat := by
    rw [BitVec.toNat_add, Nat.mod_eq_of_lt below]
  have moved : { state with gNextPoolAddress := state.gNextPoolAddress + poolSize r4 }.Disjoint := by
    apply disjoint.move
    · rw [next, Nat.add_mod, cursor, aligned, Nat.add_zero, Nat.zero_mod]
    · exact disjoint.dynamic_aligned
    · omega
    · exact Nat.le_refl _
  rw [exAllocatePoolTypeWithTag]
  cases refused : exceedsPool state.gNextPoolAddress (poolSize r4) with
  | true => exact moved.leave rfl (List.Sublist.refl _)
  | false =>
      obtain ⟨dynamic, kernel⟩ := free refused
      have inside := end_le_of_not_exceedsPool refused
      have low : kPoolBase.toNat ≤ state.gNextPoolAddress.toNat := by omega
      apply @hold _ _ _ moved _ state.dynamicEnd thread _
        (range state.gNextPoolAddress (poolSize r4))
      · exact Nat.le_trans bounds.2.1 (Nat.le_add_right _ _)
      · exact Nat.le_refl _
      · exact ⟨Nat.le_of_eq next.symm, inside⟩
      · exact disjoint.dynamic_bounds.2
      · rfl
      · exact .pool low (Nat.le_refl _) kernel
      · intro other place
        cases place with
        | pool above below' _ =>
            have behind : other.start + other.size ≤ state.gNextPoolAddress.toNat :=
              Nat.le_trans below' bounds.2.1
            exact (Region.apart_of_le cursor behind (Nat.le_refl _)).symm
        | dynamic above below' =>
            have taken : kDynamicBase.toNat + (state.dynamicEnd - kDynamicBase.toNat) =
                state.dynamicEnd := Nat.add_sub_cancel' disjoint.dynamic_bounds.1
            exact Region.apart_of_not_meets (show kDynamicBase.toNat % kPageSize = 0 by decide)
              (.inl cursor) dynamic above (Nat.le_trans below' (Nat.le_of_eq taken.symm))

/-- A request for virtual memory. -/
theorem allocateVirtual (disjoint : state.Disjoint) {thread : τ} {requestedSize : BitVec 32}
    (fits : requestedSize ≠ 0 →
      state.gNextVirtualAddress.toNat + (virtualSize 0 requestedSize).toNat < 2 ^ 32 ∧
      (exceedsDynamic state.gNextVirtualAddress (virtualSize 0 requestedSize) = false →
        ¬ (range state.gNextVirtualAddress (virtualSize 0 requestedSize)).Meets state.poolTaken)) :
    (state.ntAllocateVirtualMemory thread 0 requestedSize).Disjoint := by
  rw [ntAllocateVirtualMemory]
  by_cases zero : requestedSize = 0
  · rw [if_pos zero]
    exact disjoint.leave rfl (List.Sublist.refl _)
  rw [if_neg zero, if_pos rfl]
  obtain ⟨below, free⟩ := fits zero
  have aligned : (virtualSize 0 requestedSize).toNat % kPageSize = 0 := roundToPage_aligned _
  have cursor := disjoint.dynamic_aligned
  have bounds := disjoint.dynamic_bounds
  have next : (state.gNextVirtualAddress + virtualSize 0 requestedSize).toNat =
      state.gNextVirtualAddress.toNat + (virtualSize 0 requestedSize).toNat := by
    rw [BitVec.toNat_add, Nat.mod_eq_of_lt below]
  have moved : { state with
      gNextVirtualAddress := state.gNextVirtualAddress + virtualSize 0 requestedSize }.Disjoint := by
    apply disjoint.move
    · exact disjoint.pool_aligned
    · rw [next, Nat.add_mod, cursor, aligned, Nat.add_zero, Nat.zero_mod]
    · exact Nat.le_refl _
    · omega
  dsimp only
  cases refused : exceedsDynamic state.gNextVirtualAddress (virtualSize 0 requestedSize) with
  | true => exact moved.leave rfl (List.Sublist.refl _)
  | false =>
      have inside := end_le_of_not_exceedsDynamic refused
      have low : kDynamicBase.toNat ≤ state.gNextVirtualAddress.toNat := by omega
      apply @hold _ _ _ moved state.poolEnd _ thread _
        (range state.gNextVirtualAddress (virtualSize 0 requestedSize))
      · exact Nat.le_refl _
      · exact Nat.le_trans bounds.2.1 (Nat.le_add_right _ _)
      · exact disjoint.pool_bounds.2
      · exact ⟨Nat.le_of_eq next.symm, inside⟩
      · rfl
      · exact .dynamic low (Nat.le_refl _)
      · intro other place
        cases place with
        | dynamic above below' =>
            have behind : other.start + other.size ≤ state.gNextVirtualAddress.toNat :=
              Nat.le_trans below' bounds.2.1
            exact (Region.apart_of_le cursor behind (Nat.le_refl _)).symm
        | pool above below' _ =>
            have taken : kPoolBase.toNat + (state.poolEnd - kPoolBase.toNat) = state.poolEnd :=
              Nat.add_sub_cancel' disjoint.pool_bounds.1
            exact Region.apart_of_not_meets (show kPoolBase.toNat % kPageSize = 0 by decide)
              (.inl cursor) (free refused) above (Nat.le_trans below' (Nat.le_of_eq taken.symm))

/-- A step whose request fits. -/
theorem step (disjoint : state.Disjoint) {action : Action τ} {next : Allocators τ}
    (address : action.AnyAddress) (fits : state.Fits action) (taken : state.step action = some next) :
    next.Disjoint := by
  cases action with
  | exAllocatePoolTypeWithTag thread r4 =>
      simp only [Allocators.step] at taken
      split at taken
      next =>
        cases taken
        exact disjoint.allocatePool fits.1 fits.2
      next => cases taken
  | ntAllocateVirtualMemory thread requestedAddress requestedSize =>
      obtain rfl : requestedAddress = 0 := address
      simp only [Allocators.step] at taken
      split at taken
      next =>
        cases taken
        exact disjoint.allocateVirtual fits
      next => cases taken
  | exFreePool thread r3 =>
      simp only [Allocators.step, exFreePool] at taken
      split at taken
      next =>
        split at taken
        next =>
          cases taken
          exact disjoint.leave rfl (List.Sublist.refl _)
        next =>
          cases taken
          exact disjoint.leave rfl (List.Sublist.refl _)
      next => cases taken
  | finish thread =>
      simp only [Allocators.step] at taken
      split at taken
      next =>
        cases taken
        exact disjoint.leave rfl (List.Sublist.refl _)
      next =>
        cases taken
        exact disjoint.leave rfl List.erase_sublist
      next => cases taken
  | virtualAlloc thread succeeds =>
      cases succeeds with
      | false =>
          simp only [Allocators.step] at taken
          split at taken
          next =>
            cases taken
            exact disjoint.leave rfl (List.Sublist.refl _)
          next =>
            cases taken
            exact disjoint.leave rfl (List.Sublist.refl _)
          next => cases taken
      | true =>
          simp only [Allocators.step] at taken
          split at taken
          next at_ =>
            split at taken
            next => cases taken
            next =>
              cases taken
              exact disjoint.commit (by rw [pending, at_]; rfl) rfl
          next at_ =>
            split at taken
            next => cases taken
            next =>
              cases taken
              exact disjoint.commit (by rw [pending, at_]; rfl) rfl
          next => cases taken

end Disjoint

end Allocators

/-- The regions that are placed do not touch what the runtime committed at its start, when the
image is not below the end of the pool's window. -/
theorem Allocators.Placed.apart {τ : Type} {state : Allocators τ} {region fixed : Region}
    {config : PpcConfig} (placed : state.Placed region) (disjoint : state.Disjoint)
    (above : kPoolLimit.toNat ≤ config.imageBase) (committed : fixed ∈ config.regions) :
    region.Apart fixed := by
  have limit : region.start + region.size ≤ kPoolLimit.toNat := by
    have pool := disjoint.pool_bounds
    have dynamic := disjoint.dynamic_bounds
    have limits : kDynamicLimit.toNat ≤ kPoolLimit.toNat := by decide
    cases placed with
    | pool above below clear => omega
    | dynamic above below => omega
  have aligned : kPoolLimit.toNat % kPageSize = 0 := by decide
  simp only [PpcConfig.regions, List.mem_cons, List.not_mem_nil, or_false] at committed
  rcases committed with rfl | rfl | rfl | rfl
  · exact Region.apart_of_le aligned limit above
  · exact Region.apart_of_le aligned limit (Nat.le_trans above (Nat.le_add_right _ _))
  · exact Region.apart_of_le aligned limit (by decide)
  · cases placed with
    | pool _ _ clear =>
        exact Region.apart_of_not_meets (by decide) (.inr (by decide)) clear (Nat.le_refl _)
          (Nat.le_refl _)
    | dynamic _ below =>
        have window : kDynamicLimit.toNat ≤ kKernelDataBase := by decide
        exact @Region.apart_of_le region kernelData kKernelDataBase (by decide)
          (Nat.le_trans below (Nat.le_trans disjoint.dynamic_bounds.2.2 window)) (Nat.le_refl _)

/-- In every run whose requests fit, the pages of the allocations are disjoint from each other and
from those of the image, the function table, the stack and the kernel data. -/
theorem live_apart {τ : Type} [DecidableEq τ] {config : PpcConfig} {state : Allocators τ}
    (above : kPoolLimit.toNat ≤ config.imageBase)
    (reach : Reach Allocators.step (fun state action => action.AnyAddress ∧ state.Fits action)
      Allocators.initial state) :
    state.live.Pairwise Region.Apart ∧
      ∀ region ∈ state.live, ∀ fixed ∈ config.regions, region.Apart fixed := by
  have disjoint : state.Disjoint := reach.invariant Allocators.Disjoint.initial
    fun disjoint ⟨address, fits⟩ taken => disjoint.step address fits taken
  constructor
  · exact disjoint.separated.listed
  · intro region inside fixed committed
    exact (disjoint.live_placed region inside).apart disjoint above committed

/-- A thread allocates a page from the pool, frees it and allocates more, and in between another one
allocates virtual memory. -/
theorem live_apart_afterFree :
    ∃ state : Allocators Bool,
      state.live = [range 0x10001000 0x5000, range 0x20000000 0x3000] ∧
      state.live.Pairwise Region.Apart ∧
      ∀ region ∈ state.live, ∀ fixed ∈ PpcConfig.regions
        ⟨0x82000000, 0x1000, 0x82000000, 0x1000, by decide, by decide⟩, region.Apart fixed := by
  have run : (takeAll Allocators.step (fun state action => action.AnyAddress ∧ state.Fits action)
      [.exAllocatePoolTypeWithTag true 0x20, .virtualAlloc true true, .finish true,
        .exFreePool true 0x10000000, .ntAllocateVirtualMemory false 0 0x2001, .finish true,
        .exAllocatePoolTypeWithTag true 0x4FFF, .virtualAlloc false true, .virtualAlloc true true]
      Allocators.initial).map Allocators.live =
      some [range 0x10001000 0x5000, range 0x20000000 0x3000] := by decide
  obtain ⟨state, taken, live⟩ := Option.map_eq_some_iff.mp run
  exact ⟨state, live, @live_apart Bool _ ⟨0x82000000, 0x1000, 0x82000000, 0x1000, by decide,
    by decide⟩ state (by decide) (reach_of_takeAll taken)⟩

/-- The pool comes to the window of the virtual memory, and both allocate the same page. -/
theorem not_live_apart :
    ∃ state : Allocators Bool,
      Reach Allocators.step (fun _ action => action.AnyAddress) Allocators.initial state ∧
      state.phase true = .guest 0x20000000 none ∧
      state.phase false = .guest 0 (some (0x20000000, 0x1000)) ∧
      ¬ state.live.Pairwise Region.Apart := by
  have run : (takeAll Allocators.step (fun _ action => action.AnyAddress)
      [.exAllocatePoolTypeWithTag true 0x10000000, .virtualAlloc true true, .finish true,
        .exAllocatePoolTypeWithTag true 0x1000, .virtualAlloc true true, .finish true,
        .ntAllocateVirtualMemory false 0 0x1000, .virtualAlloc false true]
      Allocators.initial).map
        (fun state : Allocators Bool => (state.phase true, state.phase false, state.live)) =
      some (.guest 0x20000000 none, .guest 0 (some (0x20000000, 0x1000)),
        [range 0x20000000 0x1000, range 0x20000000 0x1000, range 0x10000000 0x10000000]) := by
    decide
  obtain ⟨state, taken, same⟩ := Option.map_eq_some_iff.mp run
  simp only [Prod.mk.injEq] at same
  obtain ⟨first, second, live⟩ := same
  refine ⟨state, reach_of_takeAll taken, first, second, fun pairwise => ?_⟩
  rw [live] at pairwise
  have apart := List.rel_of_pairwise_cons pairwise (List.mem_cons_self ..)
  have page : (range 0x20000000 0x1000).HoldsPage 0x20000 :=
    ⟨0x20000000, by simp [Region.Holds, range], by simp [kPageSize]⟩
  exact apart 0x20000 ⟨page, page⟩

end UfcRecomp.Native
