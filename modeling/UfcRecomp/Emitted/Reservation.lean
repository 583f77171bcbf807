import UfcRecomp.Emitted.Register
import UfcRecomp.Lib.Transition

/-!
# Reservations

A guest thread updates a shared word by a load that keeps the raw word in `reserved`, a
computation, and a conditional store: a comparison of the word in memory with `reserved`, and an
exchange when they are the same, in one atomic action. The comparison sees only the value, so a
word that was changed and changed back passes it; an update is lost only if it computed its value
from another one than it replaces.
-/

namespace UfcRecomp.Emitted

open UfcRecomp.Lib

/-- `lwarx` and `stwcx.`, or `ldarx` and `stdcx.`. -/
inductive ReservationWidth where
  | word
  | doubleword
  deriving DecidableEq

/-- The size of the shared word. -/
abbrev ReservationWidth.bytes : ReservationWidth → Nat
  | .word => 4
  | .doubleword => 8

/-- `PPCCRRegister`. -/
structure PpcCrRegister where
  lt : BitVec 8
  gt : BitVec 8
  eq : BitVec 8
  so : BitVec 8

variable {width : ReservationWidth} {τ : Type}

/-- A value of the shared word. -/
abbrev ReservationWidth.Value (width : ReservationWidth) := BitVec (8 * width.bytes)

/-- What a thread has done since its last load: the value that was loaded, and the registers as
they follow from a loaded value. -/
structure Attempt (width : ReservationWidth) where
  loaded : width.Value
  registers : width.Value → Registers

/-- A guest thread. -/
structure GuestThread (width : ReservationWidth) where
  registers : Registers
  reserved : PpcRegister
  cr0 : PpcCrRegister
  xerSo : BitVec 8
  attempt : Option (Attempt width)

/-- The threads and the memory that they share. -/
structure Machine (τ : Type) (width : ReservationWidth) where
  memory : Memory
  thread : τ → GuestThread width
  /-- The updates whose stores were made, in their order. -/
  updates : List (width.Value → width.Value)

/-- What is executed next. -/
inductive ReservationAction (τ : Type) where
  | loadReserve (thread : τ) (rD : Nat)
  | compute (thread : τ) (computation : Registers → Registers)
  | storeConditional (thread : τ) (rS : Nat)
  /-- Any other store. -/
  | store (start : Nat) (bytes : Bytes)

/-- `lwarx` and `ldarx`. -/
def GuestThread.loadReserve (thread : GuestThread width) (memory : Memory) (address rD : Nat) :
    GuestThread width :=
  let reserved := thread.reserved.setUnsigned (hostLoad memory address width.bytes)
  let value : width.Value → PpcRegister := fun loaded => ⟨loaded.setWidth 64⟩
  { thread with
    reserved := reserved
    registers := Function.update thread.registers rD
      (value (bswap (reserved.unsigned (8 * width.bytes))))
    attempt := some ⟨guestLoad memory address width.bytes,
      fun loaded => Function.update thread.registers rD (value loaded)⟩ }

/-- Statements on the registers of a thread. -/
def GuestThread.compute (thread : GuestThread width) (computation : Registers → Registers) :
    GuestThread width :=
  { thread with
    registers := computation thread.registers
    attempt := thread.attempt.map fun attempt =>
      { attempt with registers := fun loaded => computation (attempt.registers loaded) } }

/-- `__sync_bool_compare_and_swap`. -/
def compareAndSwap (memory : Memory) (address : Nat) {count : Nat} (old new : BitVec (8 * count)) :
    Bool × Memory :=
  if hostLoad memory address count = old then (true, hostStore memory address count new)
  else (false, memory)

/-- The exchange of `stwcx.` and `stdcx.`; its arguments are signed members. -/
def GuestThread.exchange (thread : GuestThread width) (memory : Memory) (address rS : Nat) :
    Bool × Memory :=
  compareAndSwap memory address
    (BitVec.ofInt (8 * width.bytes) (thread.reserved.signed (8 * width.bytes)))
    (bswap (BitVec.ofInt (8 * width.bytes) ((thread.registers rS).signed (8 * width.bytes))))

/-- The condition register after the exchange. -/
def GuestThread.afterExchange (thread : GuestThread width) (exchanged : Bool) :
    GuestThread width :=
  { thread with
    cr0 := ⟨0, 0, if exchanged then 1 else 0, thread.xerSo⟩
    attempt := none }

/-- The update of the shared word that an attempt stands for. -/
def Attempt.update (attempt : Attempt width) (rS : Nat) (value : width.Value) : width.Value :=
  (attempt.registers value rS).unsigned (8 * width.bytes)

/-- The threads execute one action. A conditional store follows a load. -/
def Machine.step [DecidableEq τ] (address : Nat) (machine : Machine τ width) :
    ReservationAction τ → Option (Machine τ width)
  | .loadReserve thread rD =>
    some { machine with
      thread := Function.update machine.thread thread
        ((machine.thread thread).loadReserve machine.memory address rD) }
  | .compute thread computation =>
    some { machine with
      thread := Function.update machine.thread thread
        ((machine.thread thread).compute computation) }
  | .storeConditional thread rS =>
    match (machine.thread thread).attempt with
    | none => none
    | some attempt =>
      let result := (machine.thread thread).exchange machine.memory address rS
      some {
        memory := result.2
        thread := Function.update machine.thread thread
          ((machine.thread thread).afterExchange result.1)
        updates := if result.1 then machine.updates ++ [attempt.update rS] else machine.updates }
  | .store start bytes => some { machine with memory := machine.memory.store start bytes }

/-- Other stores do not write to the shared word. -/
def ReservationAction.Apart (address : Nat) (width : ReservationWidth) :
    ReservationAction τ → Prop
  | .store start bytes => address + width.bytes ≤ start ∨ start + bytes.length ≤ address
  | _ => True

/-! ## No update is lost -/

/-- The registers of a thread follow from the value that it loaded, which is the one in
`reserved`. -/
structure GuestThread.Computes (thread : GuestThread width) : Prop where
  registers : ∀ attempt, thread.attempt = some attempt →
    thread.registers = attempt.registers attempt.loaded
  reserved : ∀ attempt, thread.attempt = some attempt →
    bswap (thread.reserved.unsigned (8 * width.bytes)) = attempt.loaded

namespace GuestThread

variable {thread : GuestThread width} {memory : Memory} {address : Nat}

theorem computes_of_idle (idle : thread.attempt = none) : thread.Computes where
  registers attempt found := by rw [idle] at found; cases found
  reserved attempt found := by rw [idle] at found; cases found

theorem unsigned_reserved (rD : Nat) :
    (thread.loadReserve memory address rD).reserved.unsigned (8 * width.bytes) =
      hostLoad memory address width.bytes :=
  PpcRegister.unsigned_setUnsigned _ _ (by cases width <;> decide)

/-- A load puts the guest value of the word into its register. -/
theorem registers_loadReserve (rD : Nat) :
    (thread.loadReserve memory address rD).registers = Function.update thread.registers rD
      ⟨(guestLoad memory address width.bytes).setWidth 64⟩ := by
  have value := @unsigned_reserved width thread memory address rD
  simp only [loadReserve] at value ⊢
  rw [value, bswap_hostLoad]

theorem computes_loadReserve (rD : Nat) : (thread.loadReserve memory address rD).Computes where
  registers := by
    rintro _ ⟨⟩
    exact registers_loadReserve rD
  reserved := by
    rintro _ ⟨⟩
    rw [unsigned_reserved, bswap_hostLoad]

theorem Computes.compute (computes : thread.Computes) (computation : Registers → Registers) :
    (thread.compute computation).Computes where
  registers := by
    intro attempt found
    obtain ⟨before, same, rfl⟩ := Option.map_eq_some_iff.mp found
    change computation thread.registers = computation (before.registers before.loaded)
    rw [computes.registers before same]
  reserved := by
    intro attempt found
    obtain ⟨before, same, rfl⟩ := Option.map_eq_some_iff.mp found
    exact computes.reserved before same

/-- An exchange that is made replaces the loaded value by the computed one. -/
theorem Computes.exchanged (computes : thread.Computes) {attempt : Attempt width}
    (since : thread.attempt = some attempt) {rS : Nat}
    (made : (thread.exchange memory address rS).1 = true) :
    guestLoad memory address width.bytes = attempt.loaded ∧
      (thread.exchange memory address rS).2 = memory.store address
        (Bytes.encode width.bytes ((thread.registers rS).unsigned (8 * width.bytes)).toNat) ∧
      guestLoad (thread.exchange memory address rS).2 address width.bytes =
        attempt.update rS attempt.loaded := by
  simp only [exchange, compareAndSwap, PpcRegister.ofInt_signed] at made ⊢
  split at made
  next same =>
    rw [if_pos same]
    refine ⟨?_, ?_, ?_⟩
    · rw [← computes.reserved attempt since, ← same, bswap_hostLoad]
    · simp only [hostStore]
      rw [hostBytes_bswap]
    · simp only
      rw [guestLoad_hostStore, Attempt.update, ← computes.registers attempt since]
  next => cases made

theorem exchange_not_made {rS : Nat} (notMade : (thread.exchange memory address rS).1 = false) :
    (thread.exchange memory address rS).2 = memory := by
  simp only [exchange, compareAndSwap] at notMade ⊢
  split at notMade
  next => cases notMade
  next different => rw [if_neg different]

end GuestThread

/-- Every thread computes from what it loaded, and the shared word is the result of the updates. -/
structure Machine.Updated (address : Nat) (first : width.Value) (machine : Machine τ width) :
    Prop where
  computes : ∀ thread, (machine.thread thread).Computes
  value : guestLoad machine.memory address width.bytes =
    machine.updates.foldl (fun value update => update value) first

variable [DecidableEq τ]

theorem Machine.Updated.step {address : Nat} {first : width.Value} {machine next : Machine τ width}
    {action : ReservationAction τ} (updated : machine.Updated address first)
    (apart : action.Apart address width) (taken : machine.step address action = some next) :
    next.Updated address first := by
  have others {thread : τ} {after : GuestThread width} (computes : after.Computes) :
      ∀ other, (Function.update machine.thread thread after other).Computes := by
    intro other
    by_cases same : other = thread
    · subst same
      rwa [Function.update_self]
    · rw [Function.update_of_ne same]
      exact updated.computes other
  cases action with
  | loadReserve thread rD =>
      cases taken
      exact ⟨others (GuestThread.computes_loadReserve rD), updated.value⟩
  | compute thread computation =>
      cases taken
      exact ⟨others ((updated.computes thread).compute computation), updated.value⟩
  | store start bytes =>
      cases taken
      constructor
      · exact updated.computes
      · rw [← updated.value, guestLoad, guestLoad, Memory.load_store_of_disjoint]
        exact apart
  | storeConditional thread rS =>
      rw [Machine.step] at taken
      split at taken
      next => cases taken
      next attempt since =>
        cases taken
        constructor
        · exact others (GuestThread.computes_of_idle rfl)
        · cases made : ((machine.thread thread).exchange machine.memory address rS).1 with
          | true =>
              obtain ⟨loaded, _, stored⟩ := (updated.computes thread).exchanged since made
              simp only [if_true, List.foldl_append, List.foldl_cons, List.foldl_nil]
              rw [stored, ← updated.value, loaded]
          | false =>
              simp only [Bool.false_eq_true, if_false]
              rw [GuestThread.exchange_not_made made]
              exact updated.value

/-- Before its first load a thread has no attempt, and no updates have been made. -/
structure Machine.Fresh (machine : Machine τ width) : Prop where
  idle : ∀ thread, (machine.thread thread).attempt = none
  updates : machine.updates = []

/-- Increments add their number. -/
theorem foldl_increments {bits : Nat} {updates : List (BitVec bits → BitVec bits)}
    (increments : ∀ update ∈ updates, ∀ value, update value = value + 1) (first : BitVec bits) :
    updates.foldl (fun value update => update value) first =
      first + BitVec.ofNat bits updates.length := by
  induction updates generalizing first with
  | nil => simp
  | cons update rest ih =>
      have later := ih (fun other inside => increments other (by simp [inside])) (first + 1)
      have one := increments update (by simp) first
      rw [List.foldl_cons, one, later, List.length_cons, BitVec.add_assoc]
      congr 1
      apply BitVec.eq_of_toNat_eq
      simp [BitVec.toNat_add, Nat.add_comm]

/-- In every interleaving, a load puts the guest value of the word into its register, the raw word
into `reserved` and starts an attempt with that value, which the computations of the thread keep;
a conditional store that sets `eq` replaces the value that its thread loaded by the encoding of the
value that it computed, one that clears `eq` leaves the memory as it is; and the shared word is the
result of the updates that were made, one after the other. -/
theorem no_lost_update {address : Nat} {first machine : Machine τ width} (fresh : first.Fresh)
    (reach : Reach (Machine.step address) (fun _ action => action.Apart address width) first
      machine) :
    guestLoad machine.memory address width.bytes =
      machine.updates.foldl (fun value update => update value)
        (guestLoad first.memory address width.bytes) ∧
    ((∀ update ∈ machine.updates, ∀ value, update value = value + 1) →
      guestLoad machine.memory address width.bytes =
        guestLoad first.memory address width.bytes + BitVec.ofNat _ machine.updates.length) ∧
    (∀ thread rD next, machine.step address (.loadReserve thread rD) = some next →
      (next.thread thread).registers = Function.update (machine.thread thread).registers rD
        ⟨(guestLoad machine.memory address width.bytes).setWidth 64⟩ ∧
      (next.thread thread).reserved.unsigned (8 * width.bytes) =
        hostLoad machine.memory address width.bytes ∧
      (next.thread thread).attempt.map Attempt.loaded =
        some (guestLoad machine.memory address width.bytes) ∧
      next.memory = machine.memory ∧ next.updates = machine.updates) ∧
    (∀ thread computation next, machine.step address (.compute thread computation) = some next →
      (next.thread thread).registers = computation (machine.thread thread).registers ∧
      (next.thread thread).reserved = (machine.thread thread).reserved ∧
      (next.thread thread).attempt.map Attempt.loaded =
        (machine.thread thread).attempt.map Attempt.loaded ∧
      next.memory = machine.memory ∧ next.updates = machine.updates) ∧
    ∀ thread rS next, machine.step address (.storeConditional thread rS) = some next →
      ∃ attempt, (machine.thread thread).attempt = some attempt ∧
        attempt.update rS attempt.loaded =
          ((machine.thread thread).registers rS).unsigned (8 * width.bytes) ∧
        ((next.thread thread).cr0.eq ≠ 0 →
          guestLoad machine.memory address width.bytes = attempt.loaded ∧
          next.memory = machine.memory.store address (Bytes.encode width.bytes
            (((machine.thread thread).registers rS).unsigned (8 * width.bytes)).toNat) ∧
          next.updates = machine.updates ++ [attempt.update rS]) ∧
        ((next.thread thread).cr0.eq = 0 →
          next.memory = machine.memory ∧ next.updates = machine.updates) := by
  have updated : machine.Updated address (guestLoad first.memory address width.bytes) := by
    apply reach.invariant
    · refine ⟨fun thread => GuestThread.computes_of_idle (fresh.idle thread), ?_⟩
      rw [fresh.updates, List.foldl_nil]
    · intro _ _ _ updated apart taken
      exact updated.step apart taken
  refine ⟨updated.value, ?_, ?_, ?_, ?_⟩
  · intro increments
    rw [updated.value, foldl_increments increments]
  · intro thread rD next taken
    cases taken
    dsimp only
    rw [Function.update_self]
    exact ⟨GuestThread.registers_loadReserve rD, GuestThread.unsigned_reserved rD, rfl, rfl, rfl⟩
  · intro thread computation next taken
    cases taken
    dsimp only
    rw [Function.update_self, GuestThread.compute, Option.map_map]
    exact ⟨rfl, rfl, rfl, rfl, rfl⟩
  · intro thread rS next taken
    rw [Machine.step] at taken
    split at taken
    next => cases taken
    next attempt since =>
      cases taken
      refine ⟨attempt, since, ?_, ?_⟩
      · rw [Attempt.update, ← (updated.computes thread).registers attempt since]
      simp only [Function.update_self, GuestThread.afterExchange]
      cases made : ((machine.thread thread).exchange machine.memory address rS).1 with
      | true =>
          obtain ⟨loaded, stored, _⟩ := (updated.computes thread).exchanged since made
          exact ⟨fun _ => ⟨loaded, stored, rfl⟩, fun zero => absurd zero (by decide)⟩
      | false =>
          exact ⟨fun one => absurd rfl one, fun _ => ⟨GuestThread.exchange_not_made made, rfl⟩⟩

/-- Two threads that are both about to add one to a word that is zero. -/
def twoCounters : Machine Bool .word where
  memory := .zeroed
  thread _ := ⟨fun _ => ⟨0⟩, ⟨0⟩, ⟨0, 0, 0, 0⟩, 0, none⟩
  updates := []

/-- `addi` of one to the register `r11`. -/
def addOne (registers : Registers) : Registers :=
  Function.update registers 11 ⟨(registers 11).u64 + 1⟩

instance (address : Nat) (width : ReservationWidth) :
    (action : ReservationAction τ) → Decidable (action.Apart address width)
  | .store _ _ => inferInstanceAs (Decidable (_ ∨ _))
  | .loadReserve _ _ | .compute _ _ | .storeConditional _ _ => inferInstanceAs (Decidable True)

/-- Both threads load before either of them stores; the second one has to try again. -/
theorem no_lost_update_twoCounters :
    ∃ machine : Machine Bool .word, guestLoad machine.memory 0x1000 4 = 2 ∧
      machine.updates.foldl (fun value update => update value) 0 = 2 := by
  have run : (takeAll (Machine.step 0x1000) (fun _ action => action.Apart 0x1000 .word)
      [.loadReserve true 11, .loadReserve false 11, .compute true addOne, .compute false addOne,
        .storeConditional true 11, .storeConditional false 11, .loadReserve false 11,
        .compute false addOne, .storeConditional false 11] twoCounters).map
          (fun machine => guestLoad machine.memory 0x1000 4) = some 2 := by decide +kernel
  obtain ⟨machine, taken, value⟩ := Option.map_eq_some_iff.mp run
  have fresh : twoCounters.Fresh := ⟨fun _ => rfl, rfl⟩
  have zero : guestLoad twoCounters.memory 0x1000 4 = 0 := by decide +kernel
  have result : guestLoad machine.memory 0x1000 4 =
      machine.updates.foldl (fun value update => update value)
        (guestLoad twoCounters.memory 0x1000 4) :=
    (no_lost_update fresh (reach_of_takeAll taken)).1
  rw [zero, value] at result
  exact ⟨machine, value, result.symm⟩

end UfcRecomp.Emitted
