import Mathlib.Tactic.ByContra

/-!
# Recursive mutexes

A mutex that its owner may enter again, and that is free once the owner has left as often. Neither
the number of entries is limited, nor does an attempt to enter fail without a reason.
-/

namespace UfcRecomp.Lib

universe u

/-- A mutex is free, or a thread is inside: once, and `again` times more. -/
inductive RecursiveMutex (τ : Type u) where
  | free
  | owned (owner : τ) (again : Nat)
  deriving DecidableEq

namespace RecursiveMutex

variable {τ : Type u} [DecidableEq τ]

/-- How often a thread has to leave before it is outside. -/
def depth : RecursiveMutex τ → τ → Nat
  | free, _ => 0
  | owned owner again, thread => if thread = owner then again + 1 else 0

/-- Entering, which waits while another thread is inside. -/
def lock (thread : τ) : RecursiveMutex τ → Option (RecursiveMutex τ)
  | free => some (owned thread 0)
  | owned owner again => if thread = owner then some (owned owner (again + 1)) else none

/-- Entering, or not if that would have to wait. -/
def tryLock (thread : τ) (mutex : RecursiveMutex τ) : RecursiveMutex τ × Bool :=
  (mutex.lock thread).elim (mutex, false) fun entered => (entered, true)

/-- Leaving, which has no meaning for a thread that is outside. -/
def unlock (thread : τ) : RecursiveMutex τ → Option (RecursiveMutex τ)
  | free => none
  | owned owner 0 => if thread = owner then some free else none
  | owned owner (again + 1) => if thread = owner then some (owned owner again) else none

variable {mutex next : RecursiveMutex τ} {thread other : τ}

/-- A mutex is free when every thread has left. -/
theorem eq_free_iff : mutex = free ↔ ∀ thread, mutex.depth thread = 0 := by
  constructor
  · rintro rfl thread
    rfl
  · intro outside
    cases mutex with
    | free => rfl
    | owned owner again =>
        have inside := outside owner
        rw [depth, if_pos rfl] at inside
        omega

/-- At most one thread is inside. -/
theorem eq_of_depth_pos (inside : 0 < mutex.depth thread) (otherInside : 0 < mutex.depth other) :
    thread = other := by
  cases mutex with
  | free => exact absurd inside (Nat.lt_irrefl 0)
  | owned owner again =>
      rw [depth] at inside otherInside
      by_cases first : thread = owner
      · by_cases second : other = owner
        · rw [first, second]
        · rw [if_neg second] at otherInside
          omega
      · rw [if_neg first] at inside
        omega

theorem depth_lock (entered : mutex.lock thread = some next) (other : τ) :
    next.depth other = mutex.depth other + if other = thread then 1 else 0 := by
  cases mutex with
  | free =>
      cases entered
      simp only [depth, Nat.zero_add]
  | owned owner again =>
      rw [lock] at entered
      split at entered
      next same =>
        cases entered
        subst same
        simp only [depth]
        split <;> rfl
      next => cases entered

/-- A mutex lets a thread in when no other one is inside. -/
theorem lock_isSome_iff :
    (mutex.lock thread).isSome ↔ ∀ other, 0 < mutex.depth other → other = thread := by
  cases mutex with
  | free => exact iff_of_true rfl fun other inside => absurd inside (Nat.lt_irrefl 0)
  | owned owner again =>
      constructor
      · intro enters other inside
        have same : thread = owner := by
          by_contra apart
          rw [lock, if_neg apart] at enters
          cases enters
        rw [same]
        apply eq_of_depth_pos inside
        rw [depth, if_pos rfl]
        exact Nat.succ_pos again
      · intro alone
        have same : owner = thread := by
          apply alone
          rw [depth, if_pos rfl]
          exact Nat.succ_pos again
        rw [lock, if_pos same.symm]
        rfl

theorem depth_unlock (left : mutex.unlock thread = some next) (other : τ) :
    next.depth other + (if other = thread then 1 else 0) = mutex.depth other := by
  cases mutex with
  | free => cases left
  | owned owner again =>
      cases again with
      | zero =>
          rw [unlock] at left
          split at left
          next same =>
            cases left
            rw [same, depth, depth, Nat.zero_add]
          next => cases left
      | succ again =>
          rw [unlock] at left
          split at left
          next same =>
            cases left
            subst same
            simp only [depth]
            split <;> rfl
          next => cases left

/-- A thread can leave when it is inside. -/
theorem unlock_isSome (inside : 0 < mutex.depth thread) : (mutex.unlock thread).isSome := by
  cases mutex with
  | free => exact absurd inside (Nat.lt_irrefl 0)
  | owned owner again =>
      have same : thread = owner := by
        by_contra apart
        rw [depth, if_neg apart] at inside
        exact absurd inside (Nat.lt_irrefl 0)
      cases again with
      | zero =>
          rw [unlock, if_pos same]
          rfl
      | succ again =>
          rw [unlock, if_pos same]
          rfl

end RecursiveMutex

end UfcRecomp.Lib
