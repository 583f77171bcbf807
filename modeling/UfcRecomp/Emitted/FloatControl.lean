import Mathlib.Data.BitVec

/-!
# The control register for floating point

The guest's context has a copy of the host's control register. The emitted code sets and clears the
bits that flush denormal numbers in both, for vector operations and for scalar ones.
-/

namespace UfcRecomp.Emitted

/-- The architectures that `ppc_context.h` knows. -/
inductive Host where
  | x86_64
  | aarch64
  deriving DecidableEq

namespace Host

/-- `FlushMask`. -/
def flushMask : Host → BitVec 32
  | .x86_64 => 0x8000 ||| 0x0040
  | .aarch64 => (1 <<< 19) ||| (1 <<< 24)

/-- `RoundMask`. -/
def roundMask : Host → BitVec 32
  | .x86_64 => 0x6000
  | .aarch64 => 3 <<< 22

/-- `GuestToHost`, at the rounding mode of the guest. -/
def guestToHost : Host → Fin 4 → BitVec 32
  | .x86_64, 0 => 0x0000
  | .x86_64, 1 => 0x6000
  | .x86_64, 2 => 0x4000
  | .x86_64, 3 => 0x2000
  | .aarch64, 0 => 0 <<< 22
  | .aarch64, 1 => 3 <<< 22
  | .aarch64, 2 => 1 <<< 22
  | .aarch64, 3 => 2 <<< 22

end Host

/-- `csr` of `PPCFPSCRRegister` and the host's register. -/
structure FloatControl where
  csr : BitVec 32
  host : BitVec 32

namespace FloatControl

variable (arch : Host) (control : FloatControl)

/-- `setcsr` of the field. -/
def setcsr (csr : BitVec 32) : FloatControl := ⟨csr, csr⟩

def loadFromHost : FloatControl := { control with csr := control.host }

def storeFromGuest (value : Fin 4) : FloatControl :=
  setcsr ((control.csr &&& ~~~arch.roundMask) ||| arch.guestToHost value)

def enableFlushModeUnconditional : FloatControl := setcsr (control.csr ||| arch.flushMask)

def disableFlushModeUnconditional : FloatControl := setcsr (control.csr &&& ~~~arch.flushMask)

def enableFlushMode : FloatControl :=
  if control.csr &&& arch.flushMask ≠ arch.flushMask then control.enableFlushModeUnconditional arch
  else control

def disableFlushMode : FloatControl :=
  if control.csr &&& arch.flushMask ≠ 0 then control.disableFlushModeUnconditional arch else control

/-- Whether the field has the value of the host's register. -/
def Synced : Prop := control.csr = control.host

/-- Whether the host flushes denormal numbers, or does nothing to them. -/
def Flushes : Prop := control.host &&& arch.flushMask = arch.flushMask

def Keeps : Prop := control.host &&& arch.flushMask = 0

variable {arch control}

theorem synced_setcsr (csr : BitVec 32) : (setcsr csr).Synced := rfl

theorem flushes_enableUnconditional : (control.enableFlushModeUnconditional arch).Flushes arch := by
  change (control.csr ||| arch.flushMask) &&& arch.flushMask = arch.flushMask
  ext bit inside
  simp
  tauto

theorem keeps_disableUnconditional : (control.disableFlushModeUnconditional arch).Keeps arch := by
  change (control.csr &&& ~~~arch.flushMask) &&& arch.flushMask = 0
  ext bit inside
  simp

/-- The conditional forms rely on the field. -/
theorem flushes_enable (synced : control.Synced) :
    (control.enableFlushMode arch).Synced ∧ (control.enableFlushMode arch).Flushes arch := by
  rw [enableFlushMode]
  split
  next => exact ⟨synced_setcsr _, flushes_enableUnconditional⟩
  next already =>
    rw [not_not, show control.csr = control.host from synced] at already
    exact ⟨synced, already⟩

theorem keeps_disable (synced : control.Synced) :
    (control.disableFlushMode arch).Synced ∧ (control.disableFlushMode arch).Keeps arch := by
  rw [disableFlushMode]
  split
  next => exact ⟨synced_setcsr _, keeps_disableUnconditional⟩
  next already =>
    rw [not_not, show control.csr = control.host from synced] at already
    exact ⟨synced, already⟩

/-- The rounding mode has other bits. -/
theorem storeFromGuest_flush (synced : control.Synced) (value : Fin 4) :
    (control.storeFromGuest arch value).host &&& arch.flushMask =
      control.host &&& arch.flushMask := by
  have round : ~~~arch.roundMask &&& arch.flushMask = arch.flushMask := by
    cases arch <;> decide
  have mode : arch.guestToHost value &&& arch.flushMask = 0 := by
    cases arch <;> revert value <;> decide
  change ((control.csr &&& ~~~arch.roundMask) ||| arch.guestToHost value) &&& arch.flushMask = _
  rw [BitVec.and_or_distrib_right, BitVec.and_assoc, round, mode, synced]
  simp

end FloatControl

end UfcRecomp.Emitted
