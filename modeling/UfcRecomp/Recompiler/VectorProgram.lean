import UfcRecomp.Recompiler.VectorTransfers

/-!
# Vector programs

Sequences of vector instructions, and the sequences that load and store vectors at any address.
-/

namespace UfcRecomp.Recompiler

open UfcRecomp.Lib UfcRecomp.Ppc UfcRecomp.Emitted

/-- Execute the case of an instruction. -/
def executeCode (macros : MacroSet) (float : FloatOps) : VectorCode → VectorHost → Option VectorHost
  | .compute inst operand, host =>
    (VStatement.run host.objects (vmxStatements (vectorNames operand) operand float inst)).map
      fun objects => { host with objects }
  | .transfer inst operand, host => some (runTransfer macros operand inst host)

/-- Immediates fit into their fields, and a pack that is stored lane by lane does not overwrite its
second source. -/
def Admissible : VectorCode → Prop
  | .compute inst operand =>
    inst.Encodes operand ∧ (vmxPacks inst = true → (operand 2).toNat ≠ (operand 0).toNat)
  | .transfer _ _ => True

section Programs

variable {outside : Int → Byte} {macros : MacroSet} {float : FloatOps}

/-- Every instruction keeps the guest's state. -/
theorem keeps_code {code : VectorCode} (fits : Admissible code) :
    Keeps (executeCode macros float) (fun code before after => code.Does before after)
      (HoldsGuest outside) code := by
  intro host guest holds
  cases code with
  | compute inst operand =>
      obtain ⟨objects, ran, reversed⟩ := @leavesReversed_vmx operand host.objects
        (fun index => guest.v (operand index).toNat) inst float fits.1 fits.2
        fun index => holds.vectors _
      refine ⟨{ host with objects }, _, ?_, rfl, ?_⟩
      · rw [executeCode, ran, Option.map_some]
      · apply holds.setV reversed
        · exact fun other => vmx_frame ran (by simp) (by simp) (by simp)
        · exact fun other apart => vmx_frame ran (by simpa using apart) (by simp) (by simp)
  | transfer inst operand =>
      obtain ⟨after, does, kept⟩ := @simulates_transfer outside host guest operand macros inst holds
      exact ⟨_, after, rfl, does, kept⟩

end Programs

/-! ## Vectors at any address -/

/-- The guest's state that the emitted code holds. -/
def VectorHost.guest (host : VectorHost) : VectorState where
  r := (view host.objects).r
  v index := fun position => host.objects (.v index) (15 - position)
  memory address := host.memory address.toNat

theorem VectorHost.holds_guest (host : VectorHost) : HoldsGuest host.memory host host.guest where
  registers _ := rfl
  vectors _ := fun _ _ => rfl
  memory _ := rfl
  outside _ _ := rfl

/-- Two pointers, 3 and 19, in `r4` and `r5`. -/
def pointers : VectorHost where
  objects object position :=
    if position = 0 then if object = .r 4 then 3 else if object = .r 5 then 19 else 0 else 0
  ea := 0
  memory := BitVec.ofInt 8

/-- Operands of an X-form with no first register. -/
def indexed (register pointer : Word) : Nat → Word
  | 0 => register
  | 2 => pointer
  | _ => 0

theorem pointers_address (register : Word) :
    pointers.guest.address (indexed register 4) = 3 ∧
      pointers.guest.address (indexed register 5) = 19 := by
  have zero : ∀ pointer, indexed register pointer 1 = 0 := fun _ => rfl
  have second : ∀ pointer, indexed register pointer 2 = pointer := fun _ => rfl
  simp only [VectorState.address, VectorHost.guest, view, zero, second]
  exact ⟨by decide, by decide⟩

/-- Operands of `vor` with a register for each part. -/
def partRegisters : Nat → Word
  | 0 => 3
  | 1 => 1
  | _ => 2

theorem pointers_next (first second : Word) :
    pointers.guest.address (indexed second 5) = pointers.guest.address (indexed first 4) + 16 := by
  rw [(pointers_address second).2, (pointers_address first).1]
  decide

/-- The bytes from an address on, in reverse. -/
def VectorHost.vectorAt (host : VectorHost) (address : BitVec 32) : Vec := fun position =>
  host.memory (address + BitVec.ofNat 32 (15 - position)).toNat

section Pairs

variable {macros : MacroSet} {float : FloatOps}

theorem fits_pairs {program : List VectorCode}
    (known : (∃ left right both, program = loadPair left right both) ∨
      ∃ left right, program = storePair left right) : ∀ code ∈ program, Admissible code := by
  intro code member
  obtain ⟨left, right, both, rfl⟩ | ⟨left, right, rfl⟩ := known
  · rcases List.mem_cons.mp member with rfl | member
    · exact trivial
    · rcases List.mem_cons.mp member with rfl | member
      · exact trivial
      · obtain rfl := List.mem_singleton.mp member
        exact ⟨trivial, fun packs => absurd packs (by decide)⟩
  · rcases List.mem_cons.mp member with rfl | member
    · exact trivial
    · obtain rfl := List.mem_singleton.mp member
      exact trivial

/-- What a sequence of instructions does from the state that it is executed in. -/
theorem exists_run {program : List VectorCode} (fits : ∀ code ∈ program, Admissible code)
    (host : VectorHost) :
    ∃ next after, executeAll (executeCode macros float) program host = some next ∧
      VectorCode.Runs program host.guest after ∧ HoldsGuest host.memory next after :=
  exists_executeAll (fun code member => keeps_code (fits code member)) host.holds_guest

/-- Every byte of memory behind a store of a whole vector. -/
theorem memory_of_holds {host after : VectorHost} {address : BitVec 32} {vec : BigVec}
    {guest : VectorState}
    (holds : HoldsGuest host.memory after { guest with
      memory := TransferInst.storeBytes host.guest.memory address 0 16 vec }) (position : Int) :
    (∀ index < 16, position = (address + BitVec.ofNat 32 index).toNat →
      after.memory position = vec index) ∧
    ((∀ index < 16, position ≠ (address + BitVec.ofNat 32 index).toNat) →
      after.memory position = host.memory position) := by
  constructor
  · rintro index inside rfl
    have back : (address + BitVec.ofNat 32 index - address).toNat = index := by bv_omega
    rw [holds.memory]
    simp only [TransferInst.storeBytes, back]
    exact if_pos ⟨Nat.zero_le _, inside⟩
  · intro apart
    by_cases inside : position < 0 ∨ 2 ^ 32 ≤ position
    · exact holds.outside position inside
    · obtain ⟨other, rfl⟩ : ∃ other : BitVec 32, position = other.toNat := by
        refine ⟨BitVec.ofNat 32 position.toNat, ?_⟩
        rw [BitVec.toNat_ofNat]
        omega
      rw [holds.memory]
      refine if_neg fun covered => apart (other - address).toNat covered.2 ?_
      congr 1
      bv_omega

end Pairs

/-- Vector code of any length does on the host what it may do on the guest, to registers, to memory
and to nothing outside of memory. -/
theorem vector_code (macros : MacroSet) (float : FloatOps) (outside : Int → Byte)
    (program : List VectorCode) (fits : ∀ code ∈ program, Admissible code) (host : VectorHost)
    (guest : VectorState) (holds : HoldsGuest outside host guest) :
    ∃ next after, executeAll (executeCode macros float) program host = some next ∧
      VectorCode.Runs program guest after ∧ HoldsGuest outside next after :=
  exists_executeAll (fun code member => keeps_code (fits code member)) holds

theorem vector_code_pointers :
    ∃ next after, executeAll (executeCode .ppcContext noComparison)
        (.compute .vpkshss partRegisters :: loadPair (indexed 1 4) (indexed 2 5) partRegisters)
        pointers = some next ∧
      VectorCode.Runs
        (.compute .vpkshss partRegisters :: loadPair (indexed 1 4) (indexed 2 5) partRegisters)
        pointers.guest after ∧ HoldsGuest pointers.memory next after :=
  have pack : Admissible (.compute .vpkshss partRegisters) := ⟨trivial, fun _ => by decide⟩
  vector_code .ppcContext noComparison pointers.memory _
    (List.forall_mem_cons.mpr
      ⟨pack, fits_pairs (.inl ⟨indexed 1 4, indexed 2 5, partRegisters, rfl⟩)⟩)
    pointers pointers.guest pointers.holds_guest

/-- The emitted code of `lvlx` at an address, `lvrx` at the next block and `vor` leaves the 16 bytes
at the address in the destination, in reverse, for every alignment. -/
theorem unaligned_load (macros : MacroSet) (float : FloatOps) (host : VectorHost)
    (left right both : Nat → Word) (apart : (left 0).toNat ≠ (right 0).toNat)
    (first : both 1 = left 0) (second : both 2 = right 0)
    (next : host.guest.address right = host.guest.address left + 16) :
    ∃ after, executeAll (executeCode macros float) (loadPair left right both) host = some after ∧
      after.memory = host.memory ∧ ∀ position < 16, after.objects (.v (both 0).toNat) position =
        host.vectorAt (host.guest.address left) position := by
  obtain ⟨after, guest, ran, runs, holds⟩ :=
    exists_run (fits_pairs (.inl ⟨left, right, both, rfl⟩)) host
  obtain ⟨memory, bytes⟩ := runs_loadPair apart first second next runs
  refine ⟨after, ran, ?_, fun position inside => ?_⟩
  · funext position
    by_cases beyond : position < 0 ∨ 2 ^ 32 ≤ position
    · exact holds.outside position beyond
    · have known := holds.memory (BitVec.ofNat 32 position.toNat)
      rw [memory] at known
      have same : ((BitVec.ofNat 32 position.toNat).toNat : Int) = position := by
        rw [BitVec.toNat_ofNat]
        omega
      rw [same] at known
      rw [known]
      exact congrArg host.memory same
  · rw [(holds.vectors _).apply inside, bytes _ (by omega)]
    rfl

theorem unaligned_load_three :
    ∃ after, executeAll (executeCode .ppcContext noComparison)
        (loadPair (indexed 1 4) (indexed 2 5) partRegisters) pointers = some after ∧
      after.memory = pointers.memory ∧ ∀ position < 16,
        after.objects (.v (partRegisters 0).toNat) position =
          pointers.vectorAt (pointers.guest.address (indexed 1 4)) position :=
  unaligned_load .ppcContext noComparison pointers (indexed 1 4) (indexed 2 5) partRegisters
    (by decide) rfl rfl (pointers_next 1 2)

/-- The emitted code of `stvlx` at an address and `stvrx` at the next block writes the 16 bytes at
the address, most significant byte first, and no other byte. -/
theorem unaligned_store (macros : MacroSet) (float : FloatOps) (host : VectorHost)
    (left right : Nat → Word) (same : left 0 = right 0)
    (next : host.guest.address right = host.guest.address left + 16) :
    ∃ after, executeAll (executeCode macros float) (storePair left right) host = some after ∧
      ∀ position : Int,
        (∀ index < 16, position = (host.guest.address left + BitVec.ofNat 32 index).toNat →
          after.memory position = host.objects (.v (left 0).toNat) (15 - index)) ∧
        ((∀ index < 16, position ≠ (host.guest.address left + BitVec.ofNat 32 index).toNat) →
          after.memory position = host.memory position) := by
  obtain ⟨after, guest, ran, runs, holds⟩ :=
    exists_run (fits_pairs (.inr ⟨left, right, rfl⟩)) host
  obtain rfl := runs_storePair same next runs
  exact ⟨after, ran, memory_of_holds holds⟩

theorem unaligned_store_three :
    ∃ after, executeAll (executeCode .ppcContext noComparison)
        (storePair (indexed 1 4) (indexed 1 5)) pointers = some after ∧
      ∀ position : Int,
        (∀ index < 16, position =
            (pointers.guest.address (indexed 1 4) + BitVec.ofNat 32 index).toNat →
          after.memory position = pointers.objects (.v (indexed 1 4 0).toNat) (15 - index)) ∧
        ((∀ index < 16, position ≠
            (pointers.guest.address (indexed 1 4) + BitVec.ofNat 32 index).toNat) →
          after.memory position = pointers.memory position) :=
  unaligned_store .ppcContext noComparison pointers (indexed 1 4) (indexed 1 5) rfl
    (pointers_next 1 1)

/-- What was stored at any address is loaded from there. -/
theorem unaligned_round_trip (macros : MacroSet) (float : FloatOps) (host : VectorHost)
    (left right left' right' both : Nat → Word) (same : left 0 = right 0)
    (apart : (left' 0).toNat ≠ (right' 0).toNat) (first : both 1 = left' 0)
    (second : both 2 = right' 0)
    (next : host.guest.address right = host.guest.address left + 16)
    (there : host.guest.address left' = host.guest.address left)
    (behind : host.guest.address right' = host.guest.address left + 16) :
    ∃ after, executeAll (executeCode macros float)
        (storePair left right ++ loadPair left' right' both) host = some after ∧
      ∀ position < 16, after.objects (.v (both 0).toNat) position =
        host.objects (.v (left 0).toNat) position := by
  have fits : ∀ code ∈ storePair left right ++ loadPair left' right' both, Admissible code := by
    intro code member
    rcases List.mem_append.mp member with member | member
    · exact fits_pairs (.inr ⟨left, right, rfl⟩) code member
    · exact fits_pairs (.inl ⟨left', right', both, rfl⟩) code member
  obtain ⟨after, guest, ran, runs, holds⟩ := exists_run fits host
  obtain ⟨middle, stores, loads⟩ := mayLead_append.mp runs
  obtain rfl := runs_storePair same next stores
  obtain ⟨-, bytes⟩ := @runs_loadPair
    { host.guest with
      memory := TransferInst.storeBytes host.guest.memory (host.guest.address left) 0 16
        (host.guest.v (left 0).toNat) }
    guest left' right' both apart first second (behind.trans (congrArg (· + 16) there.symm)) loads
  refine ⟨after, ran, fun position inside => ?_⟩
  rw [(holds.vectors _).apply inside, bytes _ (by omega)]
  have back : (host.guest.address left' + BitVec.ofNat 32 (15 - position) -
      host.guest.address left).toNat = 15 - position := by
    rw [there]
    bv_omega
  change TransferInst.storeBytes host.guest.memory (host.guest.address left) 0 16
    (host.guest.v (left 0).toNat) (host.guest.address left' + BitVec.ofNat 32 (15 - position)) = _
  simp only [TransferInst.storeBytes, back]
  rw [if_pos ⟨Nat.zero_le _, by omega⟩]
  change host.objects (.v (left 0).toNat) (15 - (15 - position)) = _
  congr 1
  omega

theorem unaligned_round_trip_three :
    ∃ after, executeAll (executeCode .ppcContext noComparison)
        (storePair (indexed 1 4) (indexed 1 5) ++
          loadPair (indexed 1 4) (indexed 2 5) partRegisters) pointers = some after ∧
      ∀ position < 16, after.objects (.v (partRegisters 0).toNat) position =
        pointers.objects (.v (indexed 1 4 0).toNat) position :=
  unaligned_round_trip .ppcContext noComparison pointers (indexed 1 4) (indexed 1 5) (indexed 1 4)
    (indexed 2 5) partRegisters rfl (by decide) rfl rfl (pointers_next 1 1) rfl (pointers_next 1 2)

end UfcRecomp.Recompiler
