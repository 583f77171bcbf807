import UfcRecomp.Recompiler.VectorMemory

/-!
# Vector code in reverse

A state of the emitted code holds a state of the guest: registers in reverse, memory byte by byte.
Every instruction of vector code keeps that, and so does every run of such instructions.
-/

namespace UfcRecomp.Recompiler

open UfcRecomp.Lib UfcRecomp.Lib.Simd UfcRecomp.Ppc UfcRecomp.Emitted

/-- The emitted code's state holds the guest's one; `outside` is what surrounds guest memory. -/
structure HoldsGuest (outside : Int → Byte) (host : VectorHost) (guest : VectorState) : Prop where
  registers : ∀ index, (view host.objects).r index = guest.r index
  vectors : ∀ index, Reversed (host.objects (.v index)) (guest.v index)
  memory : ∀ address : BitVec 32, host.memory address.toNat = guest.memory address
  outside : ∀ position : Int, position < 0 ∨ 2 ^ 32 ≤ position →
    host.memory position = outside position

/-! ## Addresses -/

section Addresses

/-- The start of a block of a size that is a power of two. -/
theorem toNat_blockStart (address : BitVec 32) (bits : Nat) :
    (blockStart address (2 ^ bits)).toNat = address.toNat / 2 ^ bits * 2 ^ bits := by
  apply Nat.eq_of_testBit_eq
  intro bit
  rw [BitVec.testBit_toNat, blockStart, BitVec.getLsbD_and, BitVec.getLsbD_not,
    BitVec.getLsbD_ofNat, Nat.testBit_two_pow_sub_one, Nat.testBit_mul_two_pow,
    Nat.testBit_div_two_pow, ← BitVec.testBit_toNat]
  by_cases inside : bit < 32
  · by_cases low : bit < bits
    · simp [inside, low]
    · simp [inside, low, Nat.sub_add_cancel (Nat.le_of_not_lt low), Nat.le_of_not_lt low]
  · have zero : address.toNat.testBit bit = false :=
      Nat.testBit_lt_two_pow (Nat.lt_of_lt_of_le address.isLt
        (Nat.pow_le_pow_right (by decide) (Nat.le_of_not_lt inside)))
    rw [zero, Bool.false_and]
    by_cases low : bit < bits
    · simp
      omega
    · simp [Nat.sub_add_cancel (Nat.le_of_not_lt low), zero]

theorem toNat_block (address : BitVec 32) :
    (block address).toNat = address.toNat - address.toNat % 16 := by
  have small := address.isLt
  rw [block, blockOffset, BitVec.toNat_sub, BitVec.toNat_ofNat]
  omega

theorem blockStart_sixteen (address : BitVec 32) : blockStart address 16 = block address := by
  apply BitVec.eq_of_toNat_eq
  have start := toNat_blockStart address 4
  rw [toNat_block]
  simp only [Nat.reducePow] at start
  omega

variable {outside : Int → Byte} {host : VectorHost} {guest : VectorState} {operand : Nat → Word}

/-- The emitted sum of two registers is the effective address. -/
theorem HoldsGuest.eval_sum (holds : HoldsGuest outside host guest) (counter : Nat) :
    (registerSum (operand 1).toNat (operand 2).toNat).eval (host.addressState counter) =
      .uint32 (guest.address operand) := by
  have same : ∀ index, ((host.addressState counter).registers index).unsigned 32 =
      (guest.r index).setWidth 32 := fun index =>
    congrArg (BitVec.setWidth 32) (holds.registers index)
  rw [eval_registerSum, VectorState.address, registerOrZero, same, same]

/-- A register is what its object holds. -/
theorem view_r_congr {left right : Store Object} {index : Nat}
    (same : left (.r index) = right (.r index)) : (view left).r index = (view right).r index := by
  simp only [view, Store.read, same]

theorem objects_set (host : VectorHost) (name : AddressVariable) (value : BitVec 32)
    {object : Object} (apart : object ≠ .temp) :
    (host.set name value).objects object = host.objects object := by
  cases name with
  | ea => rfl
  | temp =>
      have other : object ≠ (temp .u32).object := apart
      exact Store.write_of_ne other

/-- An assignment to a variable keeps the guest's state. -/
theorem HoldsGuest.set (holds : HoldsGuest outside host guest) (name : AddressVariable)
    (value : BitVec 32) : HoldsGuest outside (host.set name value) guest where
  registers index := by
    rw [view_r_congr (objects_set host name value (by simp)), holds.registers]
  vectors index := by
    rw [objects_set host name value (by simp)]
    exact holds.vectors index
  memory := by
    cases name <;> exact holds.memory
  outside := by
    cases name <;> exact holds.outside

theorem addressState_set (name : AddressVariable) (value : BitVec 32) (counter : Nat) :
    (host.set name value).addressState counter =
      { (host.addressState 0).assign name value with counter } := by
  have registers : ((host.set name value).addressState counter).registers =
      (host.addressState 0).registers := by
    funext index
    exact congrArg PpcRegister.mk (view_r_congr (objects_set host name value (by simp)))
  have locals : ((host.set name value).addressState counter).locals =
      Function.update (host.addressState 0).locals name value := by
    funext other
    cases name with
    | ea =>
        cases other with
        | ea => rfl
        | temp => rfl
    | temp =>
        cases other with
        | ea => rfl
        | temp =>
            rw [Function.update_self]
            have small := value.isLt
            change BitVec.ofInt 32 ((host.objects.write (temp .u32) value.toNat).read
              (temp .u32)) = value
            rw [Store.read_write, type_temp, IntType.wrap_unsigned,
              Int.emod_eq_of_lt (Int.natCast_nonneg _) (by omega), BitVec.ofInt_natCast,
              BitVec.ofNat_toNat, BitVec.setWidth_eq]
  rw [AddressState.assign, ← locals, ← registers]
  rfl

end Addresses

/-! ## Loads -/

section Loads

variable {outside : Int → Byte} {host : VectorHost} {guest : VectorState} {operand : Nat → Word}
  {macros : MacroSet}

/-- A register that holds another vector. -/
theorem HoldsGuest.setV (holds : HoldsGuest outside host guest) {objects : Store Object}
    {index : Nat} {vec : BigVec} (reversed : Reversed (objects (.v index)) vec)
    (registers : ∀ other, objects (.r other) = host.objects (.r other))
    (vectors : ∀ other, other ≠ index → objects (.v other) = host.objects (.v other)) :
    HoldsGuest outside { host with objects } (guest.setV index vec) where
  registers other := by rw [view_r_congr (registers other), holds.registers other]; rfl
  vectors other := by
    by_cases same : other = index
    · subst same
      simp only [VectorState.setV, Function.update_self]
      exact reversed
    · simp only [VectorState.setV, Function.update_of_ne same]
      rw [vectors other same]
      exact holds.vectors other
  memory := holds.memory
  outside := holds.outside

theorem HoldsGuest.storeVec (holds : HoldsGuest outside host guest) (index : Nat) {vec : Vec}
    {other : BigVec} (reversed : Reversed vec other) :
    HoldsGuest outside { host with objects := host.objects.storeVec (.v index) vec }
      (guest.setV index other) := by
  apply holds.setV
  · exact reversed.congr fun position inside => Store.storeVec_of_lt _ _ _ inside
  · exact fun other => Store.storeVec_of_ne _ _ _ (by simp)
  · exact fun other apart => Store.storeVec_of_ne _ _ _ (by simpa using apart)

/-- A byte of the block that an address lies in. -/
theorem HoldsGuest.load_block (holds : HoldsGuest outside host guest) (address : BitVec 32)
    {index : Nat} (inside : index < 16) :
    host.load (block address).toNat index = TransferInst.blockByte guest.memory address index := by
  have small := address.isLt
  have start := toNat_block address
  have same : ((block address).toNat : Int) + (index : Nat) =
      ((block address + BitVec.ofNat 32 index).toNat : Nat) := by
    rw [BitVec.toNat_add, BitVec.toNat_ofNat]
    omega
  rw [VectorHost.load, same, holds.memory]
  rfl

/-- Bytes of the block, behind an address and in front of it. -/
theorem blockByte_left (memory : BitVec 32 → Byte) (address : BitVec 32) (index : Nat) :
    TransferInst.blockByte memory address (blockOffset address + index) =
      memory (address + BitVec.ofNat 32 index) := by
  rw [TransferInst.blockByte, block, BitVec.ofNat_add, ← BitVec.add_assoc, BitVec.sub_add_cancel]

theorem blockByte_right (memory : BitVec 32 → Byte) (address : BitVec 32) {index : Nat}
    (above : 16 ≤ blockOffset address + index) :
    TransferInst.blockByte memory address (blockOffset address + index - 16) =
      memory (address - 16 + BitVec.ofNat 32 index) := by
  have split : BitVec.ofNat 32 (blockOffset address + index - 16) =
      BitVec.ofNat 32 (blockOffset address) + BitVec.ofNat 32 index - 16 := by
    rw [← BitVec.ofNat_add]
    apply BitVec.eq_of_toNat_eq
    rw [BitVec.toNat_sub, BitVec.toNat_ofNat, BitVec.toNat_ofNat]
    change _ = (2 ^ 32 - 16 + _) % 2 ^ 32
    omega
  rw [TransferInst.blockByte, block, split]
  congr 1
  bv_omega

/-- The bytes that a row of the left mask selects. -/
theorem reversed_maskL {vec : Vec} {bytes : BigVec} {row : Nat} (aligned : row < 16)
    (selects : ∀ index < 16, bytes index = if row + index < 16 then vec (row + index) else 0) :
    Reversed (shuffleEpi8 vec (tableByte vectorMaskL row)) bytes := by
  intro index inside
  rw [shuffleEpi8, tableByte_vectorMaskL row aligned _ (by omega), selects index inside]
  by_cases behind : row + index < 16
  · have byte : (BitVec.ofNat 8 (15 + row - (15 - index))).toNat = row + index := by
      rw [BitVec.toNat_ofNat]
      omega
    rw [if_neg (show ¬15 - index < row by omega), if_pos behind, BitVec.msb_eq_decide, byte,
      decide_eq_false (by omega), Nat.mod_eq_of_lt behind]
    rfl
  · rw [if_pos (show 15 - index < row by omega), if_neg behind]
    rfl

/-- The bytes that a row of the right mask selects. -/
theorem reversed_maskR {vec : Vec} {bytes : BigVec} {row : Nat} (aligned : row < 16)
    (selects : ∀ index < 16, bytes index = if row + index < 16 then 0 else vec (row + index - 16)) :
    Reversed (shuffleEpi8 vec (tableByte vectorMaskR row)) bytes := by
  intro index inside
  rw [shuffleEpi8, tableByte_vectorMaskR row aligned _ (by omega), selects index inside]
  by_cases behind : row + index < 16
  · rw [if_neg (show ¬15 - index < row by omega), if_pos behind]
    rfl
  · have byte : (BitVec.ofNat 8 (row - 1 - (15 - index))).toNat = row + index - 16 := by
      rw [BitVec.toNat_ofNat]
      omega
    rw [if_pos (show 15 - index < row by omega), if_neg behind, BitVec.msb_eq_decide, byte,
      decide_eq_false (by omega), Nat.mod_eq_of_lt (by omega)]
    rfl

end Loads

/-! ## Stores -/

section Stores

variable {outside : Int → Byte} {host : VectorHost} {guest : VectorState} {place : Nat → Int}
  {address : Nat → BitVec 32} {byte : Nat → Byte} {count : Nat}

/-- Bytes that are stored at guest addresses. -/
theorem HoldsGuest.store (holds : HoldsGuest outside host guest)
    (places : ∀ i < count, place i = (address i).toNat) :
    HoldsGuest outside { host with memory := storeEach host.memory place byte count }
      { guest with memory := storeEach guest.memory address byte count } := by
  refine ⟨holds.registers, holds.vectors, ?_, ?_⟩
  · intro other
    change storeEach host.memory place byte count other.toNat =
      storeEach guest.memory address byte count other
    induction count with
    | zero => exact holds.memory other
    | succ count ih =>
        rw [storeEach_succ, storeEach_succ, places count (Nat.lt_succ_self count)]
        by_cases same : other = address count
        · rw [same, Function.update_self, Function.update_self]
        · have apart : (other.toNat : Int) ≠ (address count).toNat := fun equal =>
            same (BitVec.eq_of_toNat_eq (Int.ofNat_inj.mp equal))
          rw [Function.update_of_ne apart, Function.update_of_ne same,
            ih fun i below => places i (Nat.lt_succ_of_lt below)]
  · intro position beyond
    change storeEach host.memory place byte count position = outside position
    induction count with
    | zero => exact holds.outside position beyond
    | succ count ih =>
        have small := (address count).isLt
        have apart : position ≠ place count := by
          rw [places count (Nat.lt_succ_self count)]
          omega
        rw [storeEach_succ, Function.update_of_ne apart,
          ih fun i below => places i (Nat.lt_succ_of_lt below)]

/-- A loop that goes up from some byte of a vector. -/
theorem storeEach_up (memory : BitVec 32 → Byte) (start : BitVec 32) (vec : BigVec) {first : Nat}
    (short : first + count ≤ 16) :
    storeEach memory (fun i => start + BitVec.ofNat 32 (first + i)) (fun i => vec (first + i))
        count = TransferInst.storeBytes memory start first (first + count) vec := by
  funext other
  rw [@storeEach_apply _ _ memory _ _ (fun other => (other - start - BitVec.ofNat 32 first).toNat)]
  · have split : first ≤ (other - start).toNat ∧ (other - start).toNat < first + count ↔
        (other - start - BitVec.ofNat 32 first).toNat < count := by bv_omega
    rw [TransferInst.storeBytes, if_congr split rfl rfl]
    split
    next inside =>
      have index : first + (other - start - BitVec.ofNat 32 first).toNat =
          (other - start).toNat := by bv_omega
      rw [index]
    next => rfl
  · intro i below
    bv_omega
  · intro other below
    bv_omega

/-- A loop that goes down from the last byte of a vector. -/
theorem storeEach_down (memory : BitVec 32 → Byte) (behind : BitVec 32) (vec : BigVec)
    (short : count ≤ 16) :
    storeEach memory (fun i => behind - BitVec.ofNat 32 i - 1) (fun i => vec (15 - i)) count =
      TransferInst.storeBytes memory (behind - 16) (16 - count) 16 vec := by
  funext other
  rw [@storeEach_apply _ _ memory _ _ (fun other => (behind - 1 - other).toNat)]
  · have split : 16 - count ≤ (other - (behind - 16)).toNat ∧ (other - (behind - 16)).toNat < 16 ↔
        (behind - 1 - other).toNat < count := by bv_omega
    rw [TransferInst.storeBytes, if_congr split rfl rfl]
    split
    next inside =>
      have index : 15 - (behind - 1 - other).toNat = (other - (behind - 16)).toNat := by bv_omega
      rw [index]
    next => rfl
  · intro i below
    bv_omega
  · intro other below
    bv_omega

end Stores

/-! ## Instructions -/

section Steps

variable {outside : Int → Byte} {host : VectorHost} {guest : VectorState} {operand : Nat → Word}
  {macros : MacroSet}

/-- An instruction of the guest leads to a state that the emitted code holds behind its case. -/
def Simulates (outside : Int → Byte) (macros : MacroSet) (operand : Nat → Word)
    (inst : TransferInst) (host : VectorHost) (guest : VectorState) : Prop :=
  ∃ after, inst.Does operand guest after ∧
    HoldsGuest outside (runTransfer macros operand inst host) after

/-- The pointer to the block that a sum of registers lies in. -/
theorem HoldsGuest.pointer_sum (holds : HoldsGuest outside host guest) :
    (Emitted.Place.pointerAt [(registerSum (operand 1).toNat (operand 2).toNat).and
      (.complement 15)]).pointer macros (host.addressState 0) =
      (block (guest.address operand)).toNat := by
  rw [pointer_pointerAt (eval_blockStart 16 (holds.eval_sum 0)), blockStart_sixteen]

/-- A block that is loaded as a whole; all that is defined are bytes of it. -/
theorem simulates_block {inst : TransferInst} {bytes : Nat → Option Byte}
    (holds : HoldsGuest outside host guest)
    (printed : transferStatements operand inst = transferStatements operand .lvx)
    (loads : inst.loaded guest.memory (guest.address operand) = some bytes)
    (defined : ∀ index byte, bytes index = some byte →
      byte = TransferInst.blockByte guest.memory (guest.address operand) index) :
    Simulates outside macros operand inst host guest := by
  refine ⟨_, .load loads fun index _ byte known => (defined index byte known).symm, ?_⟩
  rw [runTransfer, printed]
  apply holds.storeVec
  change Reversed (shuffleEpi8 _ (tableByte vectorMaskL 0)) _
  apply reversed_maskL (by decide)
  intro index inside
  rw [if_pos (by omega), Nat.zero_add]
  change _ = host.load (Emitted.Place.pointer macros (host.addressState 0) (.pointerAt
    [(registerSum (operand 1).toNat (operand 2).toNat).and (.complement 15)])) index
  rw [holds.pointer_sum, holds.load_block _ inside]

/-- The variable that was assigned, in any iteration of a loop. -/
theorem eval_set (name : AddressVariable) (value : BitVec 32) (counter : Nat) :
    (AddressExpr.variable name).eval ((host.set name value).addressState counter) =
      .uint32 value := by
  rw [addressState_set]
  exact eval_assigned name value

/-- Its low bits, as an index of a row. -/
theorem row_set (name : AddressVariable) (value : BitVec 32) :
    (((AddressExpr.variable name).and (.literal 15)).eval
      ((host.set name value).addressState 0)).toUint32.toNat = blockOffset value := by
  rw [eval_low (eval_set name value 0), CValue.toUint32, toNat_and_fifteen]
  rfl

/-- The pointer to its block. -/
theorem pointer_set (name : AddressVariable) (value : BitVec 32) :
    (Emitted.Place.pointerAt [(AddressExpr.variable name).and (.complement 15)]).pointer macros
      ((host.set name value).addressState 0) = (block value).toNat := by
  rw [pointer_pointerAt (eval_blockStart 16 (eval_set name value 0)), blockStart_sixteen]

/-- A load whose first statement assigns the effective address to `temp`. -/
theorem simulates_temp {inst : TransferInst} {statement : TransferStatement} {vec : Vec}
    {bytes : BigVec} (holds : HoldsGuest outside host guest)
    (printed : transferStatements operand inst =
      [.set .temp (registerSum (operand 1).toNat (operand 2).toNat), statement])
    (loads : inst.loaded guest.memory (guest.address operand) = some fun index =>
      some (bytes index))
    (ran : ∀ after, after = host.set .temp (guest.address operand) →
      statement.run macros (.v (operand 0).toNat) after =
        { after with objects := after.objects.storeVec (.v (operand 0).toNat) vec })
    (reversed : Reversed vec bytes) : Simulates outside macros operand inst host guest := by
  refine ⟨_, .load loads fun index _ byte known => Option.some.inj known, ?_⟩
  have value := @HoldsGuest.eval_sum outside host guest operand holds 0
  rw [runTransfer, printed, List.foldl_cons, List.foldl_cons, List.foldl_nil,
    TransferStatement.run, value, CValue.toUint32, ran _ rfl]
  exact (holds.set .temp _).storeVec _ reversed

theorem simulates_lvlx (holds : HoldsGuest outside host guest) :
    Simulates outside macros operand .lvlx host guest := by
  apply @simulates_temp outside host guest operand macros .lvlx _
    (shuffleEpi8 ((host.set .temp (guest.address operand)).load
      (block (guest.address operand)).toNat)
      (tableByte vectorMaskL (blockOffset (guest.address operand)))) _ holds rfl rfl
  · rintro after rfl
    rw [TransferStatement.run, TransferStatement.tableRow, row_set, pointer_set]
  · apply reversed_maskL (blockOffset_lt _)
    intro index inside
    refine if_ctx_congr Iff.rfl (fun behind => ?_) fun _ => rfl
    rw [(holds.set .temp _).load_block _ behind, blockByte_left]

theorem simulates_lvrx (holds : HoldsGuest outside host guest) :
    Simulates outside macros operand .lvrx host guest := by
  apply @simulates_temp outside host guest operand macros .lvrx _
    (if blockOffset (guest.address operand) = 0 then setzeroSi128
      else shuffleEpi8 ((host.set .temp (guest.address operand)).load
        (block (guest.address operand)).toNat)
        (tableByte vectorMaskR (blockOffset (guest.address operand)))) _ holds rfl rfl
  · rintro after rfl
    have aligned : (((AddressExpr.variable .temp).and (.literal 15)).eval
        ((host.set .temp (guest.address operand)).addressState 0)).toUint32 = 0 ↔
        blockOffset (guest.address operand) = 0 := by
      rw [← @row_set host .temp, BitVec.toNat_eq]
      rfl
    rw [TransferStatement.run, TransferStatement.tableRow, row_set, pointer_set]
    simp only [aligned]
  · have short := blockOffset_lt (guest.address operand)
    split
    next aligned =>
      intro index inside
      exact (if_pos (by omega)).symm
    next =>
      apply reversed_maskR short
      intro index inside
      refine if_ctx_congr Iff.rfl (fun _ => rfl) fun behind => ?_
      have above : 16 ≤ blockOffset (guest.address operand) + index := by omega
      rw [(holds.set .temp _).load_block _ (by omega), blockByte_right _ _ above]

/-- The controls of permutations. -/
theorem simulates_control {inst : TransferInst} {table : Bytes} {bytes : BigVec}
    (holds : HoldsGuest outside host guest)
    (printed : transferStatements operand inst =
      [.set .temp (registerSum (operand 1).toNat (operand 2).toNat),
        .control table ((AddressExpr.variable .temp).and (.literal 15))])
    (loads : inst.loaded guest.memory (guest.address operand) = some fun index =>
      some (bytes index))
    (rows : ∀ index < 16, tableByte table (blockOffset (guest.address operand)) (15 - index) =
      bytes index) : Simulates outside macros operand inst host guest := by
  apply @simulates_temp outside host guest operand macros inst _
    (tableByte table (blockOffset (guest.address operand))) _ holds printed loads
  · rintro after rfl
    rw [TransferStatement.run, TransferStatement.tableRow, row_set]
  · exact rows

/-! ### Stores -/

/-- Bytes that are stored one after the other, from a byte of the vector on. -/
theorem HoldsGuest.store_up (holds : HoldsGuest outside host guest) {start : BitVec 32}
    {place : Nat → Int} {byte : Nat → Byte} {vec : BigVec} {first count : Nat}
    (short : first + count ≤ 16)
    (places : ∀ i < count, place i = (start + BitVec.ofNat 32 (first + i)).toNat)
    (bytes : ∀ i < count, byte i = vec (first + i)) :
    HoldsGuest outside { host with memory := storeEach host.memory place byte count }
      { guest with
        memory := TransferInst.storeBytes guest.memory start first (first + count) vec } := by
  rw [← storeEach_up guest.memory start vec short, storeEach_congr _ _ _ places bytes]
  exact holds.store fun _ _ => rfl

theorem simulates_stvx (holds : HoldsGuest outside host guest) :
    Simulates outside macros operand .stvx host guest := by
  refine ⟨_, .store rfl, ?_⟩
  have start := toNat_block (guest.address operand)
  have small := (guest.address operand).isLt
  apply @HoldsGuest.store_up outside host guest holds (block (guest.address operand)) _ _ _ 0 16
    (by decide)
  · intro i below
    change Emitted.Place.pointer macros (host.addressState 0) (.pointerAt
      [(registerSum (operand 1).toNat (operand 2).toNat).and (.complement 15)]) + (i : Nat) = _
    rw [holds.pointer_sum, BitVec.toNat_add, BitVec.toNat_ofNat]
    omega
  · intro i below
    rw [Nat.zero_add]
    have selected := @reversed_maskL (host.objects (.v (operand 0).toNat))
      (fun index => host.objects (.v (operand 0).toNat) index) 0 (by decide)
      (fun index inside => by rw [if_pos (by omega), Nat.zero_add]) (15 - i) (by omega)
    rw [show 15 - (15 - i) = i by omega] at selected
    exact selected.trans (holds.vectors _ |>.apply (by omega) |>.trans (by
      congr 1
      omega))

/-- A store whose first statement assigns to `ea`. -/
theorem simulates_ea {inst : TransferInst} {statement : TransferStatement} {value : AddressExpr}
    {address : BitVec 32} {memory : BitVec 32 → Byte} (holds : HoldsGuest outside host guest)
    (printed : transferStatements operand inst = [.set .ea value, statement])
    (evaluated : value.eval (host.addressState 0) = .uint32 address)
    (stores : inst.stored guest.memory (guest.address operand) (guest.v (operand 0).toNat) =
      some memory)
    (ran : HoldsGuest outside (host.set .ea address) guest →
      HoldsGuest outside
        (statement.run macros (.v (operand 0).toNat) (host.set .ea address))
        { guest with memory }) : Simulates outside macros operand inst host guest := by
  refine ⟨_, .store stores, ?_⟩
  rw [runTransfer, printed, List.foldl_cons, List.foldl_cons, List.foldl_nil,
    TransferStatement.run, evaluated, CValue.toUint32]
  exact ran (holds.set .ea address)

/-- The number of bytes from an address to the end of its block. -/
theorem count_left (address : BitVec 32) :
    ((AddressExpr.sub (.literal 16) ((AddressExpr.variable .ea).and (.literal 15))).eval
      ((host.set .ea address).addressState 0)).toSize.toNat = 16 - blockOffset address := by
  have low := toNat_and_fifteen address
  have sixteen : BitVec.ofInt 32 16 = 16#32 := rfl
  rw [AddressExpr.eval, eval_low (eval_set .ea address 0), AddressExpr.eval, CValue.sub_int_uint32,
    CValue.toSize, sixteen, BitVec.toNat_setWidth, blockOffset]
  bv_omega

/-- The number of bytes in front of it. -/
theorem count_right (address : BitVec 32) :
    (((AddressExpr.variable .ea).and (.literal 15)).eval
      ((host.set .ea address).addressState 0)).toSize.toNat = blockOffset address := by
  have low := toNat_and_fifteen address
  rw [eval_low (eval_set .ea address 0), CValue.toSize, BitVec.toNat_setWidth, blockOffset]
  bv_omega

theorem simulates_stvlx (holds : HoldsGuest outside host guest) :
    Simulates outside macros operand .stvlx host guest := by
  apply simulates_ea holds rfl (holds.eval_sum 0) rfl
  intro assigned
  have short := blockOffset_lt (guest.address operand)
  rw [TransferStatement.run, count_left]
  have stored := @HoldsGuest.store_up outside _ guest assigned (guest.address operand)
    (fun i => (Emitted.Place.macroAt ((AddressExpr.variable .ea).add .counter)).pointer macros
      ((host.set .ea (guest.address operand)).addressState i))
    (fun i => (host.set .ea (guest.address operand)).objects (.v (operand 0).toNat) (15 - i))
    (guest.v (operand 0).toNat) 0 (16 - blockOffset (guest.address operand)) (by omega)
    (fun i below => by
      rw [addressState_set, Nat.zero_add]
      exact pointer_behind below)
    (fun i below => by rw [Nat.zero_add, assigned.vectors _ i (by omega)])
  rwa [Nat.zero_add] at stored

theorem simulates_stvrx (holds : HoldsGuest outside host guest) :
    Simulates outside macros operand .stvrx host guest := by
  apply simulates_ea holds rfl (holds.eval_sum 0) rfl
  intro assigned
  have short := blockOffset_lt (guest.address operand)
  rw [TransferStatement.run, count_right, ← storeEach_down _ _ _ (Nat.le_of_lt short)]
  have bytes : ∀ i < blockOffset (guest.address operand),
      (host.set .ea (guest.address operand)).objects (.v (operand 0).toNat) (id i) =
        guest.v (operand 0).toNat (15 - i) := fun i below =>
    (assigned.vectors _).apply (show i < 16 by omega)
  rw [storeEach_congr _ _ _ (fun _ _ => rfl) bytes]
  exact assigned.store fun i below => by
    rw [addressState_set]
    exact pointer_before below

/-! ### Elements -/

/-- The sum of registers, aligned to an element. -/
theorem HoldsGuest.eval_element (holds : HoldsGuest outside host guest) (size : Nat) :
    ((registerSum (operand 1).toNat (operand 2).toNat).and (.complement (size - 1))).eval
        (host.addressState 0) = .uint32 (blockStart (guest.address operand) size) :=
  eval_blockStart size (holds.eval_sum 0)

/-- Where the element of an address starts in its block. -/
theorem blockStart_element {size bits : Nat} (power : size = 2 ^ bits) (few : bits ≤ 4)
    (address : BitVec 32) :
    (blockStart address size).toNat =
      (block address).toNat + blockOffset address / size * size := by
  have divides : size ∣ 16 := power ▸ pow_dvd_pow 2 few
  obtain ⟨factor, whole⟩ := divides
  have pos : 0 < size := power ▸ Nat.two_pow_pos bits
  have split : address.toNat = size * (factor * (address.toNat / 16)) + address.toNat % 16 := by
    rw [← Nat.mul_assoc, ← whole]
    omega
  have quotient : address.toNat / size =
      factor * (address.toNat / 16) + address.toNat % 16 / size := by
    conv_lhs => rw [split]
    rw [Nat.mul_add_div pos]
  rw [power, toNat_blockStart, toNat_block, ← power, quotient, Nat.add_mul, blockOffset,
    Nat.mul_comm (factor * _), ← Nat.mul_assoc, ← whole]
  omega

/-- The lane of the element, counted from the other end. -/
theorem element_set {size bits : Nat} (power : size = 2 ^ bits) (few : bits ≤ 4)
    (address : BitVec 32) :
    TransferStatement.element (host.set .ea (blockStart address size)) size =
      16 / size - 1 - blockOffset address / size := by
  have pos : 0 < size := power ▸ Nat.two_pow_pos bits
  have start := toNat_block address
  have short := blockOffset_lt address
  have below : blockOffset address / size * size ≤ blockOffset address := Nat.div_mul_le_self _ _
  have low : (blockStart address size).toNat % 16 = blockOffset address / size * size := by
    rw [blockStart_element power few, start]
    omega
  change 16 / size - 1 - (blockStart address size).toNat % 16 / size = _
  rw [low, Nat.mul_div_cancel _ pos]

/-- A store of one element. -/
theorem simulates_element {inst : TransferInst} {size bits : Nat} (power : size = 2 ^ bits)
    (few : bits ≤ 4) (holds : HoldsGuest outside host guest)
    (printed : transferStatements operand inst =
      [.set .ea ((registerSum (operand 1).toNat (operand 2).toNat).and (.complement (size - 1))),
        .storeElement (.macroAt (.variable .ea)) size])
    (stores : inst.stored guest.memory (guest.address operand) (guest.v (operand 0).toNat) =
      some (TransferInst.storeBytes guest.memory (block (guest.address operand))
        (blockOffset (guest.address operand) / size * size)
        (blockOffset (guest.address operand) / size * size + size)
        (guest.v (operand 0).toNat))) : Simulates outside macros operand inst host guest := by
  have divides : size ∣ 16 := power ▸ pow_dvd_pow 2 few
  have pos : 0 < size := power ▸ Nat.two_pow_pos bits
  have small := (guest.address operand).isLt
  have start := toNat_block (guest.address operand)
  have short := blockOffset_lt (guest.address operand)
  have index : blockOffset (guest.address operand) / size < 16 / size :=
    Nat.div_lt_div_of_lt_of_dvd divides short
  have bound := Vec.lane_end index
  rw [Nat.mul_comm] at bound
  apply simulates_ea holds printed (holds.eval_element size) stores
  intro assigned
  apply assigned.store_up bound
  · intro i below
    rw [pointer_macroAt (eval_set .ea _ 0), blockStart_element power few, BitVec.toNat_add,
      BitVec.toNat_ofNat]
    omega
  · intro i below
    rw [element_set power few, (assigned.vectors _).lane divides index, BigVec.lane,
      byteOf_bigEndian _ _ below, Nat.mul_comm]

/-- A load of one element. -/
theorem simulates_lvehx (holds : HoldsGuest outside host guest) :
    Simulates outside macros operand .lvehx host guest := by
  have assigned := holds.set .ea (blockStart (guest.address operand) 2)
  have small := (guest.address operand).isLt
  have start := toNat_block (guest.address operand)
  have short := blockOffset_lt (guest.address operand)
  have after : runTransfer macros operand .lvehx host =
      { host.set .ea (blockStart (guest.address operand) 2) with
        objects := host.objects.write
          ⟨.v (operand 0).toNat, 2 * (7 - blockOffset (guest.address operand) / 2), .u16⟩
          (bigEndian ((host.set .ea (blockStart (guest.address operand) 2)).load
            (blockStart (guest.address operand) 2).toNat) 0 2) } := by
    have element := @element_set host 2 1 rfl (by decide) (guest.address operand)
    rw [runTransfer]
    change TransferStatement.run macros _ (host.set .ea
      (((registerSum (operand 1).toNat (operand 2).toNat).and (.complement (2 - 1))).eval
        (host.addressState 0)).toUint32) (.loadElement (.macroAt (.variable .ea)) 2) = _
    rw [holds.eval_element, CValue.toUint32, TransferStatement.run, element,
      pointer_macroAt (eval_set .ea _ 0)]
    rfl
  generalize number : bigEndian ((host.set .ea (blockStart (guest.address operand) 2)).load
    (blockStart (guest.address operand) 2).toNat) 0 2 = value at after
  let objects := host.objects.write
    ⟨.v (operand 0).toNat, 2 * (7 - blockOffset (guest.address operand) / 2), .u16⟩ value
  refine ⟨guest.setV (operand 0).toNat fun position =>
    objects (.v (operand 0).toNat) (15 - position), .load rfl ?_, ?_⟩
  · intro index inside byte known
    -- Only bytes of the element are known, and these were assigned.
    obtain ⟨same, equal⟩ := Option.ite_none_right_eq_some.mp known
    obtain rfl := Option.some.inj equal
    have element : index / 2 = blockOffset (guest.address operand) / 2 := same
    have covered : objects (.v (operand 0).toNat) (15 - index) =
        byteOf value (15 - index - 2 * (7 - blockOffset (guest.address operand) / 2)) :=
      if_pos ⟨rfl, by simp only; omega, by simp only; omega⟩
    have place := @blockStart_element 2 1 rfl (by decide) (guest.address operand)
    rw [covered, ← number, show 15 - index - 2 * (7 - blockOffset (guest.address operand) / 2) =
      2 - 1 - index % 2 by omega, byteOf_bigEndian _ _ (by omega), ← assigned.load_block _ inside,
      VectorHost.load, VectorHost.load, place]
    congr 1
    push_cast
    omega
  · rw [after]
    apply assigned.setV
    · exact fun _ _ => rfl
    · exact fun other => Store.write_of_ne (by simp)
    · exact fun other apart => Store.write_of_ne (by simpa using apart)

/-- Every load and store of vector code. -/
theorem simulates_transfer (inst : TransferInst) (holds : HoldsGuest outside host guest) :
    Simulates outside macros operand inst host guest := by
  cases inst with
  | lvehx => exact simulates_lvehx holds
  | lvewx =>
      apply @simulates_block outside host guest operand macros .lvewx _ holds rfl rfl
      intro index byte known
      exact (Option.some.inj (Option.ite_none_right_eq_some.mp known).2).symm
  | lvlx => exact simulates_lvlx holds
  | lvrx => exact simulates_lvrx holds
  | lvsl =>
      apply simulates_control holds rfl rfl
      intro index inside
      rw [tableByte_vectorShiftTableL _ (blockOffset_lt _) _ (by omega)]
      congr 1
      omega
  | lvsr =>
      apply simulates_control holds rfl rfl
      intro index inside
      have short := blockOffset_lt (guest.address operand)
      rw [tableByte_vectorShiftTableR _ short _ (by omega)]
      congr 1
      omega
  | lvx =>
      apply simulates_block holds rfl rfl
      intro index byte known
      exact Option.some.inj known.symm
  | stvehx => exact @simulates_element outside host guest operand macros .stvehx 2 1 rfl (by decide) holds rfl rfl
  | stvewx => exact @simulates_element outside host guest operand macros .stvewx 4 2 rfl (by decide) holds rfl rfl
  | stvlx => exact simulates_stvlx holds
  | stvrx => exact simulates_stvrx holds
  | stvx => exact simulates_stvx holds

end Steps

end UfcRecomp.Recompiler
