import UfcRecomp.Emitted.Register
import UfcRecomp.Lib.CValue

/-!
# Addresses of the emitted loads and stores

The emitted code computes an address as a C++ expression and adds it to the base of guest memory.
What is accessed depends on the type of the expression and on whether the macro converts it to
`uint32_t`: a sum of two `uint32_t` wraps around as the guest's address does, a negative `int`
and a pointer that is moved twice do not.
-/

namespace UfcRecomp.Emitted

open UfcRecomp.Lib

/-! ## The emitted statements -/

/-- The two sets of macros, of `ppc_context.h` and of `xenonrecomp_abi.h`. -/
inductive MacroSet where
  | ppcContext
  | xenonrecompAbi
  deriving DecidableEq

/-- How far from `base` the macros `PPC_LOAD_*`, `PPC_STORE_*` and `PPC_MM_STORE_*` access; those
for a store in front of `eieio` are the same as the others. -/
def MacroSet.pointer : MacroSet → CValue → Int
  | .ppcContext, x => x.offset
  | .xenonrecompAbi, x => x.toUint32.toNat

/-- The local variables in addresses: `ea`, a `uint32_t`, and `temp.u32`. -/
inductive AddressVariable where
  | ea
  | temp
  deriving DecidableEq

/-- The expressions in addresses. -/
inductive AddressExpr where
  /-- A number that was printed as an `int32_t`. -/
  | literal (value : Int)
  /-- The member `u32` of a register. -/
  | register (index : Nat)
  | variable (name : AddressVariable)
  /-- The `size_t` of a loop. -/
  | counter
  | add (left right : AddressExpr)
  | sub (left right : AddressExpr)
  | and (left right : AddressExpr)

/-- `~bits`, an `int`. -/
def AddressExpr.complement (bits : Nat) : AddressExpr := .literal (Int.negSucc bits)

/-- What is accessed: by a macro, or at `base` plus expressions. -/
inductive Place where
  | macroAt (x : AddressExpr)
  | pointerAt (terms : List AddressExpr)

/-- The statements of a load or store, as far as they decide what is accessed. -/
inductive AccessStatement where
  | set (name : AddressVariable) (value : AddressExpr)
  | access (place : Place) (size : Nat)
  | accessIf (condition : AddressExpr) (place : Place) (size : Nat)
  | loop (count : AddressExpr) (place : Place) (size : Nat)

/-- What the expressions are evaluated in. -/
structure AddressState where
  registers : Registers
  locals : AddressVariable → BitVec 32
  counter : Nat

def AddressExpr.eval (state : AddressState) : AddressExpr → CValue
  | .literal value => .int value
  | .register index => .uint32 ((state.registers index).unsigned 32)
  | .variable name => .uint32 (state.locals name)
  | .counter => .size (BitVec.ofNat 64 state.counter)
  | .add left right => (left.eval state).add (right.eval state)
  | .sub left right => (left.eval state).sub (right.eval state)
  | .and left right => (left.eval state).and (right.eval state)

/-- How far from `base` a place is. -/
def Place.pointer (macros : MacroSet) (state : AddressState) : Place → Int
  | .macroAt x => macros.pointer (x.eval state)
  | .pointerAt terms => (terms.map fun term => (term.eval state).offset).sum

/-- The accesses of the statements, as places and sizes. -/
def accesses (macros : MacroSet) (state : AddressState) : List AccessStatement → List (Int × Nat)
  | [] => []
  | .set name value :: rest =>
    accesses macros { state with
      locals := Function.update state.locals name (value.eval state).toUint32 } rest
  | .access place size :: rest => (place.pointer macros state, size) :: accesses macros state rest
  | .accessIf condition place size :: rest =>
    if (condition.eval state).toUint32 = 0 then accesses macros state rest
    else (place.pointer macros state, size) :: accesses macros state rest
  | .loop count place size :: rest =>
    (List.range (count.eval state).toSize.toNat).map
        (fun i => (place.pointer macros { state with counter := i }, size)) ++
      accesses macros state rest

/-! ## The forms -/

/-- The forms in which the cases of `Recompile` print addresses, with the size of the access. -/
inductive AddressForm where
  | d (size : Nat)
  | dUpdate (size : Nat)
  | x (size : Nat)
  | xUpdate (size : Nat)
  | reserve (size : Nat)
  | block
  | element (size : Nat)
  | loadLeft
  | loadRight
  | storeLeft
  | storeRight
  | zero (size : Nat)
  deriving DecidableEq

/-- The sum of two registers, without the first one when it is `r0`. -/
def registerSum (rA rB : Nat) : AddressExpr :=
  if rA ≠ 0 then .add (.register rA) (.register rB) else .register rB

/-- The statements of a form. The operands of a D-form are a register, the displacement and `RA`;
those of an X-form are a register, `RA` and `RB`, and `dcbz` only has the last two. -/
def AddressForm.emit (operand : Nat → BitVec 32) : AddressForm → List AccessStatement
  | .d size =>
    let displacement := AddressExpr.literal (operand 1).toInt
    [.access (.macroAt (if (operand 2).toNat ≠ 0 then
      .add (.register (operand 2).toNat) displacement else displacement)) size]
  | .dUpdate size =>
    [.set .ea (.add (.literal (operand 1).toInt) (.register (operand 2).toNat)),
      .access (.macroAt (.variable .ea)) size]
  | .x size => [.access (.macroAt (registerSum (operand 1).toNat (operand 2).toNat)) size]
  | .xUpdate size =>
    [.set .ea (.add (.register (operand 1).toNat) (.register (operand 2).toNat)),
      .access (.macroAt (.variable .ea)) size]
  | .reserve size =>
    [.access (.pointerAt (if (operand 1).toNat ≠ 0 then
      [.register (operand 1).toNat, .register (operand 2).toNat]
      else [.register (operand 2).toNat])) size]
  | .block =>
    [.access (.pointerAt
      [.and (registerSum (operand 1).toNat (operand 2).toNat) (.complement 15)]) 16]
  | .element size =>
    [.set .ea (.and (registerSum (operand 1).toNat (operand 2).toNat) (.complement (size - 1))),
      .access (.macroAt (.variable .ea)) size]
  | .loadLeft =>
    [.set .temp (registerSum (operand 1).toNat (operand 2).toNat),
      .access (.pointerAt [.and (.variable .temp) (.complement 15)]) 16]
  | .loadRight =>
    [.set .temp (registerSum (operand 1).toNat (operand 2).toNat),
      .accessIf (.and (.variable .temp) (.literal 15))
        (.pointerAt [.and (.variable .temp) (.complement 15)]) 16]
  | .storeLeft =>
    [.set .ea (registerSum (operand 1).toNat (operand 2).toNat),
      .loop (.sub (.literal 16) (.and (.variable .ea) (.literal 15)))
        (.macroAt (.add (.variable .ea) .counter)) 1]
  | .storeRight =>
    [.set .ea (registerSum (operand 1).toNat (operand 2).toNat),
      .loop (.and (.variable .ea) (.literal 15))
        (.macroAt (.sub (.sub (.variable .ea) .counter) (.literal 1))) 1]
  | .zero size =>
    [.access (.pointerAt
      [.and (registerSum (operand 0).toNat (operand 1).toNat) (.complement (size - 1))]) size]

/-- The instructions with a case that loads or stores. -/
inductive AccessInst where
  | dcbz | dcbzl
  | lbz | lbzu | lbzx | lbzux
  | ld | ldarx | ldu | ldux | ldx
  | lfd | lfdu | lfdx
  | lfs | lfsu | lfsux | lfsx
  | lha | lhau | lhax
  | lhz | lhzu | lhzux | lhzx
  | lvewx | lvewx128 | lvx | lvx128
  | lvehx
  | lvlx | lvlx128
  | lvrx | lvrx128
  | lwa | lwarx | lwax | lwbrx
  | lwz | lwzu | lwzux | lwzx
  | stb | stbu | stbux | stbx
  | std | stdcx | stdu | stdux | stdx
  | stfd | stfdu | stfdx | stfiwx
  | stfs | stfsu | stfsux | stfsx
  | sth | sthu | sthbrx | sthux | sthx
  | stvehx
  | stvewx | stvewx128
  | stvlx | stvlx128
  | stvrx | stvrx128
  | stvx | stvx128
  | stw | stwbrx | stwcx | stwu | stwux | stwx
  deriving DecidableEq

/-- What the case of an instruction prints. -/
def AccessInst.form : AccessInst → AddressForm
  | .dcbz => .zero 32
  | .dcbzl => .zero 128
  | .lbz => .d 1
  | .lbzu => .dUpdate 1
  | .lbzx => .x 1
  | .lbzux => .xUpdate 1
  | .ld => .d 8
  | .ldarx => .reserve 8
  | .ldu => .dUpdate 8
  | .ldux => .xUpdate 8
  | .ldx => .x 8
  | .lfd => .d 8
  | .lfdu => .dUpdate 8
  | .lfdx => .x 8
  | .lfs => .d 4
  | .lfsu => .dUpdate 4
  | .lfsux => .xUpdate 4
  | .lfsx => .x 4
  | .lha => .d 2
  | .lhau => .dUpdate 2
  | .lhax => .x 2
  | .lhz => .d 2
  | .lhzu => .dUpdate 2
  | .lhzux => .xUpdate 2
  | .lhzx => .x 2
  | .lvewx | .lvewx128 | .lvx | .lvx128 => .block
  | .lvehx => .element 2
  | .lvlx | .lvlx128 => .loadLeft
  | .lvrx | .lvrx128 => .loadRight
  | .lwa => .d 4
  | .lwarx => .reserve 4
  | .lwax => .x 4
  | .lwbrx => .x 4
  | .lwz => .d 4
  | .lwzu => .dUpdate 4
  | .lwzux => .xUpdate 4
  | .lwzx => .x 4
  | .stb => .d 1
  | .stbu => .dUpdate 1
  | .stbux => .xUpdate 1
  | .stbx => .x 1
  | .std => .d 8
  | .stdcx => .reserve 8
  | .stdu => .dUpdate 8
  | .stdux => .xUpdate 8
  | .stdx => .x 8
  | .stfd => .d 8
  | .stfdu => .dUpdate 8
  | .stfdx => .x 8
  | .stfiwx => .x 4
  | .stfs => .d 4
  | .stfsu => .dUpdate 4
  | .stfsux => .xUpdate 4
  | .stfsx => .x 4
  | .sth => .d 2
  | .sthu => .dUpdate 2
  | .sthbrx => .x 2
  | .sthux => .xUpdate 2
  | .sthx => .x 2
  | .stvehx => .element 2
  | .stvewx | .stvewx128 => .element 4
  | .stvlx | .stvlx128 => .storeLeft
  | .stvrx | .stvrx128 => .storeRight
  | .stvx | .stvx128 => .block
  | .stw => .d 4
  | .stwbrx => .x 4
  | .stwcx => .reserve 4
  | .stwu => .dUpdate 4
  | .stwux => .xUpdate 4
  | .stwx => .x 4

/-- What the emitted code of an instruction accesses. -/
def AccessInst.accesses (inst : AccessInst) (macros : MacroSet) (operand : Nat → BitVec 32)
    (state : AddressState) : List (Int × Nat) :=
  Emitted.accesses macros state (inst.form.emit operand)

/-! ## The guest's addresses -/

/-- The low half of `RA`, where `r0` stands for zero. -/
def registerOrZero (registers : Registers) (rA : Nat) : BitVec 32 :=
  if rA = 0 then 0 else (registers rA).unsigned 32

/-- The effective address, modulo `2 ^ 32`. -/
def AddressForm.effectiveAddress (operand : Nat → BitVec 32) (registers : Registers) :
    AddressForm → BitVec 32
  | .d _ | .dUpdate _ => registerOrZero registers (operand 2).toNat + operand 1
  | .zero _ =>
    registerOrZero registers (operand 0).toNat + (registers (operand 1).toNat).unsigned 32
  | _ => registerOrZero registers (operand 1).toNat + (registers (operand 2).toNat).unsigned 32

/-- The start of the block of a size that an address lies in; sizes are powers of two. -/
def blockStart (address : BitVec 32) (size : Nat) : BitVec 32 :=
  address &&& ~~~(BitVec.ofNat 32 (size - 1))

/-- What a form accesses at an effective address: the address itself, the block that it lies in,
or the bytes of its block from there on or up to there. -/
def AddressForm.guestAccesses (address : BitVec 32) : AddressForm → List (BitVec 32 × Nat)
  | .d size | .dUpdate size | .x size | .xUpdate size | .reserve size => [(address, size)]
  | .element size | .zero size => [(blockStart address size, size)]
  | .block | .loadLeft => [(blockStart address 16, 16)]
  | .loadRight => if address &&& 15 = 0 then [] else [(blockStart address 16, 16)]
  | .storeLeft =>
    (List.range (16 - (address &&& 15).toNat)).map fun i => (address + BitVec.ofNat 32 i, 1)
  | .storeRight =>
    (List.range (address &&& 15).toNat).map fun i => (address - BitVec.ofNat 32 i - 1, 1)

/-- A form has a defect where the address expression is not a `uint32_t`: a displacement without a
register in the macros that do not convert it, and a pointer that is moved by two registers. An
update form takes `r0` for a register. -/
def AddressForm.StaysInGuestSpace (macros : MacroSet) (operand : Nat → BitVec 32)
    (registers : Registers) : AddressForm → Prop
  | .d _ => macros = .ppcContext → (operand 2).toNat = 0 → 0 ≤ (operand 1).toInt
  | .dUpdate _ => (operand 2).toNat = 0 → (registers 0).unsigned 32 = 0
  | .xUpdate _ => (operand 1).toNat = 0 → (registers 0).unsigned 32 = 0
  | .reserve _ => (operand 1).toNat ≠ 0 →
    ((registers (operand 1).toNat).unsigned 32).toNat +
      ((registers (operand 2).toNat).unsigned 32).toNat < 2 ^ 32
  | _ => True

/-- An access to guest memory. -/
def fromBase (access : BitVec 32 × Nat) : Int × Nat := (access.1.toNat, access.2)

/-! ## What is accessed -/

section Accesses

variable {macros : MacroSet} {operand : Nat → BitVec 32} {state : AddressState}

/-- A `uint32_t` stays in the guest's space. -/
@[simp] theorem MacroSet.pointer_uint32 (macros : MacroSet) (value : BitVec 32) :
    macros.pointer (.uint32 value) = value.toNat := by
  cases macros <;> rfl

theorem eval_registerSum (rA rB : Nat) : (registerSum rA rB).eval state =
    .uint32 (registerOrZero state.registers rA + (state.registers rB).unsigned 32) := by
  by_cases zero : rA = 0
  · simp [registerSum, registerOrZero, zero, AddressExpr.eval]
  · simp [registerSum, registerOrZero, zero, AddressExpr.eval]

/-- Masking the low bits leads to the start of a block. -/
theorem eval_blockStart {x : AddressExpr} {address : BitVec 32} (size : Nat)
    (found : x.eval state = .uint32 address) :
    (AddressExpr.and x (.complement (size - 1))).eval state =
      .uint32 (blockStart address size) := by
  rw [AddressExpr.eval, found, AddressExpr.complement, AddressExpr.eval, CValue.and_uint32_int,
    BitVec.ofInt_negSucc_eq_not_ofNat, blockStart]

theorem eval_low {x : AddressExpr} {address : BitVec 32} (found : x.eval state = .uint32 address) :
    (AddressExpr.and x (.literal 15)).eval state = .uint32 (address &&& 15) := by
  rw [AddressExpr.eval, found, AddressExpr.eval, CValue.and_uint32_int]
  rfl

theorem pointer_macroAt {x : AddressExpr} {address : BitVec 32}
    (found : x.eval state = .uint32 address) :
    (Place.macroAt x).pointer macros state = address.toNat := by
  rw [Place.pointer, found, MacroSet.pointer_uint32]

theorem pointer_pointerAt {x : AddressExpr} {address : BitVec 32}
    (found : x.eval state = .uint32 address) :
    (Place.pointerAt [x]).pointer macros state = address.toNat := by
  rw [Place.pointer, List.map_singleton, List.sum_singleton, found, CValue.offset]

/-- The state after an assignment. -/
def AddressState.assign (state : AddressState) (name : AddressVariable) (address : BitVec 32) :
    AddressState :=
  { state with locals := Function.update state.locals name address }

theorem accesses_set {name : AddressVariable} {x : AddressExpr} {address : BitVec 32}
    (found : x.eval state = .uint32 address) (rest : List AccessStatement) :
    accesses macros state (.set name x :: rest) =
      accesses macros (state.assign name address) rest := by
  rw [accesses, found, CValue.toUint32, AddressState.assign]

theorem eval_assigned (name : AddressVariable) (address : BitVec 32) :
    (AddressExpr.variable name).eval (state.assign name address) = .uint32 address := by
  simp [AddressExpr.eval, AddressState.assign]

/-- What a form accesses is what the guest accesses. -/
def AddressForm.AccessesGuest (macros : MacroSet) (operand : Nat → BitVec 32)
    (state : AddressState) (form : AddressForm) : Prop :=
  accesses macros state (form.emit operand) =
    (form.guestAccesses (form.effectiveAddress operand state.registers)).map fromBase

theorem accessesGuest_d (size : Nat) : (AddressForm.d size).AccessesGuest macros operand state ↔
    (AddressForm.d size).StaysInGuestSpace macros operand state.registers := by
  simp only [AddressForm.AccessesGuest, AddressForm.emit, AddressForm.guestAccesses,
    AddressForm.effectiveAddress, AddressForm.StaysInGuestSpace, registerOrZero, accesses,
    Place.pointer, fromBase, List.map_cons, List.map_nil]
  by_cases zero : (operand 2).toNat = 0
  · have bounds := (operand 1).toInt_eq_toNat_cond
    have small := (operand 1).isLt
    rw [if_neg (by simp [zero]), if_pos zero]
    cases macros with
    | ppcContext =>
        simp [zero, AddressExpr.eval, MacroSet.pointer, CValue.offset]
        omega
    | xenonrecompAbi => simp [AddressExpr.eval, MacroSet.pointer, CValue.toUint32]
  · rw [if_pos zero, if_neg zero]
    simp [zero, AddressExpr.eval]

/-- The address in an update form, where `RA` is always a register. -/
theorem update_iff {rA : Nat} {other : BitVec 32} {registers : Registers} :
    (registers rA).unsigned 32 + other = registerOrZero registers rA + other ↔
      (rA = 0 → (registers 0).unsigned 32 = 0) := by
  rw [BitVec.add_left_inj, registerOrZero]
  by_cases zero : rA = 0
  · subst zero
    simp
  · simp [zero]

theorem accessesGuest_update {form : AddressForm} {rA size : Nat} {sum : AddressExpr}
    {other : BitVec 32}
    (emitted : form.emit operand = [.set .ea sum, .access (.macroAt (.variable .ea)) size])
    (found : sum.eval state = .uint32 ((state.registers rA).unsigned 32 + other))
    (guest : form.guestAccesses (form.effectiveAddress operand state.registers) =
      [(registerOrZero state.registers rA + other, size)]) :
    form.AccessesGuest macros operand state ↔
      (rA = 0 → (state.registers 0).unsigned 32 = 0) := by
  rw [AddressForm.AccessesGuest, emitted, guest, accesses_set found, accesses,
    pointer_macroAt (eval_assigned _ _), ← @update_iff rA other]
  constructor
  · intro same
    have equal := congrArg Prod.fst (List.head_eq_of_cons_eq same)
    exact BitVec.eq_of_toNat_eq (Int.ofNat_inj.mp equal)
  · intro same
    rw [same]
    rfl

theorem accessesGuest_dUpdate (size : Nat) :
    (AddressForm.dUpdate size).AccessesGuest macros operand state ↔
      (AddressForm.dUpdate size).StaysInGuestSpace macros operand state.registers := by
  apply accessesGuest_update rfl _ rfl
  rw [AddressExpr.eval, AddressExpr.eval, AddressExpr.eval, CValue.add_int_uint32,
    BitVec.ofInt_toInt, BitVec.add_comm]

theorem accessesGuest_xUpdate (size : Nat) :
    (AddressForm.xUpdate size).AccessesGuest macros operand state ↔
      (AddressForm.xUpdate size).StaysInGuestSpace macros operand state.registers :=
  accessesGuest_update rfl rfl rfl

theorem accessesGuest_reserve (size : Nat) :
    (AddressForm.reserve size).AccessesGuest macros operand state ↔
      (AddressForm.reserve size).StaysInGuestSpace macros operand state.registers := by
  simp only [AddressForm.AccessesGuest, AddressForm.emit, AddressForm.guestAccesses,
    AddressForm.effectiveAddress, AddressForm.StaysInGuestSpace, registerOrZero, accesses,
    Place.pointer, fromBase, List.map_cons, List.map_nil]
  by_cases zero : (operand 1).toNat = 0
  · rw [if_neg (by simp [zero]), if_pos zero]
    simp [zero, AddressExpr.eval, CValue.offset]
  · rw [if_pos zero, if_neg zero]
    simp [zero, AddressExpr.eval, CValue.offset]
    omega

theorem accessesGuest_x (size : Nat) : (AddressForm.x size).AccessesGuest macros operand state := by
  rw [AddressForm.AccessesGuest, AddressForm.emit, accesses, accesses,
    pointer_macroAt (eval_registerSum _ _)]
  rfl

/-- The forms that mask their address. -/
theorem accessesGuest_block : AddressForm.block.AccessesGuest macros operand state := by
  rw [AddressForm.AccessesGuest, AddressForm.emit, accesses, accesses,
    pointer_pointerAt (eval_blockStart 16 (eval_registerSum _ _))]
  rfl

theorem accessesGuest_zero (size : Nat) :
    (AddressForm.zero size).AccessesGuest macros operand state := by
  rw [AddressForm.AccessesGuest, AddressForm.emit, accesses, accesses,
    pointer_pointerAt (eval_blockStart size (eval_registerSum _ _))]
  rfl

theorem accessesGuest_element (size : Nat) :
    (AddressForm.element size).AccessesGuest macros operand state := by
  rw [AddressForm.AccessesGuest, AddressForm.emit,
    accesses_set (eval_blockStart size (eval_registerSum _ _)), accesses, accesses,
    pointer_macroAt (eval_assigned _ _)]
  rfl

theorem accessesGuest_loadLeft : AddressForm.loadLeft.AccessesGuest macros operand state := by
  rw [AddressForm.AccessesGuest, AddressForm.emit, accesses_set (eval_registerSum _ _), accesses,
    accesses, pointer_pointerAt (eval_blockStart 16 (eval_assigned _ _))]
  rfl

theorem accessesGuest_loadRight : AddressForm.loadRight.AccessesGuest macros operand state := by
  have right (address : BitVec 32) : accesses macros (state.assign .temp address)
      [.accessIf (.and (.variable .temp) (.literal 15))
        (.pointerAt [.and (.variable .temp) (.complement 15)]) 16] =
      (AddressForm.loadRight.guestAccesses address).map fromBase := by
    rw [accesses, accesses, pointer_pointerAt (eval_blockStart 16 (eval_assigned _ _)),
      eval_low (eval_assigned _ _), CValue.toUint32, AddressForm.guestAccesses]
    split
    · rfl
    · rfl
  rw [AddressForm.AccessesGuest, AddressForm.emit, accesses_set (eval_registerSum _ _)]
  exact right _

theorem toNat_and_fifteen (address : BitVec 32) : (address &&& 15).toNat = address.toNat % 16 := by
  rw [BitVec.toNat_and]
  exact Nat.and_two_pow_sub_one_eq_mod address.toNat 4

/-- A `size_t` that is a guest address. -/
theorem pointer_size {x : AddressExpr} {value : BitVec 64} {address : BitVec 32}
    (found : x.eval state = .size value) (same : value.toNat = address.toNat) :
    (Place.macroAt x).pointer macros state = address.toNat := by
  have small := address.isLt
  rw [Place.pointer, found]
  cases macros with
  | ppcContext =>
      rw [MacroSet.pointer, CValue.offset, BitVec.toInt_eq_toNat_of_lt (by omega), same]
  | xenonrecompAbi =>
      rw [MacroSet.pointer, CValue.toUint32, BitVec.toNat_setWidth, same, Nat.mod_eq_of_lt small]

/-- A byte behind the address in its block. -/
theorem pointer_behind {address : BitVec 32} {i : Nat} (inside : i < 16 - address.toNat % 16) :
    (Place.macroAt (.add (.variable .ea) .counter)).pointer macros
      { state.assign .ea address with counter := i } = (address + BitVec.ofNat 32 i).toNat := by
  have eval : (AddressExpr.add (.variable .ea) .counter).eval
      { state.assign .ea address with counter := i } =
      .size (address.setWidth 64 + BitVec.ofNat 64 i) := by
    simp [AddressExpr.eval, AddressState.assign]
  apply pointer_size eval
  have small := address.isLt
  rw [BitVec.toNat_add, BitVec.toNat_setWidth, BitVec.toNat_ofNat, BitVec.toNat_add,
    BitVec.toNat_ofNat]
  omega

/-- A byte in front of the address in its block. -/
theorem pointer_before {address : BitVec 32} {i : Nat} (inside : i < address.toNat % 16) :
    (Place.macroAt (.sub (.sub (.variable .ea) .counter) (.literal 1))).pointer macros
      { state.assign .ea address with counter := i } =
      (address - BitVec.ofNat 32 i - 1).toNat := by
  have eval : (AddressExpr.sub (.sub (.variable .ea) .counter) (.literal 1)).eval
      { state.assign .ea address with counter := i } =
      .size (address.setWidth 64 - BitVec.ofNat 64 i - BitVec.ofInt 64 1) := by
    simp [AddressExpr.eval, AddressState.assign]
  apply pointer_size eval
  have small := address.isLt
  have one : BitVec.ofInt 64 1 = 1#64 := rfl
  rw [one, BitVec.toNat_sub, BitVec.toNat_sub, BitVec.toNat_setWidth, BitVec.toNat_ofNat,
    BitVec.toNat_ofNat, BitVec.toNat_sub, BitVec.toNat_sub, BitVec.toNat_ofNat]
  change _ = (2 ^ 32 - 1 + _) % 2 ^ 32
  omega

theorem accessesGuest_storeLeft : AddressForm.storeLeft.AccessesGuest macros operand state := by
  have left (address : BitVec 32) : accesses macros (state.assign .ea address)
      [.loop (.sub (.literal 16) (.and (.variable .ea) (.literal 15)))
        (.macroAt (.add (.variable .ea) .counter)) 1] =
      (AddressForm.storeLeft.guestAccesses address).map fromBase := by
    have low := toNat_and_fifteen address
    have sixteen : BitVec.ofInt 32 16 = 16#32 := rfl
    have count : ((AddressExpr.sub (.literal 16) (.and (.variable .ea) (.literal 15))).eval
        (state.assign .ea address)).toSize.toNat = 16 - (address &&& 15).toNat := by
      rw [AddressExpr.eval, eval_low (eval_assigned _ _), AddressExpr.eval, CValue.sub_int_uint32,
        CValue.toSize, sixteen, BitVec.toNat_setWidth]
      bv_omega
    rw [accesses, accesses, List.append_nil, count, AddressForm.guestAccesses, List.map_map]
    apply List.map_congr_left
    intro i inside
    rw [pointer_behind (low ▸ List.mem_range.mp inside)]
    rfl
  rw [AddressForm.AccessesGuest, AddressForm.emit, accesses_set (eval_registerSum _ _)]
  exact left _

theorem accessesGuest_storeRight : AddressForm.storeRight.AccessesGuest macros operand state := by
  have right (address : BitVec 32) : accesses macros (state.assign .ea address)
      [.loop (.and (.variable .ea) (.literal 15))
        (.macroAt (.sub (.sub (.variable .ea) .counter) (.literal 1))) 1] =
      (AddressForm.storeRight.guestAccesses address).map fromBase := by
    have low := toNat_and_fifteen address
    have count : ((AddressExpr.and (.variable .ea) (.literal 15)).eval
        (state.assign .ea address)).toSize.toNat = (address &&& 15).toNat := by
      rw [eval_low (eval_assigned _ _), CValue.toSize, BitVec.toNat_setWidth]
      bv_omega
    rw [accesses, accesses, List.append_nil, count, AddressForm.guestAccesses, List.map_map]
    apply List.map_congr_left
    intro i inside
    rw [pointer_before (low ▸ List.mem_range.mp inside)]
    rfl
  rw [AddressForm.AccessesGuest, AddressForm.emit, accesses_set (eval_registerSum _ _)]
  exact right _

/-- For each form. -/
theorem accessesGuest_iff (form : AddressForm) :
    form.AccessesGuest macros operand state ↔
      form.StaysInGuestSpace macros operand state.registers := by
  cases form with
  | d size => exact accessesGuest_d size
  | dUpdate size => exact accessesGuest_dUpdate size
  | xUpdate size => exact accessesGuest_xUpdate size
  | reserve size => exact accessesGuest_reserve size
  | x size => exact iff_of_true (accessesGuest_x size) trivial
  | element size => exact iff_of_true (accessesGuest_element size) trivial
  | zero size => exact iff_of_true (accessesGuest_zero size) trivial
  | block => exact iff_of_true accessesGuest_block trivial
  | loadLeft => exact iff_of_true accessesGuest_loadLeft trivial
  | loadRight => exact iff_of_true accessesGuest_loadRight trivial
  | storeLeft => exact iff_of_true accessesGuest_storeLeft trivial
  | storeRight => exact iff_of_true accessesGuest_storeRight trivial

end Accesses

/-- The emitted code of a load or store accesses the guest's addresses, with either set of macros,
exactly where its form has no defect. -/
theorem accesses_guest (inst : AccessInst) (macros : MacroSet) (operand : Nat → BitVec 32)
    (state : AddressState) :
    inst.accesses macros operand state =
        (inst.form.guestAccesses (inst.form.effectiveAddress operand state.registers)).map
          fromBase ↔
      inst.form.StaysInGuestSpace macros operand state.registers :=
  accessesGuest_iff inst.form

/-- A load four bytes below zero leaves guest memory with the macros of `ppc_context.h`, and a load
with a reservation leaves it with both sets when two registers sum up to more than 32 bits. -/
theorem not_accesses_guest :
    (AccessInst.lwz.accesses .ppcContext (fun i => if i = 1 then -4 else 0)
        ⟨fun _ => ⟨0⟩, fun _ => 0, 0⟩ = [(-4, 4)] ∧
      AddressForm.effectiveAddress (fun i => if i = 1 then -4 else 0) (fun _ => ⟨0⟩)
        AccessInst.lwz.form = 0xFFFFFFFC) ∧
    ∀ macros, AccessInst.lwarx.accesses macros (fun i => BitVec.ofNat 32 i)
        ⟨fun _ => ⟨0x80000000⟩, fun _ => 0, 0⟩ = [(2 ^ 32, 4)] ∧
      AddressForm.effectiveAddress (fun i => BitVec.ofNat 32 i) (fun _ => ⟨0x80000000⟩)
        AccessInst.lwarx.form = 0 := by
  refine ⟨⟨by decide, by decide⟩, fun macros => ?_⟩
  cases macros <;> exact ⟨by decide, by decide⟩

end UfcRecomp.Emitted
