import UfcRecomp.Recompiler.Body

/-!
# Registers that may be local variables

The count register, XER, the reservation and the condition registers are members of the context or
local variables, as the configuration says. Every case names them with the same functions. What a
case reads and writes of them is listed statement by statement; what it computes from that is left
to the semantics.
-/

namespace UfcRecomp.Recompiler

open UfcRecomp.Ppc UfcRecomp.Utils UfcRecomp.Analyze

/-! ## Members -/

/-- The registers whose names depend on the configuration. -/
inductive SpecialRegister where
  | ctr
  | xer
  | reserved
  | cr (index : Nat)
  deriving DecidableEq

/-- Whether `ctr`, `xer`, `reserved` and `cr` name a local variable. -/
def RecompilerConfig.isLocal (config : RecompilerConfig) : SpecialRegister → Bool
  | .ctr => config.ctrAsLocalVariable
  | .xer => config.xerAsLocalVariable
  | .reserved => config.reservedRegisterAsLocalVariable
  | .cr _ => config.crRegistersAsLocalVariables

/-- The members of `PPCCRRegister`; `so` and `un` are one. -/
inductive CrMember where
  | lt
  | gt
  | eq
  | so
  deriving DecidableEq

/-- The members that statements name; of a 64-bit register the two halves. -/
inductive Member where
  | ctrLow
  | ctrHigh
  | so
  | ov
  | ca
  | reservedLow
  | reservedHigh
  | cr (index : Nat) (member : CrMember)
  deriving DecidableEq

namespace Member

def register : Member → SpecialRegister
  | .ctrLow | .ctrHigh => .ctr
  | .so | .ov | .ca => .xer
  | .reservedLow | .reservedHigh => .reserved
  | .cr index _ => .cr index

@[reducible]
def width : Member → Nat
  | .ctrLow | .ctrHigh | .reservedLow | .reservedHigh => 32
  | _ => 8

end Member

/-- A value for every member. -/
abbrev Members := (member : Member) → BitVec member.width

/-- The members of a register. -/
def SpecialRegister.members : SpecialRegister → List Member
  | .ctr => [.ctrLow, .ctrHigh]
  | .xer => [.so, .ov, .ca]
  | .reserved => [.reservedLow, .reservedHigh]
  | .cr index => [.cr index .lt, .cr index .gt, .cr index .eq, .cr index .so]

/-- `crb`. -/
def crb (index : Nat) : Member :=
  .cr (index / 4) (match index % 4 with
    | 0 => .lt
    | 1 => .gt
    | 2 => .eq
    | _ => .so)

/-! ## Statements of a case -/

/-- A statement, with the members that it reads and those that it writes. -/
structure Piece where
  reads : List Member
  writes : List Member

namespace Piece

/-- A statement that names none of the registers. -/
def plain : Piece := ⟨[], []⟩

/-- A comparison with `xer` for the summary overflow bit. -/
def compare (index : Nat) : Piece := ⟨[.so], (SpecialRegister.cr index).members⟩

/-- The comparison of floating-point numbers. -/
def compareFloat (index : Nat) : Piece := ⟨[], (SpecialRegister.cr index).members⟩

def setFromMask (index : Nat) : Piece := ⟨[], (SpecialRegister.cr index).members⟩

def useCarry : Piece := ⟨[.ca], []⟩

def setCarry : Piece := ⟨[], [.ca]⟩

/-- The result of a conditional store. -/
def storeConditional (reserved : List Member) : List Piece :=
  [⟨[], [.cr 0 .lt]⟩, ⟨[], [.cr 0 .gt]⟩, ⟨reserved, [.cr 0 .eq]⟩, ⟨[.so], [.cr 0 .so]⟩]

end Piece

/-- The instructions with a case that names one of the registers, besides those that have an
identifier of their own in the model. -/
inductive RegisterInst where
  | addc | adde | addic | addme | addze | and | andc | andi | andis
  | cmpd | cmpdi | cmpld | cmpldi | cmplw | cmpw | cmpwi | cror | crorc
  | divdu | divw | divwu | eqv | extsb | extsh | extsw | fcmpu
  | ldarx | lwarx | mfcr | mfocrf | mr | mtcr | mtxer | mulhwu | mullw | neg | not | or
  | slw | srad | sradi | sraw | srawi | srw | stdcx | stwcx
  | subf | subfc | subfe | subfic | subfze
  | vcmpbfp | vcmpbfp128 | vcmpeqfp | vcmpeqfp128 | vcmpequb | vcmpequh | vcmpequw | vcmpequw128
  | vcmpgefp | vcmpgefp128 | vcmpgtfp | vcmpgtfp128 | vcmpgtub | vcmpgtuh | vcmpgtsh | vcmpgtsw
  | xor
  deriving DecidableEq

/-- All members of the condition registers. -/
def allCr : List Member := (List.range 8).flatMap fun index => (SpecialRegister.cr index).members

/-- The statements of a case; `record` says whether there is a dot in the name of the opcode. -/
def RegisterInst.pieces (record : Bool) (operand : Nat → Nat) : RegisterInst → List Piece
  | .and | .andc | .divdu | .divw | .divwu | .eqv | .extsb | .extsh | .extsw => ordinary
  | .mr | .mulhwu | .mullw | .neg | .not | .or | .slw | .srw | .subf | .xor => ordinary
  | .andi | .andis => [.plain, .compare 0]
  | .addc | .addic | .subfc => [.setCarry, .plain] ++ recordForm
  | .adde | .subfe | .subfze => [.useCarry, .useCarry, .setCarry] ++ recordForm
  | .addze | .addme => [.useCarry, .setCarry, .plain] ++ recordForm
  | .sraw | .srawi => [.plain, .setCarry, .plain] ++ recordForm
  | .srad | .sradi => [.plain, .setCarry, .plain]
  | .subfic => [.setCarry, .plain]
  | .cmpd | .cmpdi | .cmpld | .cmpldi | .cmplw | .cmpw | .cmpwi => [.compare (operand 0)]
  | .fcmpu => [.compareFloat (operand 0)]
  | .cror | .crorc => [⟨[crb (operand 1), crb (operand 2)], [crb (operand 0)]⟩]
  | .ldarx => [⟨[], [.reservedLow, .reservedHigh]⟩, ⟨[.reservedLow, .reservedHigh], []⟩]
  | .lwarx => [⟨[], [.reservedLow]⟩, ⟨[.reservedLow], []⟩]
  | .stdcx => Piece.storeConditional [.reservedLow, .reservedHigh]
  | .stwcx => Piece.storeConditional [.reservedLow]
  | .mfcr => [⟨allCr, []⟩]
  | .mfocrf => [⟨(SpecialRegister.cr 6).members, []⟩]
  | .mtcr => [⟨[], allCr⟩]
  | .mtxer => [⟨[], [.so]⟩, ⟨[], [.ov]⟩, ⟨[], [.ca]⟩]
  | .vcmpbfp | .vcmpbfp128 | .vcmpeqfp | .vcmpeqfp128 | .vcmpgefp | .vcmpgefp128 => vector
  | .vcmpequb | .vcmpequh | .vcmpequw | .vcmpequw128 | .vcmpgtfp | .vcmpgtfp128 => vector
  | .vcmpgtub | .vcmpgtuh | .vcmpgtsh | .vcmpgtsw => vector
where
  recordForm : List Piece := if record then [.compare 0] else []
  ordinary : List Piece := .plain :: recordForm
  vector : List Piece := .plain :: if record then [.setFromMask 6] else []

/-- What the cases are told about the instructions that the model does not name: which case it is,
and whether there is a dot in the name. -/
structure RegisterNames where
  registerInst : Nat → Option RegisterInst
  record : Word → Bool

/-- The statements of an instruction that goes on to the next one. -/
def RegisterNames.pieces (names : RegisterNames) (insn : Insn) : List Piece :=
  let operand (index : Nat) := (insn.operand index).toNat
  let recordForm : List Piece := if names.record insn.instruction then [.compare 0] else []
  match insn.opcode with
  | some .cmplwi => [.compare (operand 0)]
  | some .add | some .clrlwi | some .rlwinm | some .rotlwi => .plain :: recordForm
  | some .mtctr => [⟨[], SpecialRegister.ctr.members⟩]
  | some (.other number) =>
    match names.registerInst number with
    | some inst => inst.pieces (names.record insn.instruction) operand
    | none => [.plain]
  | _ => [.plain]

/-! ## Arguments of hooks -/

/-- `atoi` of decimal digits. -/
def atoi (digits : List Char) : Nat :=
  (digits.takeWhile Char.isDigit).foldl (fun value digit => 10 * value + (digit.toNat - 48)) 0

/-- The register that an argument of a hook names, if it is one of these. -/
def hookRegister (reg : String) : Option SpecialRegister :=
  match reg.toList with
  | 'c' :: rest => if reg = "ctr" then some .ctr else some (.cr (atoi (rest.drop 1)))
  | 'x' :: _ => some .xer
  | 'r' :: _ => if reg = "reserved" then some .reserved else none
  | _ => none

/-- A hook gets references, so that it may read and write all members. -/
def hookMembers (registers : List String) : List Member :=
  (registers.filterMap hookRegister).flatMap SpecialRegister.members

/-! ## Conditions -/

def CrField.member : CrField → CrMember
  | .lt => .lt
  | .gt => .gt
  | .eq => .eq

/-- The members that a condition names. -/
def Condition.members : Condition → List Member
  | .cr _ index cond => [.cr index cond.member]
  | .ctr _ => [.ctrLow]
  | .ctrAndEq _ _ index => [.ctrLow, .cr index .eq]

/-- The value of a condition. -/
def Condition.holds (members : Members) : Condition → Bool
  | .cr negated index cond => (members (.cr index cond.member) ≠ 0) != negated
  | .ctr zero => (members .ctrLow = 0) == zero
  | .ctrAndEq zero negated index =>
    ((members .ctrLow = 0) == zero) && ((members (.cr index .eq) ≠ 0) != negated)

end UfcRecomp.Recompiler
