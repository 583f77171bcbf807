import UfcRecomp.Lib.CProgram
import UfcRecomp.Ppc.Word

/-!
# The statements of integer instructions

The C++ statements that `Recompile` prints for the integer instructions that have a record form,
and for `subfic`. A register is one object, whether it is a member of the context or a local
variable.
-/

namespace UfcRecomp.Recompiler

open UfcRecomp.Lib UfcRecomp.Ppc

/-! ## Objects -/

/-- What the statements name: guest registers and the temporaries of a function. -/
inductive Object where
  | r (index : Nat)
  | f (index : Nat)
  | v (index : Nat)
  | cr (index : Nat)
  | xer
  | reserved
  | fpscr
  | temp
  | vTemp
  deriving DecidableEq

/-- A member of `PPCRegister`. -/
def r (type : IntType) (index : Word) : Place Object := ⟨.r index.toNat, 0, type⟩

def temp (type : IntType) : Place Object := ⟨.temp, 0, type⟩

namespace PpcXerRegister

def so : Place Object := ⟨.xer, 0, .u8⟩
def ov : Place Object := ⟨.xer, 1, .u8⟩
def ca : Place Object := ⟨.xer, 2, .u8⟩

end PpcXerRegister

namespace PpcCrRegister

def lt (index : Nat) : Place Object := ⟨.cr index, 0, .u8⟩
def gt (index : Nat) : Place Object := ⟨.cr index, 1, .u8⟩
def eq (index : Nat) : Place Object := ⟨.cr index, 2, .u8⟩
def so (index : Nat) : Place Object := ⟨.cr index, 3, .u8⟩

/-- `PPCCRRegister::compare` of two integers, which are converted to its type parameter. -/
def compare (type : IntType) (index : Nat) (left right : Expr Object) : List (CStatement Object) :=
  [ .assign (lt index) (.binary .lt (.convert type left) (.convert type right)),
    .assign (gt index) (.binary .gt (.convert type left) (.convert type right)),
    .assign (eq index) (.binary .eq (.convert type left) (.convert type right)),
    .assign (so index) (.read PpcXerRegister.so) ]

end PpcCrRegister

/-! ## Cases -/

/-- `ComputeMask`. -/
def computeMask (mstart mstop : Word) : BitVec 64 :=
  let mstart := mstart &&& 0x3F
  let mstop := mstop &&& 0x3F
  let value := (BitVec.allOnes 64 >>> mstart.toNat) ^^^
    (if mstop ≥ 63 then 0 else BitVec.allOnes 64 >>> (mstop + 1).toNat)
  if mstart ≤ mstop then value else ~~~value

/-- `__builtin_rotateleft32` and `__builtin_rotateleft64`. -/
def rotateLeft (width : Nat) (value count : Int) : Int :=
  ((BitVec.ofInt width value).rotateLeft count.toNat).toNat

/-- `__builtin_clz` and `__builtin_clzll` of a number that is not zero. -/
def countLeadingZeros (width : Nat) (value : Int) : Int := width - 1 - Nat.log2 value.toNat

/-- The integer instructions with a record form, and `subfic`. -/
inductive IntegerInst where
  | add | addc | adde | addic | addme | addze | and | andc | andi | andis
  | clrldi | clrlwi | cntlzd | cntlzw | divd | divdu | divw | divwu | eqv | extsb | extsh | extsw
  | mr | mulhd | mulhdu | mulhw | mulhwu | mulld | mullw | nand | neg | nor | not | or | orc
  | rldicl | rldicr | rldimi | rlwimi | rlwinm | rotldi | rotlw | rotlwi
  | sld | slw | srad | sradi | sraw | srawi | srd | srw
  | subf | subfc | subfe | subfic | subfze | xor
  deriving DecidableEq

namespace IntegerInst

variable (record : Bool) (operand : Nat → Word)

/-- A member of the register that an operand names. -/
def reg (type : IntType) (index : Nat) : Expr Object := .read (r type (operand index))

/-- Assignment to a member of the register that the first operand names. -/
def setReg (type : IntType) (value : Expr Object) : CStatement Object :=
  .assign (r type (operand 0)) value

/-- Assignment to the carry. -/
def setCarry (value : Expr Object) : CStatement Object := .assign PpcXerRegister.ca value

def carry : Expr Object := .read PpcXerRegister.ca

/-- The comparison that is printed if there is a dot in the name of the opcode. -/
def recordForm : List (CStatement Object) :=
  if record then PpcCrRegister.compare .s32 0 (reg operand .s32 0) (.decimal 0) else []

/-- An operand in decimal notation. -/
def imm (index : Nat) : Expr Object := .decimal (operand index).toNat

/-- An operand that is converted to `int32_t`, in decimal notation. -/
def simm (index : Nat) : Expr Object := .signedDecimal (operand index).toInt

/-- `__builtin_rotateleft32` and `__builtin_rotateleft64` in a statement. -/
def rotate (type : IntType) (value count : Expr Object) : Expr Object :=
  .call₂ type (rotateLeft type.width) (.convert type value) (.convert type count)

/-- A mask in hexadecimal notation. -/
def mask (value : BitVec 64) : Expr Object := .hex value.toNat

/-- The case of an instruction; `record` says whether there is a dot in the name of the opcode. -/
def statements : IntegerInst → List (CStatement Object)
  | .add => [setReg operand .u64 (reg operand .u64 1 + reg operand .u64 2)] ++ recordForm record operand
  | .addc =>
    [ setCarry (.binary .lt (reg operand .u32 1 + reg operand .u32 2) (reg operand .u32 1)),
      setReg operand .u64 (reg operand .u64 1 + reg operand .u64 2) ] ++ recordForm record operand
  | .adde =>
    [ .assign (temp .u8)
        (.binary .lt (reg operand .u32 1 + reg operand .u32 2) (reg operand .u32 1) |||
          .binary .lt (reg operand .u32 1 + reg operand .u32 2 + carry) carry),
      setReg operand .u64 (reg operand .u64 1 + reg operand .u64 2 + carry),
      setCarry (.read (temp .u8)) ] ++ recordForm record operand
  | .addic =>
    [ setCarry (.binary .gt (reg operand .u32 1) (.decimal (~~~operand 2).toNat)),
      setReg operand .s64 (reg operand .s64 1 + simm operand 2) ] ++ recordForm record operand
  | .addze =>
    [ .assign (temp .s64) (reg operand .s64 1 + carry),
      setCarry (.binary .lt (.read (temp .u32)) (reg operand .u32 1)),
      setReg operand .s64 (.read (temp .s64)) ] ++ recordForm record operand
  | .addme =>
    [ .assign (temp .s64) (reg operand .s64 1 + carry - .decimal 1),
      setCarry (.binary .lt (.read (temp .u32)) (reg operand .u32 1)),
      setReg operand .s64 (.read (temp .s64)) ] ++ recordForm record operand
  | .and => [setReg operand .u64 (reg operand .u64 1 &&& reg operand .u64 2)] ++ recordForm record operand
  | .andc =>
    [setReg operand .u64 (reg operand .u64 1 &&& ~~~reg operand .u64 2)] ++ recordForm record operand
  | .andi =>
    setReg operand .u64 (reg operand .u64 1 &&& imm operand 2) ::
      PpcCrRegister.compare .s32 0 (reg operand .s32 0) (.decimal 0)
  | .andis =>
    setReg operand .u64 (reg operand .u64 1 &&& .decimal (operand 2 <<< 16).toNat) ::
      PpcCrRegister.compare .s32 0 (reg operand .s32 0) (.decimal 0)
  | .clrldi =>
    [setReg operand .u64 (reg operand .u64 1 &&& mask ((1 <<< (64 - operand 2).toNat) - 1))]
  | .clrlwi =>
    [setReg operand .u64 (reg operand .u32 1 &&& mask ((1 <<< (32 - operand 2).toNat) - 1))] ++
      recordForm record operand
  | .cntlzd =>
    [setReg operand .u64 (.choose (.binary .eq (reg operand .u64 1) (.decimal 0)) (.decimal 64)
      (.call .s32 (countLeadingZeros 64) (reg operand .u64 1)))]
  | .cntlzw =>
    [setReg operand .u64 (.choose (.binary .eq (reg operand .u32 1) (.decimal 0)) (.decimal 32)
      (.call .s32 (countLeadingZeros 32) (reg operand .u32 1)))]
  | .divd => [setReg operand .s64 (reg operand .s64 1 / reg operand .s64 2)]
  | .divdu =>
    [setReg operand .u64 (reg operand .u64 1 / reg operand .u64 2)] ++ recordForm record operand
  | .divw =>
    [setReg operand .s32 (reg operand .s32 1 / reg operand .s32 2)] ++ recordForm record operand
  | .divwu =>
    [setReg operand .u32 (reg operand .u32 1 / reg operand .u32 2)] ++ recordForm record operand
  | .eqv =>
    [setReg operand .u64 (~~~(reg operand .u64 1 ^^^ reg operand .u64 2))] ++ recordForm record operand
  | .extsb => [setReg operand .s64 (reg operand .s8 1)] ++ recordForm record operand
  | .extsh => [setReg operand .s64 (reg operand .s16 1)] ++ recordForm record operand
  | .extsw => [setReg operand .s64 (reg operand .s32 1)] ++ recordForm record operand
  | .mr => [setReg operand .u64 (reg operand .u64 1)] ++ recordForm record operand
  | .mulhd =>
    [setReg operand .s64 (.convert .s64
      ((.convert .s128 (reg operand .s64 1) * .convert .s128 (reg operand .s64 2)) >>> .decimal 64))]
  | .mulhdu =>
    [setReg operand .u64 (.convert .u64
      ((.convert .u128 (reg operand .u64 1) * .convert .u128 (reg operand .u64 2)) >>> .decimal 64))]
  | .mulhw =>
    [setReg operand .s64
      ((.convert .s64 (reg operand .s32 1) * .convert .s64 (reg operand .s32 2)) >>> .decimal 32)]
  | .mulhwu =>
    [setReg operand .u64
      ((.convert .u64 (reg operand .u32 1) * .convert .u64 (reg operand .u32 2)) >>> .decimal 32)] ++
      recordForm record operand
  | .mulld => [setReg operand .s64 (reg operand .s64 1 * reg operand .s64 2)]
  | .mullw =>
    [setReg operand .s64 (.convert .s64 (reg operand .s32 1) * .convert .s64 (reg operand .s32 2))] ++
      recordForm record operand
  | .nand => [setReg operand .u64 (~~~(reg operand .u64 1 &&& reg operand .u64 2))]
  | .neg => [setReg operand .s64 (-reg operand .s64 1)] ++ recordForm record operand
  | .nor => [setReg operand .u64 (~~~(reg operand .u64 1 ||| reg operand .u64 2))]
  | .not => [setReg operand .u64 (~~~reg operand .u64 1)] ++ recordForm record operand
  | .or => [setReg operand .u64 (reg operand .u64 1 ||| reg operand .u64 2)] ++ recordForm record operand
  | .orc => [setReg operand .u64 (reg operand .u64 1 ||| ~~~reg operand .u64 2)]
  | .rldicl =>
    [setReg operand .u64 (rotate .u64 (reg operand .u64 1) (imm operand 2) &&&
      mask (computeMask (operand 3) 63))]
  | .rldicr =>
    [setReg operand .u64 (rotate .u64 (reg operand .u64 1) (imm operand 2) &&&
      mask (computeMask 0 (operand 3)))]
  | .rldimi =>
    let m := computeMask (operand 3) (~~~operand 2)
    [setReg operand .u64 ((rotate .u64 (reg operand .u64 1) (imm operand 2) &&& mask m) |||
      (reg operand .u64 0 &&& mask (~~~m)))]
  | .rlwimi =>
    let m := computeMask (operand 3 + 32) (operand 4 + 32)
    [setReg operand .u64 ((rotate .u32 (reg operand .u32 1) (imm operand 2) &&& mask m) |||
      (reg operand .u64 0 &&& mask (~~~m)))]
  | .rlwinm =>
    [setReg operand .u64 (rotate .u64 (reg operand .u32 1 ||| (reg operand .u64 1 <<< .decimal 32))
      (imm operand 2) &&& mask (computeMask (operand 3 + 32) (operand 4 + 32)))] ++
      recordForm record operand
  | .rotldi => [setReg operand .u64 (rotate .u64 (reg operand .u64 1) (imm operand 2))]
  | .rotlw =>
    [setReg operand .u64 (rotate .u32 (reg operand .u32 1) (reg operand .u8 2 &&& .hex 0x1F))]
  | .rotlwi =>
    [setReg operand .u64 (rotate .u32 (reg operand .u32 1) (imm operand 2))] ++ recordForm record operand
  | .sld =>
    [setReg operand .u64 (.choose (reg operand .u8 2 &&& .hex 0x40) (.decimal 0)
      (reg operand .u64 1 <<< (reg operand .u8 2 &&& .hex 0x7F)))]
  | .slw =>
    [setReg operand .u64 (.choose (reg operand .u8 2 &&& .hex 0x20) (.decimal 0)
      (reg operand .u32 1 <<< (reg operand .u8 2 &&& .hex 0x3F)))] ++ recordForm record operand
  | .srad =>
    [ .assign (temp .u64) (reg operand .u64 2 &&& .hex 0x7F),
      .assignIf (.binary .gt (.read (temp .u64)) (.hex 0x3F)) (temp .u64) (.hex 0x3F),
      setCarry (.binary .lt (reg operand .s64 1) (.decimal 0) &&&
        .binary .ne ((reg operand .s64 1 >>> .read (temp .u64)) <<< .read (temp .u64))
          (reg operand .s64 1)),
      setReg operand .s64 (reg operand .s64 1 >>> .read (temp .u64)) ]
  | .sradi =>
    if operand 2 ≠ 0 then
      [ setCarry (.binary .lt (reg operand .s64 1) (.decimal 0) &&&
          .binary .ne (reg operand .u64 1 &&& mask (computeMask (64 - operand 2) 63)) (.decimal 0)),
        setReg operand .s64 (reg operand .s64 1 >>> imm operand 2) ]
    else
      [ setCarry (.decimal 0),
        setReg operand .s64 (reg operand .s64 1) ]
  | .sraw =>
    [ .assign (temp .u32) (reg operand .u32 2 &&& .hex 0x3F),
      .assignIf (.binary .gt (.read (temp .u32)) (.hex 0x1F)) (temp .u32) (.hex 0x1F),
      setCarry (.binary .lt (reg operand .s32 1) (.decimal 0) &&&
        .binary .ne ((reg operand .s32 1 >>> .read (temp .u32)) <<< .read (temp .u32))
          (reg operand .s32 1)),
      setReg operand .s64 (reg operand .s32 1 >>> .read (temp .u32)) ] ++ recordForm record operand
  | .srawi =>
    (if operand 2 ≠ 0 then
      [ setCarry (.binary .lt (reg operand .s32 1) (.decimal 0) &&&
          .binary .ne (reg operand .u32 1 &&& mask (computeMask (64 - operand 2) 63)) (.decimal 0)),
        setReg operand .s64 (reg operand .s32 1 >>> imm operand 2) ]
    else
      [ setCarry (.decimal 0),
        setReg operand .s64 (reg operand .s32 1) ]) ++ recordForm record operand
  | .srd =>
    [setReg operand .u64 (.choose (reg operand .u8 2 &&& .hex 0x40) (.decimal 0)
      (reg operand .u64 1 >>> (reg operand .u8 2 &&& .hex 0x7F)))]
  | .srw =>
    [setReg operand .u64 (.choose (reg operand .u8 2 &&& .hex 0x20) (.decimal 0)
      (reg operand .u32 1 >>> (reg operand .u8 2 &&& .hex 0x3F)))] ++ recordForm record operand
  | .subf => [setReg operand .s64 (reg operand .s64 2 - reg operand .s64 1)] ++ recordForm record operand
  | .subfc =>
    [ setCarry (.binary .ge (reg operand .u32 2) (reg operand .u32 1)),
      setReg operand .s64 (reg operand .s64 2 - reg operand .s64 1) ] ++ recordForm record operand
  | .subfe =>
    [ .assign (temp .u8)
        (.binary .lt (~~~reg operand .u32 1 + reg operand .u32 2) (~~~reg operand .u32 1) |||
          .binary .lt (~~~reg operand .u32 1 + reg operand .u32 2 + carry) carry),
      setReg operand .u64 (~~~reg operand .u64 1 + reg operand .u64 2 + carry),
      setCarry (.read (temp .u8)) ] ++ recordForm record operand
  | .subfze =>
    [ .assign (temp .u8) (.binary .lt (~~~reg operand .u32 1 + carry) (~~~reg operand .u32 1)),
      setReg operand .u64 (~~~reg operand .u64 1 + carry),
      setCarry (.read (temp .u8)) ] ++ recordForm record operand
  | .subfic =>
    [ setCarry (.binary .le (reg operand .u32 1) (imm operand 2)),
      setReg operand .s64 (simm operand 2 - reg operand .s64 1) ]
  | .xor => [setReg operand .u64 (reg operand .u64 1 ^^^ reg operand .u64 2)] ++ recordForm record operand

end IntegerInst

end UfcRecomp.Recompiler
