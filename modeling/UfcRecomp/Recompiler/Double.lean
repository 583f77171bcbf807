import UfcRecomp.Recompiler.Integer

/-!
# The statements of floating-point instructions

The C++ statements that `Recompile` prints for the floating-point instructions that have a record
form. What they compute with numbers of type `double` is left open, and so are the statements that
set the flush mode.
-/

namespace UfcRecomp.Recompiler

open UfcRecomp.Lib UfcRecomp.Ppc

/-- The host's operations on numbers of type `double`, by their bits. -/
structure DoubleOps where
  add : Int → Int → Int
  sub : Int → Int → Int
  mul : Int → Int → Int
  div : Int → Int → Int
  neg : Int → Int
  sqrt : Int → Int
  /-- The nearest number of type `float`. -/
  float : Int → Int
  ofInt64 : Int → Int
  gt : Int → Int → Bool
  ge : Int → Int → Bool
  /-- `cvtsd_si64`, `cvttsd_si64` and `cvttsd_si32`. -/
  cvtsdSi64 : Int → Int
  cvttsdSi64 : Int → Int
  cvttsdSi32 : Int → Int
  /-- The rounding mode of the guest for a control word of the host, and the control word with a
  rounding mode of the guest. -/
  loadFromHost : Int → Int
  storeFromGuest : Int → Int → Int

/-- The floating-point instructions with a record form. -/
inductive DoubleInst where
  | fabs | fadd | fadds | fcfid | fctid | fctidz | fctiwz | fdiv | fdivs
  | fmadd | fmadds | fmr | fmsub | fmsubs | fmul | fmuls | fnabs | fneg
  | fnmadds | fnmsub | fnmsubs | fres | frsp | frsqrte | fsel | fsqrt | fsqrts | fsub | fsubs
  | mffs | mtfsf
  deriving DecidableEq

namespace DoubleInst

variable (double : DoubleOps) (operand : Nat → Word)

def f (type : IntType) (index : Nat) : Place Object := ⟨.f (operand index).toNat, 0, type⟩

/-- The member `f64` of the register that an operand names. -/
def f64 (index : Nat) : Expr Object := .read (f operand .u64 index)

def setF64 (value : Expr Object) : List (CStatement Object) := [.assign (f operand .u64 0) value]

def add (x y : Expr Object) : Expr Object := .call₂ .u64 double.add x y
def sub (x y : Expr Object) : Expr Object := .call₂ .u64 double.sub x y
def mul (x y : Expr Object) : Expr Object := .call₂ .u64 double.mul x y
def div (x y : Expr Object) : Expr Object := .call₂ .u64 double.div x y
def neg (x : Expr Object) : Expr Object := .call .u64 double.neg x
def sqrt (x : Expr Object) : Expr Object := .call .u64 double.sqrt x
def float (x : Expr Object) : Expr Object := .call .u64 double.float x

/-- `1.0` and `0.0`. -/
def one : Expr Object := .literal .u64 0x3FF0000000000000
def zero : Expr Object := .literal .u64 0

/-- A conversion to an integer that has a largest number. -/
def toInt (max : Nat) (convert : Int → Int) : List (CStatement Object) :=
  [.assign (f operand .s64 0) (.choose
    (.call₂ .s32 (fun x y => truth (double.gt x y)) (f64 operand 1)
      (.call .u64 double.ofInt64 (.decimal max)))
    (.decimal max) (.call .s64 convert (f64 operand 1)))]

/-- `csr` of the control register, and the host's register. -/
def csr : Place Object := ⟨.fpscr, 0, .u32⟩
def host : Place Object := ⟨.fpscr, 4, .u32⟩

/-- The case of an instruction; none looks for a dot in the name of the opcode. -/
def statements : DoubleInst → List (CStatement Object)
  | .fabs => [.assign (f operand .u64 0) (f64 operand 1 &&& ~~~.hex 0x8000000000000000)]
  | .fadd => setF64 operand (add double (f64 operand 1) (f64 operand 2))
  | .fadds => setF64 operand (float double (add double (f64 operand 1) (f64 operand 2)))
  | .fcfid => setF64 operand (.call .u64 double.ofInt64 (.read (f operand .s64 1)))
  | .fctid => toInt double operand 9223372036854775807 double.cvtsdSi64
  | .fctidz => toInt double operand 9223372036854775807 double.cvttsdSi64
  | .fctiwz => toInt double operand 2147483647 double.cvttsdSi32
  | .fdiv => setF64 operand (div double (f64 operand 1) (f64 operand 2))
  | .fdivs => setF64 operand (float double (div double (f64 operand 1) (f64 operand 2)))
  | .fmadd => setF64 operand (add double (mul double (f64 operand 1) (f64 operand 2)) (f64 operand 3))
  | .fmadds =>
    setF64 operand
      (float double (add double (mul double (f64 operand 1) (f64 operand 2)) (f64 operand 3)))
  | .fmr => setF64 operand (f64 operand 1)
  | .fmsub => setF64 operand (sub double (mul double (f64 operand 1) (f64 operand 2)) (f64 operand 3))
  | .fmsubs =>
    setF64 operand
      (float double (sub double (mul double (f64 operand 1) (f64 operand 2)) (f64 operand 3)))
  | .fmul => setF64 operand (mul double (f64 operand 1) (f64 operand 2))
  | .fmuls => setF64 operand (float double (mul double (f64 operand 1) (f64 operand 2)))
  | .fnabs => [.assign (f operand .u64 0) (f64 operand 1 ||| .hex 0x8000000000000000)]
  | .fneg => [.assign (f operand .u64 0) (f64 operand 1 ^^^ .hex 0x8000000000000000)]
  | .fnmadds =>
    setF64 operand (float double (neg double
      (add double (mul double (f64 operand 1) (f64 operand 2)) (f64 operand 3))))
  | .fnmsub =>
    setF64 operand (neg double
      (sub double (mul double (f64 operand 1) (f64 operand 2)) (f64 operand 3)))
  | .fnmsubs =>
    setF64 operand (float double (neg double
      (sub double (mul double (f64 operand 1) (f64 operand 2)) (f64 operand 3))))
  | .fres => setF64 operand (float double (div double one (f64 operand 1)))
  | .frsp => setF64 operand (float double (f64 operand 1))
  | .frsqrte => setF64 operand (float double (div double one (sqrt double (f64 operand 1))))
  | .fsel =>
    setF64 operand (.choose (.call₂ .s32 (fun x y => truth (double.ge x y)) (f64 operand 1) zero)
      (f64 operand 2) (f64 operand 3))
  | .fsqrt => setF64 operand (sqrt double (f64 operand 1))
  | .fsqrts => setF64 operand (float double (sqrt double (f64 operand 1)))
  | .fsub => setF64 operand (sub double (f64 operand 1) (f64 operand 2))
  | .fsubs => setF64 operand (float double (sub double (f64 operand 1) (f64 operand 2)))
  | .mffs =>
    [ .assign csr (.read host),
      .assign (f operand .u64 0) (.call .u64 double.loadFromHost (.read csr)) ]
  | .mtfsf =>
    [ .assign csr (.call₂ .u32 double.storeFromGuest (.read csr) (.read (f operand .u32 1))),
      .assign host (.read csr) ]

end DoubleInst

end UfcRecomp.Recompiler
