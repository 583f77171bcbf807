import UfcRecomp.Lib.CVector
import UfcRecomp.Emitted.Vector
import UfcRecomp.Recompiler.Integer

/-!
# The statements of vector instructions

The C++ statements that `Recompile` prints for instructions on vectors, for any names of the
registers, so that it does not matter which of them are one register. What the statements compute
with floating-point numbers is left open, and so are the statements that set the flush mode.
-/

namespace UfcRecomp.Recompiler

open UfcRecomp.Lib UfcRecomp.Lib.Simd UfcRecomp.Ppc UfcRecomp.Emitted

/-- The host's operations on numbers of type `float`, by their bits. -/
structure FloatOps where
  eq : Nat → Nat → Bool
  le : Nat → Nat → Bool
  ge : Nat → Nat → Bool
  gt : Nat → Nat → Bool
  neg : Nat → Nat
  exp2f : Nat → Nat
  log2f : Nat → Nat

/-- The objects that the statements of an instruction name: the registers of its operands, the
condition register, and the temporaries. -/
structure VectorNames (κ : Type) where
  v : Nat → κ
  cr6 : κ
  temp : κ
  vTemp : κ

/-- The instructions on vectors; the forms with `128` in their names are the same cases. -/
inductive VectorInst where
  | vaddsbs | vaddshs | vaddsws | vaddubs | vadduhs | vadduws
  | vavgsb | vavgsh | vavgub | vavguh
  | vcmpbfp | vcmpeqfp | vcmpequb | vcmpequh | vcmpequw | vcmpgefp | vcmpgtfp
  | vcmpgtsh | vcmpgtsw | vcmpgtub | vcmpgtuh
  | vexptefp | vlogefp
  | vmrghb | vmrghh | vmrghw | vmrglb | vmrglh | vmrglw
  | vperm | vpermwi128 | vpkd3d128
  | vpkshss | vpkshus | vpkswss | vpkswus | vpkuhus128 | vpkuwum
  | vrlh | vrlimi128
  | vsl | vslb | vsldoi | vslh | vslw | vspltb | vsplth | vspltw
  | vsr | vsrab | vsrah | vsraw | vsrh | vsrw
  | vsubshs | vsubsws | vsububs | vsubuws
  | vupkd3d128 | vupkhsb | vupkhsh | vupklsb | vupklsh
  deriving DecidableEq

namespace VectorInst

variable {κ : Type} (names : VectorNames κ) (operand : Nat → Word)

/-! ## Parts of statements -/

/-- A lane of the register that an operand names. -/
def elem (type : IntType) (index lane : Nat) : Place κ :=
  ⟨names.v index, type.size * lane, type⟩

def temp (type : IntType) : Place κ := ⟨names.temp, 0, type⟩

def vTemp (type : IntType) (lane : Nat) : Place κ := ⟨names.vTemp, type.size * lane, type⟩

/-- An assignment, unless the lane is outside of the register. -/
def assignElem (type : IntType) (lane : Nat) (value : Expr κ) : VStatement κ :=
  if type.size * lane < 16 then CStatement.assign (elem names type 0 lane) value else .trap

/-- A number bounded from above and below, both bounds of type `int`. -/
def bounded (value : Place κ) (high low : Int) : Expr κ :=
  .choose (.binary .gt (.read value) (.literal .s32 high)) (.literal .s32 high)
    (.choose (.binary .lt (.read value) (.literal .s32 low)) (.literal .s32 low) (.read value))

/-- A number bounded from above. -/
def boundedAbove (value : Place κ) (high : Int) : Expr κ :=
  .choose (.binary .gt (.read value) (.literal .s32 high)) (.literal .s32 high) (.read value)

/-- A comparison of two `float`s. -/
def compareFloat (holds : Nat → Nat → Bool) (left right : Expr κ) : Expr κ :=
  .call₂ .s32 (fun x y => truth (holds x.toNat y.toNat)) left right

def floatCall (function : Nat → Nat) (argument : Expr κ) : Expr κ :=
  .call .u32 (fun x => function x.toNat) argument

def load (index : Nat) : VExpr κ := .load (names.v index)

/-- A statement that stores what an intrinsic makes of two registers. -/
def store₂ (op : Vec → Vec → Vec) (left right : Nat) : List (VStatement κ) :=
  [.store (names.v 0) (.op₂ op (load names left) (load names right))]

/-- A statement that stores what intrinsics make of a register. -/
def store₁ (op : Vec → Vec) (source : Nat) : List (VStatement κ) :=
  [.store (names.v 0) (.op op (load names source))]

/-- The statements of a loop over lanes. -/
def forLanes (count : Nat) (body : Nat → List (CStatement κ)) : List (VStatement κ) :=
  ((List.range count).flatMap body).map .scalar

/-- A member of `cr6`. -/
def cr6 (offset : Nat) : Place κ := ⟨names.cr6, offset, .u8⟩

/-- `setFromMask`, with the movemask of lanes of some size. -/
def setFromMask (size : Nat) (mask : VExpr κ) (imm : Nat) : List (VStatement κ) :=
  [ .extract (cr6 names 0) (fun vec => truth (vec.movemask size = imm)) mask,
    .scalar (.assign (cr6 names 1) (.decimal 0)),
    .extract (cr6 names 2) (fun vec => truth (vec.movemask size = 0)) mask,
    .scalar (.assign (cr6 names 3) (.decimal 0)) ]

/-- A comparison of vectors, and of its result for the record form. -/
def compareVec (record : Bool) (op : Vec → Vec → Vec) (size imm : Nat) : List (VStatement κ) :=
  store₂ names op 1 2 ++ if record then setFromMask names size (load names 0) imm else []

/-- A shift of every lane; the count is in the lowest byte of a lane. -/
def shiftLanes (type : IntType) (op : Binary) (mask : Nat) : List (VStatement κ) :=
  forLanes (16 / type.size) fun i =>
    [.assign (elem names type 0 i)
      (.binary op (.read (elem names type 1 i))
        (.read (elem names .u8 2 (i * type.size)) &&& .hex mask))]

/-- A pack of the lanes of one register, then those of another, with lanes counted from the top. -/
def packLanes (wide middle narrow : IntType) (value : Expr κ) : List (VStatement κ) :=
  forLanes (16 / narrow.size) fun i =>
    let half := 16 / wide.size
    [ .assign (temp names middle)
        (.read (elem names wide (if i < half then 1 else 2) (half - 1 - i % half))),
      .assign (elem names narrow 0 (16 / narrow.size - 1 - i)) value ]

/-- Sums and differences of signed lanes, bounded by the range of the lanes. -/
def boundedLanes (op : Binary) (type middle : IntType) (high low : Int) : List (VStatement κ) :=
  forLanes (16 / type.size) fun i =>
    [ .assign (temp names middle)
        (.binary op (.convert middle (.read (elem names type 1 i)))
          (.convert middle (.read (elem names type 2 i)))),
      .assign (elem names type 0 i) (bounded (temp names middle) high low) ]

/-! ## Formats of Direct3D -/

/-- Whether a number is not one, by its bits. -/
def isNaN (value : Place κ) : Expr κ :=
  .both (.binary .eq (.read value &&& .hex 0x7F800000) (.hex 0x7F800000))
    (.binary .ne (.read value &&& .hex 0x007FFFFF) (.decimal 0))

/-- A component of `UINT_2101010` from the number in the temporary. -/
def packComponent (nan high highest low lowest mask : Nat) : Expr κ :=
  .choose (isNaN (temp names .u32)) (.hex nan)
    (.choose (.binary .gt (.read (temp names .s32)) (.hex high)) (.hex highest)
      (.choose (.binary .lt (.read (temp names .s32)) (.hex low)) (.hex lowest)
        (.read (temp names .u32) &&& .hex mask)))

def packColor : List (VStatement κ) :=
  let byte (i shift : Nat) : Expr κ :=
    .convert .u32 (.read (elem names .u8 1 (i * 4))) <<< .decimal shift
  let add (i shift : Nat) : CStatement κ :=
    .assign (temp names .u32) (.read (temp names .u32) ||| byte i shift)
  [ .scalar (.assign (temp names .u32) (byte 0 24)),
    .scalar (add 1 0), .scalar (add 2 8), .scalar (add 3 16),
    assignElem names .u32 (operand 4).toNat (.read (temp names .u32)) ]

def packInt2101010 : List (VStatement κ) :=
  (((List.range 3).flatMap fun i =>
      [ CStatement.assign (temp names .u32) (.read (elem names .u32 1 (3 - i))),
        .assign (vTemp names .u32 i)
          (packComponent names 0x200 0x404001FF 0x1FF 0x403FFE01 0x201 0x3FF) ]) ++
    [ CStatement.assign (temp names .u32) (.read (elem names .u32 1 0)),
      CStatement.assign (vTemp names .u32 3)
        (packComponent names 0 0x40400003 3 0x40400000 0 3) ]).map .scalar ++
  [ assignElem names .u32 (operand 4).toNat
      (.read (vTemp names .u32 0) ||| (.read (vTemp names .u32 1) <<< .decimal 10) |||
        (.read (vTemp names .u32 2) <<< .decimal 20) |||
        (.read (vTemp names .u32 3) <<< .decimal 30)) ]

/-- A lane of `float16_4`; the lowest byte of the vector temporary is an exponent. -/
def packHalf (float : FloatOps) (i : Nat) : List (VStatement κ) :=
  let source : Expr κ := .read (vTemp names .u32 i)
  let exponent : Expr κ := .read (vTemp names .u8 0)
  let magnitude : Expr κ := .read (temp names .u32)
  let target := i + (2 * operand 4).toNat
  let unlessSpecial (value : Expr κ) (special : Nat) : Expr κ :=
    .choose (.binary .ne exponent (.hex 0xFF)) value (.hex special)
  [ .scalar (.assign (temp names .u32) (source &&& .hex 0x7FFFFFFF)),
    .scalar (.assign (vTemp names .u8 0)
      (.choose (.either (compareFloat (fun x y => !float.eq x y) magnitude magnitude)
          (compareFloat float.gt magnitude (.literal .u32 0x477FE000)))
        (.hex 0xFF) ((source &&& .hex 0x7f800000) >>> .decimal 23))),
    .scalar (.assign (temp names .u16)
      (unlessSpecial ((source &&& .hex 0x7FE000) >>> .decimal 13) 0)),
    assignElem names .u16 target
      (unlessSpecial
        (.choose (.binary .gt exponent (.hex 0x70))
          (((exponent - .hex 0x70) <<< .decimal 10) + .read (temp names .u16))
          (.choose (.binary .gt (.hex 0x71 - exponent) (.decimal 31)) (.hex 0)
            ((.hex 0x400 + .read (temp names .u16)) >>> (.hex 0x71 - exponent))))
        0x7FFF),
    assignElem names .u16 target
      (.read (elem names .u16 0 target) ||| ((source &&& .hex 0x80000000) >>> .decimal 16)) ]

def unpackColor : List (CStatement κ) :=
  let lane (i source : Nat) : CStatement κ :=
    .assign (vTemp names .u32 i) (.read (elem names .u8 1 source) ||| .hex 0x3F800000)
  [lane 0 3, lane 1 0, lane 2 1, lane 3 2, .copy (names.v 0) names.vTemp]

def unpackShorts : List (CStatement κ) :=
  let lane (i : Nat) : List (CStatement κ) :=
    let short : Expr κ := .read (elem names .s16 1 (1 - i))
    [ .assign (temp names .u32) (.literal .u32 0x40400000),
      .assign (temp names .s32) (.read (temp names .s32) +
        .choose (.binary .eq short (.literal .s32 (-32768))) (.literal .s32 (-32767)) short),
      .assign (vTemp names .u32 (3 - i)) (.read (temp names .u32)) ]
  (List.range 2).flatMap lane ++
  [ .assign (vTemp names .u32 1) (.literal .u32 0),
    .assign (vTemp names .u32 0) (.literal .u32 0x3F800000),
    .copy (names.v 0) names.vTemp ]

def unpackInt2101010 : List (CStatement κ) :=
  let lane (i : Nat) : List (CStatement κ) :=
    let component : Expr κ := .read (vTemp names .s32 (3 - i))
    [ .assign (vTemp names .s32 (3 - i))
        (.convert .s32 (.read (temp names .u32) <<< .decimal (22 - i * 10)) >>> .decimal 22),
      .assign (vTemp names .u32 (3 - i)) (.literal .u32 0x40400000 + .convert .u32
        (.choose (.binary .lt component (.signedDecimal (-511))) (.signedDecimal (-511)) component)) ]
  [.assign (temp names .u32) (.read (elem names .u32 1 0))] ++ (List.range 3).flatMap lane ++
  [ .assign (vTemp names .u32 0)
      (.literal .u32 0x40400000 + (.read (temp names .u32) >>> .decimal 30)),
    .copy (names.v 0) names.vTemp ]

/-- The packs, by the format. -/
def packD3D (float : FloatOps) (format : Nat) : List (VStatement κ) :=
  match format with
  | 0 => packColor names operand
  | 3 => packInt2101010 names operand
  | 5 => .scalar (.copy names.vTemp (names.v 1)) ::
    (List.range 4).flatMap (packHalf names operand float)
  | _ => [.trap]

/-- The unpacks, by the format. -/
def unpackD3D (format : Nat) : List (VStatement κ) :=
  match format with
  | 0 => (unpackColor names).map .scalar
  | 1 => (unpackShorts names).map .scalar
  | 3 => (unpackInt2101010 names).map .scalar
  | _ => [.trap]

/-! ## Cases -/

/-- `SIMDE_MM_SHUFFLE`. -/
def shuffle (z y x w : Nat) : Nat := z * 64 + y * 16 + x * 4 + w

/-- `shuffles`. -/
def shuffles : Nat → Nat
  | 0 => shuffle 3 2 1 0
  | 1 => shuffle 2 1 0 3
  | 2 => shuffle 1 0 3 2
  | _ => shuffle 0 3 2 1

/-- The case of an instruction; `record` says whether there is a dot in the name of the opcode. -/
def statements (float : FloatOps) (record : Bool) : VectorInst → List (VStatement κ)
  | .vaddsbs => store₂ names addsEpi8 1 2
  | .vaddshs => store₂ names addsEpi16 1 2
  | .vaddsws => boundedLanes names .add .s32 .s64 2147483647 (-2147483648)
  | .vaddubs => store₂ names addsEpu8 1 2
  | .vadduhs => store₂ names addsEpu16 1 2
  | .vadduws => store₂ names addsEpu32 1 2
  | .vavgsb => store₂ names avgEpi8 1 2
  | .vavgsh => store₂ names avgEpi16 1 2
  | .vavgub => store₂ names avgEpu8 1 2
  | .vavguh => store₂ names avgEpu16 1 2
  | .vcmpbfp =>
    (forLanes 4 fun i =>
      let a : Expr κ := .read (elem names .u32 1 i)
      let b : Expr κ := .read (elem names .u32 2 i)
      [.assign (elem names .u32 0 i)
        (.choose (compareFloat float.le a b) (.decimal 0) (.hex 0x80000000) |||
          .choose (compareFloat float.ge a (floatCall float.neg b)) (.decimal 0)
            (.hex 0x40000000))]) ++
    if record then
      ([ .assign (cr6 names 0) (.decimal 0),
        .assign (cr6 names 1) (.decimal 0),
        .assign (cr6 names 2) (.binary .eq
          (.read (elem names .u32 0 0) ||| .read (elem names .u32 0 1) |||
            .read (elem names .u32 0 2) ||| .read (elem names .u32 0 3)) (.decimal 0)),
        .assign (cr6 names 3) (.decimal 0) ] : List (CStatement κ)).map .scalar
    else []
  | .vcmpeqfp => compareVec names record (Vec.compare 4 float.eq) 4 0xF
  | .vcmpequb => compareVec names record (cmpeq 1) 1 0xFFFF
  | .vcmpequh => compareVec names record (cmpeq 2) 1 0xFFFF
  | .vcmpequw => compareVec names record (cmpeq 4) 4 0xF
  | .vcmpgefp => compareVec names record (Vec.compare 4 float.ge) 4 0xF
  | .vcmpgtfp => compareVec names record (Vec.compare 4 float.gt) 4 0xF
  | .vcmpgtsh => compareVec names record (cmpgt 2) 1 0xFFFF
  | .vcmpgtsw => compareVec names record (cmpgt 4) 4 0xF
  | .vcmpgtub => compareVec names record cmpgtEpu8 1 0xFFFF
  | .vcmpgtuh => compareVec names record cmpgtEpu16 1 0xFFFF
  | .vexptefp => forLanes 4 fun i =>
    [.assign (elem names .u32 0 i) (floatCall float.exp2f (.read (elem names .u32 1 i)))]
  | .vlogefp => forLanes 4 fun i =>
    [.assign (elem names .u32 0 i) (floatCall float.log2f (.read (elem names .u32 1 i)))]
  | .vmrghb => store₂ names (unpackhi 1) 2 1
  | .vmrghh => store₂ names (unpackhi 2) 2 1
  | .vmrghw => store₂ names (unpackhi 4) 2 1
  | .vmrglb => store₂ names (unpacklo 1) 2 1
  | .vmrglh => store₂ names (unpacklo 2) 2 1
  | .vmrglw => store₂ names (unpacklo 4) 2 1
  | .vperm =>
    [.store (names.v 0) (.op₃ permEpi8 (load names 1) (load names 2) (load names 3))]
  | .vpermwi128 =>
    let x := 3 - (operand 2 &&& 0x3)
    let y := 3 - ((operand 2 >>> 2) &&& 0x3)
    let z := 3 - ((operand 2 >>> 4) &&& 0x3)
    let w := 3 - ((operand 2 >>> 6) &&& 0x3)
    let perm := x ||| (y <<< 2) ||| (z <<< 4) ||| (w <<< 6)
    store₁ names (shuffleEpi32 perm.toNat) 1
  | .vpkd3d128 => packD3D names operand float (operand 2).toNat
  | .vpkshus => store₂ names packusEpi16 2 1
  | .vpkshss => packLanes names .s16 .s32 .s8 (bounded (temp names .s32) 127 (-128))
  | .vpkuhus128 => packLanes names .u16 .u32 .u8 (boundedAbove (temp names .u32) 255)
  | .vpkuwum =>
    forLanes 8 fun i =>
      [.assign (elem names .u16 0 (7 - i))
        (.read (elem names .u32 (if i < 4 then 1 else 2) (3 - i % 4)) &&& .hex 0xFFFF)]
  | .vpkswss => packLanes names .s32 .s64 .s16 (bounded (temp names .s64) 32767 (-32768))
  | .vpkswus => packLanes names .s32 .s64 .u16 (bounded (temp names .s64) 65535 0)
  | .vrlh =>
    forLanes 8 fun i =>
      let value : Expr κ := .read (elem names .u16 1 i)
      let count : Expr κ := .read (elem names .u8 2 (i * 2)) &&& .hex 0xF
      [.assign (elem names .u16 0 i) (.convert .u16
        ((value <<< count) ||| (value >>> ((.decimal 16 - count) &&& .hex 0xF))))]
  | .vrlimi128 =>
    [.store (names.v 0) (.op₂ (blendPs (operand 2).toNat) (load names 0)
      (.op (shuffleEpi32 (shuffles (operand 3).toNat)) (load names 1)))]
  | .vsl => store₂ names Emitted.vsl 1 2
  | .vslb => shiftLanes names .u8 .shiftLeft 0x7
  | .vsldoi => store₂ names (alignrEpi8 (16 - operand 3).toNat) 1 2
  | .vslh => shiftLanes names .u16 .shiftLeft 0xF
  | .vslw => shiftLanes names .u32 .shiftLeft 0x1F
  | .vspltb => store₁ names (fun vec => shuffleEpi8 vec (set1 1 (15 - operand 2).toNat)) 1
  | .vsplth =>
    let perm := 7 - operand 2
    let perm := (perm * 2) ||| ((perm * 2 + 1) <<< 8)
    store₁ names (fun vec => shuffleEpi8 vec (set1 2 perm.toNat)) 1
  | .vspltw =>
    let perm := 3 - operand 2
    let perm := perm ||| (perm <<< 2) ||| (perm <<< 4) ||| (perm <<< 6)
    store₁ names (shuffleEpi32 perm.toNat) 1
  | .vsr => store₂ names Emitted.vsr 1 2
  | .vsrab => shiftLanes names .s8 .shiftRight 0x7
  | .vsrah => shiftLanes names .s16 .shiftRight 0xF
  | .vsraw => shiftLanes names .s32 .shiftRight 0x1F
  | .vsrh => shiftLanes names .u16 .shiftRight 0xF
  | .vsrw => shiftLanes names .u32 .shiftRight 0x1F
  | .vsubshs => boundedLanes names .sub .s16 .s32 32767 (-32768)
  | .vsubsws => boundedLanes names .sub .s32 .s64 2147483647 (-2147483648)
  | .vsububs => store₂ names subsEpu8 1 2
  | .vsubuws =>
    forLanes 4 fun i =>
      let a : Expr κ := .read (elem names .u32 1 i)
      let b : Expr κ := .read (elem names .u32 2 i)
      [.assign (elem names .u32 0 i) (.choose (.binary .gt a b) (a - b) (.decimal 0))]
  | .vupkd3d128 => unpackD3D names (operand 2 >>> 2).toNat
  | .vupkhsb => store₁ names (fun vec => cvtepi8Epi16 (unpackhi 8 vec vec)) 1
  | .vupkhsh => store₁ names (fun vec => cvtepi16Epi32 (unpackhi 8 vec vec)) 1
  | .vupklsb => store₁ names cvtepi8Epi16 1
  | .vupklsh => store₁ names cvtepi16Epi32 1

end VectorInst

end UfcRecomp.Recompiler
