import UfcRecomp.Ppc.Word

/-!
# The disassembler

The rows of the opcode table for the branch forms, for the instructions that
jump-table recovery matches and for the rows in front of those, in table order.
The rest of the table is a parameter: `Disassembler.other` answers for the words
that none of these rows match. Rows that differ only in their branch hint share
an opcode, a mask and an identifier and are written once, since neither the
recompiler nor the analyser looks at the hint of a mnemonic. A record form has a
row of its own with the identifier of its plain form.
-/

namespace UfcRecomp.Ppc

/-- The instruction identifiers that the modelled code tells apart.
`unlistedBranch` stands for the branch forms without a case of their own in the
recompiler and `other` for every further instruction. -/
inductive PpcInst where
  | b | bl | bctr | bctrl | blr | blrl
  | bdz | bdzlr | bdnz | bdnzf | bdnzt | bdzf
  | beq | beqlr | bge | bgelr | bgt | bgtlr | ble | blelr | blt | bltlr
  | bne | bnectr | bnelr
  | cmplwi | li | lis | addi | rotlwi | clrlwi | rlwinm
  | lwzx | lbzx | lhzx | add | mtctr
  | unlistedBranch
  | other (id : Nat)
  deriving DecidableEq, Repr

/-- An entry of the operand table: a bit mask, its shift and two syntax flags. -/
structure PowerpcOperand where
  bitm : Word
  shift : Nat := 0
  signed : Bool := false
  relative : Bool := false
  deriving DecidableEq

namespace PowerpcOperand

def bi : PowerpcOperand := { bitm := 0x1f, shift := 16 }
def bd : PowerpcOperand := { bitm := 0xfffc, signed := true, relative := true }
def obf : PowerpcOperand := { bitm := 0x7, shift := 23 }
def cr : PowerpcOperand := { bitm := 0x7, shift := 18 }
def li : PowerpcOperand := { bitm := 0x3fffffc, signed := true, relative := true }
def me : PowerpcOperand := { bitm := 0x1f, shift := 1 }
def mb : PowerpcOperand := { bitm := 0x1f, shift := 6 }
def ra : PowerpcOperand := { bitm := 0x1f, shift := 16 }
def rb : PowerpcOperand := { bitm := 0x1f, shift := 11 }
def rt : PowerpcOperand := { bitm := 0x1f, shift := 21 }
def sh : PowerpcOperand := { bitm := 0x1f, shift := 11 }
def si : PowerpcOperand := { bitm := 0xffff, signed := true }
def ui : PowerpcOperand := { bitm := 0xffff }

/-- `operand_value_powerpc`: the field, sign-extended from its top bit. -/
def value (operand : PowerpcOperand) (insn : Word) : Int :=
  let field := (insn >>> operand.shift) &&& operand.bitm
  if operand.signed then
    let filled := operand.bitm ||| ((operand.bitm &&& -operand.bitm) - 1)
    let top := filled &&& ~~~(filled >>> 1)
    (field ^^^ top).toNat - top.toNat
  else
    field.toNat

/-- The 32-bit operand that the decoder stores for an instruction at `memaddr`. -/
def decode (operand : PowerpcOperand) (insn : Word) (memaddr : Nat) : Word :=
  BitVec.ofInt 32 (operand.value insn + if operand.relative then memaddr else 0)

end PowerpcOperand

/-- A row of the opcode table. -/
structure PowerpcOpcode where
  opcode : Word
  mask : Word
  operands : List PowerpcOperand
  id : PpcInst

/-! ## The macros that form opcodes and masks -/

namespace Form

def op (x : Word) : Word := (x &&& 0x3f) <<< 26
def opl (x l : Word) : Word := op x ||| ((l &&& 1) <<< 21)
def b (x aa lk : Word) : Word := op x ||| ((aa &&& 1) <<< 1) ||| (lk &&& 1)
def bbo (x bo aa lk : Word) : Word := b x aa lk ||| ((bo &&& 0x1f) <<< 21)
def bbocb (x bo cb aa lk : Word) : Word := bbo x bo aa lk ||| ((cb &&& 0x3) <<< 16)
def m (x rc : Word) : Word := op x ||| (rc &&& 1)
def mme (x me rc : Word) : Word := m x rc ||| ((me &&& 0x1f) <<< 1)
def x (x xop : Word) : Word := op x ||| ((xop &&& 0x3ff) <<< 1)
def xo (x xop oe rc : Word) : Word :=
  op x ||| ((xop &&& 0x1ff) <<< 1) ||| ((oe &&& 1) <<< 10) ||| (rc &&& 1)
def xspr (y xop spr : Word) : Word :=
  x y xop ||| ((spr &&& 0x1f) <<< 16) ||| ((spr &&& 0x3e0) <<< 6)
def xllk (y xop lk : Word) : Word := x y xop ||| (lk &&& 1)
def xlo (y bo xop lk : Word) : Word := xllk y xop lk ||| ((bo &&& 0x1f) <<< 21)
def xlocb (y bo cb xop lk : Word) : Word := xlo y bo xop lk ||| ((cb &&& 3) <<< 16)

def biMask : Word := 0x1f <<< 16
def boMask : Word := 0x1f <<< 21
def bbMask : Word := 0x1f <<< 11
def raMask : Word := 0x1f <<< 16
def mbMask : Word := 0x1f <<< 6
def meMask : Word := 0x1f <<< 1
def shMask : Word := 0x1f <<< 11
def sprMask : Word := 0x3ff <<< 11
def opMask : Word := op 0x3f
def oplMask : Word := opl 0x3f 1
def draMask : Word := opMask ||| raMask
def bMask : Word := b 0x3f 1 1
def bboyMask : Word := bbo 0x3f 0x1f 1 1 &&& ~~~((1 : Word) <<< 21)
def bboatcbMask : Word := bbocb 0x3f 0x1f 0x3 1 1 &&& ~~~((3 : Word) <<< 21)
def bboatbiMask : Word := (bbocb 0x3f 0x1f 0x3 1 1 &&& ~~~((9 : Word) <<< 21)) ||| biMask
def mMask : Word := m 0x3f 1
def mmbmeMask : Word := mMask ||| mbMask ||| meMask
def mshmeMask : Word := mMask ||| shMask ||| meMask
def xMask : Word := x 0x3f 0x3ff ||| 1
def xoMask : Word := xo 0x3f 0x1ff 1 1
def xsprMask : Word := xMask ||| sprMask
def xlMask : Word := xllk 0x3f 0x3ff 1
def xlbobibbMask : Word := xlMask ||| boMask ||| biMask ||| bbMask
def xlbocbbbMask : Word := xlocb 0x3f 0x1f 0x3 0x3ff 1 ||| bbMask

end Form

/-- The conditional-branch rows of one CR bit and direction: the row of the plain
mnemonic, then the link-register rows for each branch hint. -/
def crLrRows (bo cb : Word) (id : PpcInst) : List PowerpcOpcode :=
  [bo, bo + 2, bo + 1, bo + 3].map fun hinted =>
    ⟨Form.xlocb 19 hinted cb 16 0, Form.xlbocbbbMask, [.cr], id⟩

open Form PowerpcOperand in
/-- The embedded rows of `powerpc_opcodes`, in table order. -/
def powerpcOpcodes : List PowerpcOpcode :=
  [ ⟨opl 10 0, oplMask, [obf, ra, ui], .cmplwi⟩,
    ⟨op 14, draMask, [rt, si], .li⟩,
    ⟨op 14, opMask, [rt, ra, si], .addi⟩,
    ⟨op 15, draMask, [rt, si], .lis⟩,
    ⟨bbo 16 0x10 0 0, bboatbiMask, [bd], .bdnz⟩,
    ⟨bbo 16 0x12 0 0, bboatbiMask, [bd], .bdz⟩,
    ⟨bbocb 16 0xc 0 0 0, bboatcbMask, [cr, bd], .blt⟩,
    ⟨bbocb 16 0xc 1 0 0, bboatcbMask, [cr, bd], .bgt⟩,
    ⟨bbocb 16 0xc 2 0 0, bboatcbMask, [cr, bd], .beq⟩,
    ⟨bbocb 16 0x4 0 0 0, bboatcbMask, [cr, bd], .bge⟩,
    ⟨bbocb 16 0x4 1 0 0, bboatcbMask, [cr, bd], .ble⟩,
    ⟨bbocb 16 0x4 2 0 0, bboatcbMask, [cr, bd], .bne⟩,
    ⟨bbo 16 0x8 0 0, bboyMask, [bi, bd], .bdnzt⟩,
    ⟨bbo 16 0x0 0 0, bboyMask, [bi, bd], .bdnzf⟩,
    ⟨bbo 16 0x2 0 0, bboyMask, [bi, bd], .bdzf⟩,
    ⟨b 18 0 0, bMask, [PowerpcOperand.li], .b⟩,
    ⟨b 18 0 1, bMask, [PowerpcOperand.li], .bl⟩,
    ⟨xlo 19 0x14 16 0, xlbobibbMask, [], .blr⟩,
    ⟨xlo 19 0x14 16 1, xlbobibbMask, [], .blrl⟩,
    ⟨xlo 19 0x12 16 0, xlbobibbMask, [], .bdzlr⟩,
    ⟨xlo 19 0x1a 16 0, xlbobibbMask, [], .bdzlr⟩,
    ⟨xlo 19 0x13 16 0, xlbobibbMask, [], .bdzlr⟩,
    ⟨xlo 19 0x1b 16 0, xlbobibbMask, [], .bdzlr⟩ ] ++
  crLrRows 0xc 0 .bltlr ++ crLrRows 0xc 1 .bgtlr ++ crLrRows 0xc 2 .beqlr ++
  crLrRows 0x4 0 .bgelr ++ crLrRows 0x4 1 .blelr ++ crLrRows 0x4 2 .bnelr ++
  [ ⟨xlo 19 0x14 528 0, xlbobibbMask, [], .bctr⟩,
    ⟨xlo 19 0x14 528 1, xlbobibbMask, [], .bctrl⟩,
    ⟨xlocb 19 0x4 2 528 0, xlbocbbbMask, [cr], .bnectr⟩,
    ⟨xlocb 19 0x6 2 528 0, xlbocbbbMask, [cr], .bnectr⟩,
    ⟨xlocb 19 0x5 2 528 0, xlbocbbbMask, [cr], .bnectr⟩,
    ⟨xlocb 19 0x7 2 528 0, xlbocbbbMask, [cr], .bnectr⟩,
    ⟨mme 21 31 0, mmbmeMask, [ra, rt, sh], .rotlwi⟩,
    ⟨mme 21 31 0, mshmeMask, [ra, rt, mb], .clrlwi⟩,
    ⟨m 21 0, mMask, [ra, rt, sh, mb, me], .rlwinm⟩,
    ⟨mme 21 31 1, mmbmeMask, [ra, rt, sh], .rotlwi⟩,
    ⟨mme 21 31 1, mshmeMask, [ra, rt, mb], .clrlwi⟩,
    ⟨m 21 1, mMask, [ra, rt, sh, mb, me], .rlwinm⟩,
    ⟨x 31 23, xMask, [rt, ra, rb], .lwzx⟩,
    ⟨x 31 87, xMask, [rt, ra, rb], .lbzx⟩,
    ⟨xo 31 266 0 0, xoMask, [rt, ra, rb], .add⟩,
    ⟨xo 31 266 0 1, xoMask, [rt, ra, rb], .add⟩,
    ⟨x 31 279, xMask, [rt, ra, rb], .lhzx⟩,
    ⟨xspr 31 467 9, xsprMask, [rt], .mtctr⟩ ]

/-- Whether a row of the table matches a word. -/
def PowerpcOpcode.Matches (row : PowerpcOpcode) (insn : Word) : Prop :=
  insn &&& row.mask = row.opcode

instance (row : PowerpcOpcode) (insn : Word) : Decidable (row.Matches insn) :=
  inferInstanceAs (Decidable (_ = _))

/-- The words whose rows are all branch rows of the table: `bc`, `b`, `bclr` and `bcctr`. -/
def IsBranch (insn : Word) : Prop :=
  ppcOp insn = ppcOpBc ∨ ppcOp insn = ppcOpB ∨
    (ppcOp insn = ppcOpCtr ∧ (ppcXop insn = 16 ∨ ppcXop insn = 528))

instance (insn : Word) : Decidable (IsBranch insn) := inferInstanceAs (Decidable (_ ∨ _))

/-- The rest of the opcode table. -/
structure Disassembler where
  /-- Whether one of the branch rows that are not embedded matches. -/
  branch : Word → Bool
  /-- The identifier and operands of any other instruction that is not embedded. -/
  other : Word → Option (Nat × List Word)

/-- A decoded instruction; `opcode` is `none` where the decoder stores a null pointer. -/
structure Insn where
  opcode : Option PpcInst
  instruction : Word
  operands : List Word

/-- The operand at an index; the decoder clears the operands it does not set. -/
def Insn.operand (insn : Insn) (index : Nat) : Word := insn.operands.getD index 0

/-- `ppc::Disassemble` of the word at `memaddr`. -/
def Disassembler.disassemble (dis : Disassembler) (insn : Word) (memaddr : Nat) : Insn :=
  match powerpcOpcodes.find? fun row => row.Matches insn with
  | some row => ⟨some row.id, insn, row.operands.map fun operand => operand.decode insn memaddr⟩
  | none =>
    if IsBranch insn then
      ⟨if dis.branch insn then some .unlistedBranch else none, insn, []⟩
    else
      match dis.other insn with
      | some (id, operands) => ⟨some (.other id), insn, operands⟩
      | none => ⟨none, insn, []⟩

/-- The word is kept. -/
theorem instruction_disassemble (dis : Disassembler) (insn : Word) (memaddr : Nat) :
    (dis.disassemble insn memaddr).instruction = insn := by
  unfold Disassembler.disassemble
  split
  · rfl
  · split_ifs
    · rfl
    · rfl
    · split <;> rfl

/-! ## Fields that a row fixes -/

/-- A field depends only on the bits below its mask. -/
theorem field_congr {i j mask : Word} (shift : Nat) (field : Word)
    (covered : field &&& (mask >>> shift) = field) (same : i &&& mask = j &&& mask) :
    (i >>> shift) &&& field = (j >>> shift) &&& field := by
  have expand : ∀ k : Word, (k >>> shift) &&& field = ((k &&& mask) >>> shift) &&& field := by
    intro k
    rw [BitVec.ushiftRight_and_distrib, BitVec.and_assoc, BitVec.and_comm (mask >>> shift),
      covered]
  rw [expand i, expand j, same]

/-- A word has the same fields as the opcode of a row that matches it, below the row's mask. -/
theorem PowerpcOpcode.Matches.field {row : PowerpcOpcode} {insn : Word}
    (matched : row.Matches insn) (shift : Nat) (field : Word)
    (covered : field &&& (row.mask >>> shift) = field) :
    (insn >>> shift) &&& field = (row.opcode >>> shift) &&& field := by
  refine @field_congr _ _ row.mask shift field covered ?_
  rw [← show insn &&& row.mask = row.opcode from matched, BitVec.and_assoc, BitVec.and_self]

end UfcRecomp.Ppc
