import UfcRecomp.Recompiler.IntegerRuns
import UfcRecomp.Recompiler.Rows

/-!
# Rotations under a mask

The emitted code rotates a number of either width. A word that is rotated under a mask that wraps
has bits in the upper word, too; the insertion under a mask leaves them out.
-/

namespace UfcRecomp.Recompiler

open UfcRecomp.Lib UfcRecomp.Ppc IntegerInst

/-! ## Masks -/

/-- The bits of two masks that differ. -/
theorem getMsbD_differ {first last index : Nat} (below : index < 64) :
    ((BitVec.allOnes 64 >>> first) ^^^
      (if 63 ≤ last then 0#64 else BitVec.allOnes 64 >>> (last + 1))).getMsbD index =
        (decide (first ≤ index) != decide (last < index)) := by
  have shifted : ∀ count : Nat,
      (BitVec.allOnes 64 >>> count).getMsbD index = decide (count ≤ index) := by
    intro count
    rw [BitVec.getMsbD_eq_getLsbD, BitVec.getLsbD_ushiftRight, BitVec.getLsbD_allOnes,
      ← Bool.decide_and, decide_eq_decide]
    omega
  rw [BitVec.getMsbD_xor, shifted]
  split
  next full => simp [show ¬last < index by omega]
  next =>
    rw [shifted]
    rfl

/-- The mask of the recompiler is that of the guest. -/
theorem computeMask_eq (mstart mstop : Word) :
    computeMask mstart mstop = maskBits (mstart.toNat % 64) (mstop.toNat % 64) := by
  have low : ∀ value : Word, (value &&& 0x3F).toNat = value.toNat % 64 := by
    intro value
    rw [BitVec.toNat_and, show (0x3F : Word).toNat = 2 ^ 6 - 1 from rfl,
      Nat.and_two_pow_sub_one_eq_mod]
  have next : ((mstop &&& 0x3F) + 1).toNat = mstop.toNat % 64 + 1 := by
    rw [BitVec.toNat_add, low, show (1 : Word).toNat = 1 from rfl]
    omega
  have full : (mstop &&& 0x3F) ≥ 63 ↔ 63 ≤ mstop.toNat % 64 := by
    rw [ge_iff_le, BitVec.le_def, low]
    rfl
  have order : (mstart &&& 0x3F) ≤ (mstop &&& 0x3F) ↔ mstart.toNat % 64 ≤ mstop.toNat % 64 := by
    rw [BitVec.le_def, low, low]
  have differ := @getMsbD_differ (mstart.toNat % 64) (mstop.toNat % 64)
  apply BitVec.eq_of_getMsbD_eq
  intro index below
  simp only [computeMask, low, next, full, order]
  rw [getMsbD_maskBits]
  by_cases ordered : mstart.toNat % 64 ≤ mstop.toNat % 64
  · rw [if_pos ordered, if_pos ordered]
    refine (differ below).trans ?_
    rcases Nat.lt_or_ge (mstop.toNat % 64) index with behind | inside
    · simp [below, behind, Nat.not_le.mpr behind]
      omega
    · simp [below, inside, Nat.not_lt.mpr inside]
  · rw [if_neg ordered, if_neg ordered, BitVec.getMsbD_not]
    refine (congrArg (fun bit => decide (index < 64) && !bit) (differ below)).trans ?_
    rcases Nat.lt_or_ge (mstop.toNat % 64) index with behind | inside
    · simp [below, behind, Nat.not_le.mpr behind]
    · simp [below, inside, Nat.not_lt.mpr inside]
      omega

/-! ## Expressions -/

section

variable (store : Store Object) (record : Bool) (operand : Nat → Word)

/-- A number under a mask in a register. -/
theorem ofInt_and (number : Nat) (mask : BitVec 64) :
    BitVec.ofInt 64 ((number &&& mask.toNat : Nat) : Int) = BitVec.ofNat 64 number &&& mask := by
  rw [BitVec.ofInt_natCast, BitVec.ofNat_and, BitVec.ofNat_toNat, BitVec.setWidth_eq]

theorem ofNat_word (word : BitVec 32) : BitVec.ofNat 64 word.toNat = 0#32 ++ word := by
  have number : (0#32 ++ word).toNat = word.toNat := by
    rw [BitVec.toNat_append]
    simp
  have bound := word.isLt
  apply BitVec.eq_of_toNat_eq
  rw [BitVec.toNat_ofNat, Nat.mod_eq_of_lt (by omega)]
  exact number.symm

/-- A rotation of an expression. -/
theorem eval_rotate {size : Nat} {value count : Expr Object} {number : BitVec (8 * size)}
    {rotated : Nat} (valued : value.eval store = some (number.toNat : Int))
    (counted : count.eval store = some (rotated : Int)) (fits : rotated < 2 ^ (8 * size)) :
    (rotate ⟨size, false⟩ value count).eval store =
      some ((number.rotateLeft rotated).toNat : Int) := by
  have same : ∀ word : BitVec (8 * size), (word.toNat : Int) % 2 ^ (8 * size) = word.toNat := by
    intro word
    exact_mod_cast Nat.mod_eq_of_lt word.isLt
  have small : (rotated : Int) % 2 ^ (8 * size) = rotated := by
    exact_mod_cast Nat.mod_eq_of_lt fits
  simp only [rotate, Expr.eval, valued, counted, Option.map_some, Option.bind_some,
    IntType.wrap_unsigned, same, small, rotateLeft, IntType.width, BitVec.ofInt_natCast,
    BitVec.ofNat_toNat, BitVec.setWidth_eq, Int.toNat_natCast]

/-! ## Instructions -/

/-- The value that a rotation under a mask leaves behind. -/
theorem outcome_rotated {size rotated : Nat} {value count : Expr Object}
    {number : BitVec (8 * size)} (word : size = 4 ∨ size = 8)
    (valued : value.eval store = some (number.toNat : Int))
    (counted : count.eval store = some (rotated : Int)) (fits : rotated < 2 ^ (8 * size))
    (bits : BitVec 64) :
    outcome store [setReg operand .u64 (rotate ⟨size, false⟩ value count &&& mask bits)] =
      some ((view store).set (operand 0)
        (BitVec.ofNat 64 (number.rotateLeft rotated).toNat &&& bits)) := by
  have masked : (rotate ⟨size, false⟩ value count &&& mask bits).eval store =
      some (((number.rotateLeft rotated).toNat &&& bits.toNat : Nat) : Int) :=
    Expr.eval_and_hex rfl word (eval_rotate store valued counted fits) (BitVec.isLt _) bits.isLt
  rw [outcome_setReg store operand rfl masked, ofInt_and]

/-- The value that an insertion under a mask leaves behind. -/
theorem outcome_inserted {size rotated : Nat} {value count : Expr Object}
    {number : BitVec (8 * size)} (word : size = 4 ∨ size = 8)
    (valued : value.eval store = some (number.toNat : Int))
    (counted : count.eval store = some (rotated : Int)) (fits : rotated < 2 ^ (8 * size))
    (bits : BitVec 64) :
    outcome store [setReg operand .u64 ((rotate ⟨size, false⟩ value count &&& mask bits) |||
        (reg operand .u64 0 &&& mask (~~~bits)))] =
      some ((view store).set (operand 0)
        (BitVec.ofNat 64 (number.rotateLeft rotated).toNat &&& bits |||
          source store operand 0 &&& ~~~bits)) := by
  have new : (rotate ⟨size, false⟩ value count &&& mask bits).eval store =
      some (((number.rotateLeft rotated).toNat &&& bits.toNat : Nat) : Int) :=
    Expr.eval_and_hex rfl word (eval_rotate store valued counted fits) (BitVec.isLt _) bits.isLt
  have old : (reg operand .u64 0 &&& mask (~~~bits)).eval store =
      some (((source store operand 0).toNat &&& (~~~bits).toNat : Nat) : Int) :=
    Expr.eval_and_hex rfl (.inr rfl) (eval_u64 store operand 0) (BitVec.isLt _) (BitVec.isLt _)
  have both := Expr.eval_or_u64 (Expr.size_and_hex rfl word bits.toNat)
    (Expr.type_and_hex rfl (~~~bits).toNat) new old
    (Nat.lt_of_le_of_lt Nat.and_le_right bits.isLt)
    (Nat.lt_of_le_of_lt Nat.and_le_right (BitVec.isLt _))
  refine (outcome_setReg store operand rfl both).trans ?_
  rw [BitVec.ofInt_natCast, BitVec.ofNat_or, BitVec.ofNat_and, BitVec.ofNat_and]
  simp only [BitVec.ofNat_toNat, BitVec.setWidth_eq]

/-- A low word twice. -/
theorem eval_doubled :
    (reg operand .u32 1 ||| (reg operand .u64 1 <<< .decimal 32)).eval store =
      some ((doubled (source store operand 1)).toNat : Int) := by
  have number : (doubled (source store operand 1)).toNat =
      ((source store operand 1).setWidth 32).toNat |||
        (source store operand 1).toNat * 2 ^ 32 % 2 ^ 64 := by
    refine (BitVec.toNat_append _ _).trans ?_
    rw [Nat.or_comm, Nat.shiftLeft_eq, BitVec.toNat_setWidth,
      show 2 ^ 64 = 2 ^ 32 * 2 ^ 32 from rfl, Nat.mul_mod_mul_right]
  have shifted : (reg operand .u64 1 <<< .decimal 32).eval store =
      some (((source store operand 1).toNat * 2 ^ 32 % 2 ^ 64 : Nat) : Int) := by
    rw [Expr.shiftLeft_eq, Expr.eval, eval_u64, Expr.eval_decimal]
    exact congrArg some (IntType.wrap_unsigned 8 _)
  rw [number]
  exact Expr.eval_or_u64 (show 4 ≤ 8 by decide) rfl (eval_u32 store operand 1) shifted
    (Nat.lt_trans (BitVec.isLt _) (by decide)) (Nat.mod_lt _ (by decide))

theorem rotateLeft_zero {width : Nat} (value : BitVec width) : value.rotateLeft 0 = value := by
  apply BitVec.eq_of_getLsbD_eq
  intro index below
  rw [BitVec.getLsbD_rotateLeft]
  simp [below]

/-- A rotation loses no bit. -/
theorem rotateLeft_eq_zero (value : BitVec 32) {count : Nat} (short : count < 32) :
    value.rotateLeft count = 0#32 ↔ value = 0#32 := by
  constructor
  · intro zero
    apply BitVec.eq_of_getMsbD_eq
    intro index below
    have bit := congrArg (fun rotated => rotated.getMsbD ((index + (32 - count)) % 32)) zero
    simp only [BitVec.getMsbD_rotateLeft_of_lt short] at bit
    rw [show (count + (index + (32 - count)) % 32) % 32 = index by omega] at bit
    simpa [Nat.mod_lt _ (show 32 > 0 by decide)] using bit
  · rintro rfl
    exact BitVec.eq_of_getMsbD_eq fun index below => by
      simp [BitVec.getMsbD_rotateLeft_of_lt short]

/-- A doubleword fills the register. -/
theorem ofNat_doubleword (value : BitVec (8 * 8)) : BitVec.ofNat 64 value.toNat = value := by
  rw [BitVec.ofNat_toNat, BitVec.setWidth_eq]

theorem outcome_rldicl (most : (operand 3).toNat < 64) :
    outcome store (IntegerInst.rldicl.statements record operand) =
      some ((view store).set (operand 0)
        ((source store operand 1).rotateLeft (operand 2).toNat &&&
          maskBits (operand 3).toNat 63)) := by
  have count := (operand 2).isLt
  rw [IntegerInst.statements, computeMask_eq, Nat.mod_eq_of_lt most]
  refine (outcome_rotated store operand (.inr rfl) (eval_u64 store operand 1)
    (eval_imm store operand 2) (by omega) _).trans ?_
  rw [ofNat_doubleword]
  rfl

theorem outcome_rldicr (most : (operand 3).toNat < 64) :
    outcome store (IntegerInst.rldicr.statements record operand) =
      some ((view store).set (operand 0)
        ((source store operand 1).rotateLeft (operand 2).toNat &&&
          maskBits 0 (operand 3).toNat)) := by
  have count := (operand 2).isLt
  rw [IntegerInst.statements, computeMask_eq, Nat.mod_eq_of_lt most]
  refine (outcome_rotated store operand (.inr rfl) (eval_u64 store operand 1)
    (eval_imm store operand 2) (by omega) _).trans ?_
  rw [ofNat_doubleword]
  rfl

theorem outcome_rotldi :
    outcome store (IntegerInst.rotldi.statements record operand) =
      some ((view store).set (operand 0)
        ((source store operand 1).rotateLeft (operand 2).toNat)) := by
  have count := (operand 2).isLt
  have rotated := @eval_rotate store 8 _ _ _ _ (eval_u64 store operand 1)
    (eval_imm store operand 2) (by omega)
  rw [IntegerInst.statements]
  refine (outcome_setReg store operand rfl rotated).trans ?_
  rw [BitVec.ofInt_natCast, ofNat_doubleword]

theorem outcome_rldimi (shift : (operand 2).toNat < 64) (most : (operand 3).toNat < 64) :
    outcome store (IntegerInst.rldimi.statements record operand) =
      some ((view store).set (operand 0)
        ((source store operand 1).rotateLeft (operand 2).toNat &&&
            maskBits (operand 3).toNat (63 - (operand 2).toNat) |||
          source store operand 0 &&& ~~~maskBits (operand 3).toNat (63 - (operand 2).toNat))) := by
  have last : (~~~operand 2).toNat % 64 = 63 - (operand 2).toNat := by
    rw [BitVec.toNat_not]
    omega
  rw [IntegerInst.statements, computeMask_eq, Nat.mod_eq_of_lt most, last]
  refine (outcome_inserted store operand (.inr rfl) (eval_u64 store operand 1)
    (eval_imm store operand 2) (by omega) _).trans ?_
  rw [ofNat_doubleword]

/-- The bounds of the mask of a word. -/
theorem computeMask_word {first last : Word} (firstFits : first.toNat < 32)
    (lastFits : last.toNat < 32) :
    computeMask (first + 32) (last + 32) = maskBits (first.toNat + 32) (last.toNat + 32) := by
  have bound : ∀ value : Word, value.toNat < 32 → (value + 32).toNat % 64 = value.toNat + 32 := by
    intro value below
    rw [BitVec.toNat_add, show (32 : Word).toNat = 32 from rfl]
    omega
  rw [computeMask_eq, bound first firstFits, bound last lastFits]

theorem outcome_rlwinm (first : (operand 3).toNat < 32) (last : (operand 4).toNat < 32) :
    outcome store (IntegerInst.rlwinm.statements record operand) =
      some ((view store).set (operand 0)
        ((doubled (source store operand 1)).rotateLeft (operand 2).toNat &&&
          maskBits ((operand 3).toNat + 32) ((operand 4).toNat + 32))) := by
  have count := (operand 2).isLt
  rw [IntegerInst.statements, outcome_recordForm, computeMask_word first last]
  refine (outcome_rotated store operand (.inr rfl) (eval_doubled store operand)
    (eval_imm store operand 2) (by omega) _).trans ?_
  rw [ofNat_doubleword]

theorem outcome_rlwimi (first : (operand 3).toNat < 32) (last : (operand 4).toNat < 32) :
    outcome store (IntegerInst.rlwimi.statements record operand) =
      some ((view store).set (operand 0)
        ((0#32 ++ ((source store operand 1).setWidth 32).rotateLeft (operand 2).toNat) &&&
            maskBits ((operand 3).toNat + 32) ((operand 4).toNat + 32) |||
          source store operand 0 &&&
            ~~~maskBits ((operand 3).toNat + 32) ((operand 4).toNat + 32))) := by
  have count := (operand 2).isLt
  rw [IntegerInst.statements, computeMask_word first last]
  refine (outcome_inserted store operand (.inl rfl) (eval_u32 store operand 1)
    (eval_imm store operand 2) (by omega) _).trans ?_
  rw [ofNat_word]

theorem outcome_rotlwi :
    outcome store (IntegerInst.rotlwi.statements record operand) =
      some ((view store).set (operand 0)
        (0#32 ++ ((source store operand 1).setWidth 32).rotateLeft (operand 2).toNat)) := by
  have count := (operand 2).isLt
  have rotated := @eval_rotate store 4 _ _ _ _ (eval_u32 store operand 1)
    (eval_imm store operand 2) (by omega)
  rw [IntegerInst.statements, outcome_recordForm]
  refine (outcome_setReg store operand rfl rotated).trans ?_
  rw [BitVec.ofInt_natCast, ofNat_word]

theorem outcome_rotlw :
    outcome store (IntegerInst.rotlw.statements record operand) =
      some ((view store).set (operand 0)
        (0#32 ++ ((source store operand 1).setWidth 32).rotateLeft
          ((source store operand 2).toNat % 32))) := by
  have byte : store.read (r .u8 (operand 2)) = ((source store operand 2).toNat % 2 ^ 8 : Nat) := by
    rw [read_u8, source]
    norm_cast
  have count := eval_byte_and store rfl byte (Nat.mod_lt _ (by decide)) (show 0x1F < 2 ^ 31 by decide)
  rw [show 0x1F = 2 ^ 5 - 1 from rfl, Nat.and_two_pow_sub_one_eq_mod,
    Nat.mod_mod_of_dvd _ (by decide)] at count
  have rotated := @eval_rotate store 4 _ _ _ _ (eval_u32 store operand 1) count
    (by have := Nat.mod_lt (source store operand 2).toNat (show 2 ^ 5 > 0 by decide); omega)
  rw [IntegerInst.statements]
  refine (outcome_setReg store operand rfl rotated).trans ?_
  rw [BitVec.ofInt_natCast, ofNat_word]

theorem outcome_clrldi :
    outcome store (IntegerInst.clrldi.statements record operand) =
      some ((view store).set (operand 0)
        (source store operand 1 &&& (1#64 <<< (64 - operand 2).toNat) - 1#64)) := by
  have masked := @Expr.eval_and_hex _ _ _ _ _ rfl (.inr rfl) (eval_u64 store operand 1)
    (BitVec.isLt _) _ ((1#64 <<< (64 - operand 2).toNat) - 1#64).isLt
  rw [IntegerInst.statements]
  refine (outcome_setReg store operand rfl masked).trans ?_
  rw [ofInt_and, BitVec.ofNat_toNat, BitVec.setWidth_eq]

theorem outcome_clrlwi :
    outcome store (IntegerInst.clrlwi.statements record operand) =
      some ((view store).set (operand 0)
        ((0#32 ++ (source store operand 1).setWidth 32) &&&
          (1#64 <<< (32 - operand 2).toNat) - 1#64)) := by
  have masked := @Expr.eval_and_hex _ _ _ _ _ rfl (.inl rfl) (eval_u32 store operand 1)
    (BitVec.isLt _) _ ((1#64 <<< (32 - operand 2).toNat) - 1#64).isLt
  rw [IntegerInst.statements, outcome_recordForm]
  refine (outcome_setReg store operand rfl masked).trans ?_
  rw [ofInt_and, ofNat_word]

end

/-! ## Words -/

/-- The statements of a row are right if they leave the rotated value behind. -/
theorem outcome_row_iff {store : Store Object} {insn : Word} {row : IntegerOpcode}
    {rotation : Rotation} {value : BitVec 64} (written : row.operands[0]? = some (field .ra))
    (decoded : Rotation.decode insn (view store) = some rotation)
    (ran : outcome store (row.statements insn) =
      some ((view store).set (row.operand insn 0) value)) :
    outcome store (row.statements insn) = Rotation.exec insn (view store) ↔
      value = rotation.result ((view store).r (target insn)) := by
  have index : (row.operand insn 0).toNat = target insn := by
    rw [IntegerOpcode.operand, written]
    exact toNat_ra insn
  rw [ran, Rotation.exec, decoded, IntegerState.set, index, Option.map_some, Option.some_inj]
  constructor
  · intro same
    simpa using congrFun (congrArg IntegerState.r same) (target insn)
  · rintro rfl
    rfl

/-- The operands of the forms that rotate a word. -/
def wordFields : List (Word → Word) := [field .ra, field .rt, field .sh, field .mb, field .me]

/-- The operands of the forms that rotate a doubleword. -/
def doublewordFields : List (Word → Word) := [field .ra, field .rt, sh6, mb6]

section

variable {store : Store Object} {insn : Word} {row : IntegerOpcode}

theorem rlwinm_right (case : row.inst = .rlwinm) (fields : row.operands = wordFields)
    (op : bits insn 0 5 = 21) :
    outcome store (row.statements insn) = Rotation.exec insn (view store) := by
  have ran := outcome_rlwinm store row.record (row.operand insn)
    (by rw [operand_row fields]; exact (toNat_mb insn).trans_lt (bits_five insn 21))
    (by rw [operand_row fields]; exact (toNat_me insn).trans_lt (bits_five insn 26))
  rw [source_row fields, ← case] at ran
  refine (outcome_row_iff (by rw [fields]; rfl) (Rotation.decode_rlwinm op) ran).mpr ?_
  simp [operand_row fields, wordFields, Rotation.result, Rotation.word, Rotation.sh, Rotation.mb,
    Rotation.me]

theorem rotlwi_right (case : row.inst = .rotlwi)
    (fields : row.operands = [field .ra, field .rt, field .sh]) (op : bits insn 0 5 = 21)
    (first : bits insn 21 25 = 0) (last : bits insn 26 30 = 31) :
    outcome store (row.statements insn) = Rotation.exec insn (view store) := by
  have ran := outcome_rotlwi store row.record (row.operand insn)
  rw [source_row fields, ← case] at ran
  refine (outcome_row_iff (by rw [fields]; rfl) (Rotation.decode_rlwinm op) ran).mpr ?_
  have count : (row.operand insn 2).toNat = bits insn 16 20 := by
    rw [operand_row fields]
    exact toNat_sh insn
  simp only [Rotation.result, Rotation.word, Rotation.sh, Rotation.mb, Rotation.me, first, last,
    Bool.false_eq_true, if_false, BitVec.or_zero]
  rw [rotateLeft_doubled _ (bits_five insn 16), append_and_maskBits_full, count]

theorem clrlwi_right (case : row.inst = .clrlwi)
    (fields : row.operands = [field .ra, field .rt, field .mb]) (op : bits insn 0 5 = 21)
    (shift : bits insn 16 20 = 0) (last : bits insn 26 30 = 31) :
    outcome store (row.statements insn) = Rotation.exec insn (view store) := by
  have ran := outcome_clrlwi store row.record (row.operand insn)
  rw [source_row fields, ← case] at ran
  refine (outcome_row_iff (by rw [fields]; rfl) (Rotation.decode_rlwinm op) ran).mpr ?_
  have count : (32 - row.operand insn 2).toNat = 32 - Rotation.mb insn := by
    have below : Rotation.mb insn < 32 := bits_five insn 21
    have same : (row.operand insn 2).toNat = Rotation.mb insn := by
      rw [operand_row fields]
      exact toNat_mb insn
    rw [BitVec.toNat_sub, same, show (32 : Word).toNat = 32 from rfl]
    omega
  have below : Rotation.mb insn < 32 := bits_five insn 21
  have tail := @maskBits_tail (32 - Rotation.mb insn) (by omega) (by omega)
  rw [show 64 - (32 - Rotation.mb insn) = Rotation.mb insn + 32 by omega] at tail
  rw [count, ← tail]
  simp only [Rotation.result, Rotation.word, Rotation.sh, Rotation.me, shift, last,
    Bool.false_eq_true, if_false, BitVec.or_zero]
  rw [rotateLeft_zero, doubled]
  exact (append_and_maskBits _ _ (by omega)).symm

theorem rotlw_right (case : row.inst = .rotlw)
    (fields : row.operands = [field .ra, field .rt, field .rb]) (op : bits insn 0 5 = 23)
    (first : bits insn 21 25 = 0) (last : bits insn 26 30 = 31) :
    outcome store (row.statements insn) = Rotation.exec insn (view store) := by
  have ran := outcome_rotlw store row.record (row.operand insn)
  rw [source_row fields, ← case] at ran
  refine (outcome_row_iff (by rw [fields]; rfl) (Rotation.decode_rlwnm op) ran).mpr ?_
  have index : (row.operand insn 2).toNat = bits insn 16 20 := by
    rw [operand_row fields]
    exact toNat_rb insn
  have count : (source store (row.operand insn) 2).toNat = countRegister insn (view store) := by
    rw [source, index, countRegister]
  simp only [Rotation.result, Rotation.mb, Rotation.me, first, last, Bool.false_eq_true, if_false,
    BitVec.or_zero]
  rw [rotateLeft_doubled _ (Nat.mod_lt _ (by decide)), append_and_maskBits_full, count]

theorem rldicl_right (case : row.inst = .rldicl) (fields : row.operands = doublewordFields)
    (op : bits insn 0 5 = 30) (form : bits insn 27 29 = 0) :
    outcome store (row.statements insn) = Rotation.exec insn (view store) := by
  have ran := outcome_rldicl store row.record (row.operand insn)
    (by rw [operand_row fields]; exact (toNat_mb6 insn).trans_lt (mb6_lt insn))
  rw [source_row fields, ← case] at ran
  refine (outcome_row_iff (by rw [fields]; rfl) (Rotation.decode_rldicl op form) ran).mpr ?_
  simp [operand_row fields, doublewordFields, Rotation.result, Rotation.doubleword, toNat_sh6,
    toNat_mb6]

theorem rldicr_right (case : row.inst = .rldicr) (fields : row.operands = doublewordFields)
    (op : bits insn 0 5 = 30) (form : bits insn 27 29 = 1) :
    outcome store (row.statements insn) = Rotation.exec insn (view store) := by
  have ran := outcome_rldicr store row.record (row.operand insn)
    (by rw [operand_row fields]; exact (toNat_mb6 insn).trans_lt (mb6_lt insn))
  rw [source_row fields, ← case] at ran
  refine (outcome_row_iff (by rw [fields]; rfl) (Rotation.decode_rldicr op form) ran).mpr ?_
  simp [operand_row fields, doublewordFields, Rotation.result, Rotation.doubleword, toNat_sh6,
    toNat_mb6]

theorem rldimi_right (case : row.inst = .rldimi) (fields : row.operands = doublewordFields)
    (op : bits insn 0 5 = 30) (form : bits insn 27 29 = 3) :
    outcome store (row.statements insn) = Rotation.exec insn (view store) := by
  have ran := outcome_rldimi store row.record (row.operand insn)
    (by rw [operand_row fields]; exact (toNat_sh6 insn).trans_lt (sh6_lt insn))
    (by rw [operand_row fields]; exact (toNat_mb6 insn).trans_lt (mb6_lt insn))
  rw [source_row fields, target_row fields, ← case] at ran
  refine (outcome_row_iff (by rw [fields]; rfl) (Rotation.decode_rldimi op form) ran).mpr ?_
  simp [operand_row fields, doublewordFields, Rotation.result, Rotation.doubleword, toNat_sh6,
    toNat_mb6]

theorem rotldi_right (case : row.inst = .rotldi)
    (fields : row.operands = [field .ra, field .rt, sh6]) (op : bits insn 0 5 = 30)
    (form : bits insn 27 29 = 0) (low : bits insn 21 25 = 0) (high : bits insn 26 26 = 0) :
    outcome store (row.statements insn) = Rotation.exec insn (view store) := by
  have ran := outcome_rotldi store row.record (row.operand insn)
  rw [source_row fields, ← case] at ran
  refine (outcome_row_iff (by rw [fields]; rfl) (Rotation.decode_rldicl op form) ran).mpr ?_
  have whole : Rotation.mb6 insn = 0 := by rw [Rotation.mb6, high, low]
  rw [operand_row fields]
  simp only [Rotation.result, Rotation.doubleword, whole, maskBits_full, BitVec.and_allOnes,
    Bool.false_eq_true, if_false, BitVec.or_zero]
  exact congrArg _ (toNat_sh6 insn)

theorem clrldi_right (case : row.inst = .clrldi)
    (fields : row.operands = [field .ra, field .rt, mb6]) (op : bits insn 0 5 = 30)
    (form : bits insn 27 29 = 0) (low : bits insn 16 20 = 0) (high : bits insn 30 30 = 0) :
    outcome store (row.statements insn) = Rotation.exec insn (view store) := by
  have ran := outcome_clrldi store row.record (row.operand insn)
  rw [source_row fields, ← case] at ran
  refine (outcome_row_iff (by rw [fields]; rfl) (Rotation.decode_rldicl op form) ran).mpr ?_
  have count : (64 - row.operand insn 2).toNat = 64 - Rotation.mb6 insn := by
    have below := mb6_lt insn
    have same : (row.operand insn 2).toNat = Rotation.mb6 insn := by
      rw [operand_row fields]
      exact toNat_mb6 insn
    rw [BitVec.toNat_sub, same, show (64 : Word).toNat = 64 from rfl]
    omega
  have below := mb6_lt insn
  have tail := @maskBits_tail (64 - Rotation.mb6 insn) (by omega) (by omega)
  rw [show 64 - (64 - Rotation.mb6 insn) = Rotation.mb6 insn by omega] at tail
  have whole : Rotation.sh6 insn = 0 := by rw [Rotation.sh6, low, high]
  rw [count, ← tail]
  simp only [Rotation.result, Rotation.doubleword, whole, rotateLeft_zero, Bool.false_eq_true,
    if_false, BitVec.or_zero]

/-- Two values under a mask differ where they did before others were inserted. -/
theorem and_or_cancel {left right target mask : BitVec 64} :
    (left &&& mask) ||| (target &&& ~~~mask) = (right &&& mask) ||| (target &&& ~~~mask) ↔
      left &&& mask = right &&& mask := by
  constructor
  · intro same
    have under := congrArg (· &&& mask) same
    simpa only [BitVec.and_or_distrib_right, BitVec.and_assoc, BitVec.and_self,
      BitVec.not_and_self, BitVec.ofNat_eq_ofNat, BitVec.and_zero, BitVec.or_zero] using under
  · intro same
    rw [same]

theorem rlwimi_right_iff (case : row.inst = .rlwimi) (fields : row.operands = wordFields)
    (op : bits insn 0 5 = 20) :
    outcome store (row.statements insn) = Rotation.exec insn (view store) ↔
      ¬(Rotation.me insn < Rotation.mb insn ∧
        (Ppc.source insn (view store)).setWidth 32 ≠ 0#32) := by
  have first : (row.operand insn 3).toNat = Rotation.mb insn := by
    rw [operand_row fields]
    exact toNat_mb insn
  have last : (row.operand insn 4).toNat = Rotation.me insn := by
    rw [operand_row fields]
    exact toNat_me insn
  have count : (row.operand insn 2).toNat = Rotation.sh insn := by
    rw [operand_row fields]
    exact toNat_sh insn
  have ran := outcome_rlwimi store row.record (row.operand insn)
    (by rw [first]; exact bits_five insn 21) (by rw [last]; exact bits_five insn 26)
  rw [source_row fields, target_row fields, first, last, count, ← case] at ran
  refine (outcome_row_iff (by rw [fields]; rfl) (Rotation.decode_rlwimi op) ran).trans ?_
  simp only [Rotation.result, Rotation.word, if_true]
  rw [and_or_cancel, rotateLeft_doubled _ (show Rotation.sh insn < 32 from bits_five insn 16)]
  by_cases wraps : Rotation.me insn < Rotation.mb insn
  · rw [and_iff_right wraps, ne_eq, Classical.not_not,
      ← rotateLeft_eq_zero _ (show Rotation.sh insn < 32 from bits_five insn 16)]
    constructor
    · intro same
      exact append_and_maskBits_inj wraps same.symm
    · intro zero
      rw [zero]
  · simp only [wraps, false_and, not_false_eq_true, iff_true]
    exact (append_and_maskBits _ _ (Nat.le_of_not_lt wraps)).symm

end

/-! ## Rows -/

/-- A field in place, from the field at the end. -/
theorem and_shiftLeft (insn mask : Word) (shift : Nat) :
    insn &&& (mask <<< shift) = ((insn >>> shift) &&& mask) <<< shift := by
  apply BitVec.eq_of_getLsbD_eq
  intro index below
  rw [BitVec.getLsbD_and, BitVec.getLsbD_shiftLeft, BitVec.getLsbD_shiftLeft, BitVec.getLsbD_and,
    BitVec.getLsbD_ushiftRight]
  by_cases inside : index < shift
  · simp [inside]
  · simp [inside, below, show shift + (index - shift) = index by omega]

/-- The words of `clrldi` without a mask are those of `rotldi`. -/
theorem rotldi_of_clrldi {insn : Word} {rc : Word} (matched : insn &&& Form.mdshMask = Form.md 30 0 rc)
    (fixed : Form.md 30 0 rc &&& Form.mdMask = Form.md 30 0 rc) (zero : mb6 insn = 0) :
    insn &&& Form.mdmbMask = Form.md 30 0 rc := by
  have head : insn &&& Form.mdMask = Form.md 30 0 rc := by
    rw [show Form.mdMask = Form.mdshMask &&& Form.mdMask by decide, ← BitVec.and_assoc, matched,
      fixed]
  have number := toNat_mb6 insn
  rw [zero, Rotation.mb6, bits, bits] at number
  have field : (insn >>> 5) &&& 0x3f#32 = 0#32 := by
    apply BitVec.eq_of_toNat_eq
    rw [BitVec.toNat_and, show (0x3f#32).toNat = 2 ^ 6 - 1 from rfl,
      Nat.and_two_pow_sub_one_eq_mod, BitVec.toNat_ushiftRight, Nat.shiftRight_eq_div_pow]
    simp only [BitVec.ofNat_eq_ofNat, BitVec.toNat_ofNat] at number ⊢
    omega
  have tail : insn &&& Form.mb6Mask = 0#32 := by
    rw [Form.mb6Mask]
    refine (and_shiftLeft insn 0x3f#32 5).trans ?_
    rw [field]
    rfl
  rw [Form.mdmbMask, BitVec.and_or_distrib_left, head, tail, BitVec.or_zero]

theorem clrldi_rows (index : Fin rotateOpcodes.length) :
    (rotateOpcodes.get index).inst = .clrldi → index.val = 11 ∨ index.val = 14 := by
  revert index
  decide

/-- The disassembler leaves `clrldi` a mask. -/
theorem clrldi_operand {insn : Word} {row : IntegerOpcode}
    (found : findRow rotateOpcodes insn = some row) (case : row.inst = .clrldi) :
    row.operand insn 2 ≠ 0 := by
  obtain ⟨matched, index, below, here, earlier⟩ := List.find?_eq_some_iff_getElem.mp found
  have word := of_decide_eq_true matched
  subst here
  intro zero
  rcases clrldi_rows ⟨index, below⟩ case with first | second
  · simp only at first
    subst first
    have unmatched : ¬(rotateOpcodes.get ⟨10, by decide⟩).Matches insn := by
      simpa using earlier 10 (by decide)
    exact unmatched (@rotldi_of_clrldi insn 0 word (by decide) zero)
  · simp only at second
    subst second
    have unmatched : ¬(rotateOpcodes.get ⟨13, by decide⟩).Matches insn := by
      simpa using earlier 13 (by decide)
    exact unmatched (@rotldi_of_clrldi insn 1 word (by decide) zero)

/-- The words of a row are rotations of the guest. -/
theorem decode_row {insn : Word} {row : IntegerOpcode} (member : row ∈ rotateOpcodes)
    (matched : row.Matches insn) (state : IntegerState) : (Rotation.decode insn state).isSome := by
  have fixes : ∀ row ∈ rotateOpcodes, row.Fixes 0 5 20 ∨ row.Fixes 0 5 21 ∨ row.Fixes 0 5 23 ∨
      row.Fixes 0 5 30 ∧ (row.Fixes 27 29 0 ∨ row.Fixes 27 29 1 ∨ row.Fixes 27 29 3) := by decide
  apply Rotation.decode_isSome
  rcases fixes row member with op | op | op | ⟨op, form | form | form⟩
  · exact .inl (matched.fixed op)
  · exact .inr (.inl (matched.fixed op))
  · exact .inr (.inr (.inl (matched.fixed op)))
  · exact .inr (.inr (.inr ⟨matched.fixed op, .inl (matched.fixed form)⟩))
  · exact .inr (.inr (.inr ⟨matched.fixed op, .inr (.inl (matched.fixed form))⟩))
  · exact .inr (.inr (.inr ⟨matched.fixed op, .inr (.inr (matched.fixed form))⟩))

/-- The statements of a row are right, but for insertions. -/
theorem row_right (store : Store Object) {insn : Word} {row : IntegerOpcode}
    (member : row ∈ rotateOpcodes) (matched : row.Matches insn) (other : row.inst ≠ .rlwimi) :
    outcome store (row.statements insn) = Rotation.exec insn (view store) := by
  simp only [rotateOpcodes, List.mem_cons, List.not_mem_nil, or_false] at member
  rcases member with rfl | rfl | rfl | rfl | rfl | rfl | rfl | rfl | rfl | rfl | rfl | rfl | rfl |
    rfl | rfl | rfl | rfl | rfl | rfl | rfl
  · exact absurd rfl other
  · exact absurd rfl other
  · exact rotlwi_right rfl rfl (matched.fixed (by decide)) (matched.fixed (by decide))
      (matched.fixed (by decide))
  · exact clrlwi_right rfl rfl (matched.fixed (by decide)) (matched.fixed (by decide))
      (matched.fixed (by decide))
  · exact rlwinm_right rfl rfl (matched.fixed (by decide))
  · exact rotlwi_right rfl rfl (matched.fixed (by decide)) (matched.fixed (by decide))
      (matched.fixed (by decide))
  · exact clrlwi_right rfl rfl (matched.fixed (by decide)) (matched.fixed (by decide))
      (matched.fixed (by decide))
  · exact rlwinm_right rfl rfl (matched.fixed (by decide))
  · exact rotlw_right rfl rfl (matched.fixed (by decide)) (matched.fixed (by decide))
      (matched.fixed (by decide))
  · exact rotlw_right rfl rfl (matched.fixed (by decide)) (matched.fixed (by decide))
      (matched.fixed (by decide))
  · exact rotldi_right rfl rfl (matched.fixed (by decide)) (matched.fixed (by decide))
      (matched.fixed (by decide)) (matched.fixed (by decide))
  · exact clrldi_right rfl rfl (matched.fixed (by decide)) (matched.fixed (by decide))
      (matched.fixed (by decide)) (matched.fixed (by decide))
  · exact rldicl_right rfl rfl (matched.fixed (by decide)) (matched.fixed (by decide))
  · exact rotldi_right rfl rfl (matched.fixed (by decide)) (matched.fixed (by decide))
      (matched.fixed (by decide)) (matched.fixed (by decide))
  · exact clrldi_right rfl rfl (matched.fixed (by decide)) (matched.fixed (by decide))
      (matched.fixed (by decide)) (matched.fixed (by decide))
  · exact rldicl_right rfl rfl (matched.fixed (by decide)) (matched.fixed (by decide))
  · exact rldicr_right rfl rfl (matched.fixed (by decide)) (matched.fixed (by decide))
  · exact rldicr_right rfl rfl (matched.fixed (by decide)) (matched.fixed (by decide))
  · exact rldimi_right rfl rfl (matched.fixed (by decide)) (matched.fixed (by decide))
  · exact rldimi_right rfl rfl (matched.fixed (by decide)) (matched.fixed (by decide))

/-- The rows of the insertion into a word. -/
theorem rlwimi_row {insn : Word} {row : IntegerOpcode} (member : row ∈ rotateOpcodes)
    (matched : row.Matches insn) (case : row.inst = .rlwimi) :
    row.operands = wordFields ∧ bits insn 0 5 = 20 := by
  simp only [rotateOpcodes, List.mem_cons, List.not_mem_nil, or_false] at member
  rcases member with rfl | rfl | rfl | rfl | rfl | rfl | rfl | rfl | rfl | rfl | rfl | rfl | rfl |
    rfl | rfl | rfl | rfl | rfl | rfl | rfl
  · exact ⟨rfl, matched.fixed (by decide)⟩
  · exact ⟨rfl, matched.fixed (by decide)⟩
  all_goals cases case

/-- For every word that the disassembler takes for a rotation the emitted code gives all bits of
the guest's result, but for an insertion under a mask that wraps, which loses the upper word. -/
theorem rotate_right (store : Store Object) {insn : Word} {row : IntegerOpcode}
    (found : findRow rotateOpcodes insn = some row) :
    (Rotation.exec insn (view store)).isSome ∧
      (row.inst = .clrldi → row.operand insn 2 ≠ 0) ∧
      (outcome store (row.statements insn) = Rotation.exec insn (view store) ↔
        ¬(row.inst = .rlwimi ∧ Rotation.me insn < Rotation.mb insn ∧
          (Ppc.source insn (view store)).setWidth 32 ≠ 0#32)) := by
  obtain ⟨member, matched⟩ := of_findRow found
  refine ⟨?_, clrldi_operand found, ?_⟩
  · rw [Rotation.exec, Option.isSome_map]
    exact decode_row member matched _
  · by_cases case : row.inst = .rlwimi
    · obtain ⟨fields, op⟩ := rlwimi_row member matched case
      rw [rlwimi_right_iff case fields op, and_iff_right case]
    · simp only [case, false_and, not_false_eq_true, iff_true]
      exact row_right store member matched case

/-- The registers hold zero except for `r4`. -/
def rotatedStore : Store Object := fun object position =>
  if object = .r 4 ∧ position = 0 then 5 else 0

/-- The word of `rlwimi r3, r4, 0, 24, 7`. -/
def insertion : Word := 0x5083060E

theorem rotate_right_insertion : ∃ row, findRow rotateOpcodes insertion = some row ∧
    (Rotation.exec insertion (view rotatedStore)).isSome :=
  ⟨_, rfl, (@rotate_right rotatedStore insertion _ rfl).1⟩

/-- The upper word of the target should be the rotated word, and stays zero. -/
theorem not_rotate_right :
    ((findRow rotateOpcodes insertion).bind fun row =>
        (outcome rotatedStore (row.statements insertion)).map fun state => state.r 3) = some 5 ∧
      (Rotation.exec insertion (view rotatedStore)).map (fun state => state.r 3) =
        some 0x500000005 := by
  decide +kernel

end UfcRecomp.Recompiler
