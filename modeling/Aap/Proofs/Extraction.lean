import Aap.Proofs.Decode

/-!
# Fields taken out of words

A signed field is the one number of its width that agrees with the value modulo a
power of two, whatever stands above the field.  A contiguous mask selects a quotient
and remainder of the word, and the operand fields that a long word carries in halves
are put together again.
-/

namespace Aap

section Sign

variable {width : Nat}

/-- The low bits of a value moved to the top of a word and back down, with copies of the
top bit in their train. -/
def shiftedBack (width : Nat) (value : BitVec 32) : BitVec 32 :=
  (value <<< (32 - width)).sshiftRight (32 - width)

theorem shiftedBack_eq_signExtend (widthPos : 1 ≤ width) (widthLe : width ≤ 32)
    (value : BitVec 32) : shiftedBack width value = (value.setWidth width).signExtend 32 := by
  apply BitVec.eq_of_getLsbD_eq
  intro index indexLt
  rw [shiftedBack, BitVec.getLsbD_sshiftRight, BitVec.getLsbD_signExtend, BitVec.msb_shiftLeft,
    BitVec.msb_setWidth, BitVec.getMsbD_eq_getLsbD, BitVec.getLsbD_shiftLeft,
    BitVec.getLsbD_setWidth]
  have back : 32 - width + index - (32 - width) = index := Nat.add_sub_cancel_left ..
  have top : 32 - 1 - (32 - width) = width - 1 := by omega
  rw [back, top]
  by_cases inField : index < width
  · have inWord : 32 - width + index < 32 := by omega
    simp [inField, inWord, Nat.not_le_of_lt indexLt, indexLt]
  · have outside : ¬ 32 - width + index < 32 := by omega
    have notAll : 32 - width < 32 := by omega
    have notEmpty : 0 < width := widthPos
    simp [inField, outside, Nat.not_le_of_lt indexLt, indexLt, notAll, notEmpty]

theorem toInt_shiftedBack (widthPos : 1 ≤ width) (widthLe : width ≤ 32) (value : BitVec 32) :
    (shiftedBack width value).toInt = signedField width value.toNat := by
  rw [shiftedBack_eq_signExtend widthPos widthLe, BitVec.toInt_signExtend_of_le widthLe,
    signedField, BitVec.ofNat_toNat]

theorem signedField_eq_bmod (width value : Nat) :
    signedField width value = (value : Int).bmod (2 ^ width) := by
  rw [signedField, BitVec.toInt_eq_toNat_bmod, BitVec.toNat_ofNat, Int.natCast_emod,
    Int.emod_bmod]

theorem eq_signedField_iff (widthPos : 1 ≤ width) (value : Nat) (number : Int) :
    number = signedField width value ↔ number % 2 ^ width = value % 2 ^ width ∧
      -2 ^ (width - 1) ≤ number ∧ number < 2 ^ (width - 1) := by
  have double : (2 : Int) ^ width = 2 * 2 ^ (width - 1) := by
    rw [← Int.pow_succ', Nat.sub_add_cancel widthPos]
  have congruent : (2 : Int) ^ width ∣ number - value ↔
      number % 2 ^ width = value % 2 ^ width := by
    rw [Int.emod_eq_emod_iff_emod_sub_eq_zero, Int.dvd_iff_emod_eq_zero]
  rw [eq_comm, signedField_eq_bmod, Int.bmod_eq_iff (Nat.two_pow_pos width)]
  push_cast
  rw [congruent]
  omega

/-- What stands above a field does not matter. -/
theorem signedField_congr {value other : Nat} (agree : value % 2 ^ width = other % 2 ^ width) :
    signedField width value = signedField width other := by
  rw [signedField_eq_bmod, signedField_eq_bmod, ← Int.emod_bmod, ← Int.emod_bmod (other : Int)]
  norm_cast
  rw [agree]

/-- A number is read back from its own low bits. -/
theorem signedField_emod (widthPos : 1 ≤ width) {number : Int}
    (low : -2 ^ (width - 1) ≤ number) (high : number < 2 ^ (width - 1)) :
    signedField width (number % 2 ^ width).toNat = number := by
  symm
  rw [eq_signedField_iff widthPos]
  refine ⟨?_, low, high⟩
  have powerPos : (0 : Int) < 2 ^ width := Int.pow_pos (by decide)
  rw [Int.toNat_of_nonneg (Int.emod_nonneg _ (Int.ne_of_gt powerPos)), Int.emod_emod]

end Sign

theorem memoryOperand_unsigned (form : Form) {register : Reg} {offset : Int}
    (registerLt : register.val < 2 ^ form.fieldWidth)
    (low : -2 ^ (form.offsetWidth - 1) ≤ offset) (high : offset < 2 ^ (form.offsetWidth - 1)) :
    form.memoryOperand (register.val * 2 ^ 16 + (offset % 2 ^ form.offsetWidth).toNat) =
      .ok (register, offset) := by
  have widthPos : 1 ≤ form.offsetWidth := by cases form <;> decide
  have offsetLt : (offset % 2 ^ form.offsetWidth).toNat < 2 ^ 16 := by
    cases form <;> simp only [Form.offsetWidth] <;> omega
  have registerEq : Published.register register.val = register := by
    simp [Published.register]
  rw [Nat.mul_comm, Published.memoryOperand_packed registerLt offsetLt, registerEq,
    signedField_emod widthPos low high]

namespace Field

theorem getLsbD_mask (field : Field) (inside : field.Inside) (index : Nat) :
    field.mask.getLsbD index =
      decide (field.low ≤ index ∧ index < field.low + field.width) := by
  have insideLe : field.low + field.width ≤ 32 := inside
  rw [mask, BitVec.getLsbD_ofNat, Nat.one_shiftLeft, Nat.testBit_shiftLeft,
    Nat.testBit_two_pow_sub_one, Bool.eq_iff_iff]
  simp
  omega

/-- The trailing zeros of a mask lead to the lowest bit of the field. -/
theorem toNat_ctz_mask (field : Field) (inside : field.Inside) (widthPos : 0 < field.width) :
    field.mask.ctz.toNat = field.low := by
  have lowest : field.mask.getLsbD field.low = true := by
    rw [field.getLsbD_mask inside, decide_eq_true_eq]
    omega
  have nonzero : field.mask ≠ 0#32 := by
    intro empty
    rw [empty, BitVec.getLsbD_zero] at lowest
    cases lowest
  have atZeros := BitVec.getLsbD_true_ctz_of_ne_zero nonzero
  rw [field.getLsbD_mask inside, decide_eq_true_eq] at atZeros
  by_contra zerosNe
  have below : field.low < field.mask.ctz.toNat := by omega
  rw [BitVec.getLsbD_false_of_lt_ctz below] at lowest
  cases lowest

/-- A field is read as the source of its mask: what the mask selects, moved down by the
zeros below it. -/
theorem ushiftRight_ctz_mask (field : Field) (inside : field.Inside) (widthPos : 0 < field.width)
    (word : BitVec 32) :
    ((word &&& field.mask) >>> field.mask.ctz).toNat = field.read word := by
  rw [read, BitVec.ushiftRight_eq', toNat_ctz_mask field inside widthPos]

/-- A mask whose set bits stand together is that of a field. -/
theorem mask_eq_of_contiguous {low high : Nat} (lowLe : low ≤ high) (highLt : high < 32)
    {mask : BitVec 32}
    (contiguous : ∀ index < 32, mask.getLsbD index = decide (low ≤ index ∧ index ≤ high)) :
    mask = (Field.mk low (high - low + 1)).mask := by
  have inside : (Field.mk low (high - low + 1)).Inside := by
    change low + (high - low + 1) ≤ 32
    omega
  apply BitVec.eq_of_getLsbD_eq
  intro index indexLt
  rw [contiguous index indexLt, getLsbD_mask _ inside, decide_eq_decide]
  change _ ↔ low ≤ index ∧ index < low + (high - low + 1)
  omega

end Field

namespace Published

/-- Fields with room for their values in a long word. -/
structure FitsLong (fields : OperandFields) : Prop where
  form : fields.form = .long
  aLt : fields.a < 2 ^ 6
  bLt : fields.b < 2 ^ 6
  cLt : fields.c < 2 ^ 6
  xLt : fields.x < 2 ^ 4

/-- The long word that carries operand fields in halves, with given bits above them and
between the halves. -/
def carrying (top middle : Nat) (fields : OperandFields) : Nat :=
  2 ^ 29 * top + 2 ^ 25 * fields.x +
    (2 ^ 22 * (fields.a / 2 ^ 3) + 2 ^ 19 * (fields.b / 2 ^ 3) + 2 ^ 16 * (fields.c / 2 ^ 3)) +
    2 ^ 9 * middle +
    (2 ^ 6 * (fields.a % 2 ^ 3) + 2 ^ 3 * (fields.b % 2 ^ 3) + fields.c % 2 ^ 3)

/-- A digit of a number, between what stands above and what stands below it. -/
theorem bits_eq_of_digits {word high low : Nat} (upper value lower : Nat)
    (lowLe : low ≤ high + 1) (valueLt : value < 2 ^ (high + 1 - low)) (lowerLt : lower < 2 ^ low)
    (wordEq : word = 2 ^ (high + 1) * upper + (2 ^ low * value + lower)) :
    bits word high low = value := by
  have widthEq : 2 ^ (high + 1) = 2 ^ low * 2 ^ (high + 1 - low) := by
    rw [← Nat.pow_add, Nat.add_sub_cancel' lowLe]
  have quotientEq : word / 2 ^ low = 2 ^ (high + 1 - low) * upper + value := by
    rw [wordEq, widthEq, Nat.mul_assoc, ← Nat.add_assoc, ← Nat.mul_add,
      Nat.mul_add_div (Nat.two_pow_pos low), Nat.div_eq_of_lt lowerLt, Nat.add_zero]
  rw [bits, quotientEq, Nat.mul_add_mod, Nat.mod_eq_of_lt valueLt]

/-- The digits of a long word are read from it. -/
theorem bits_of_digits (word : Nat)
    {top x aHigh bHigh cHigh middle aLow bLow cLow : Nat}
    (topLt : top < 2 ^ 3) (xLt : x < 2 ^ 4) (aHighLt : aHigh < 2 ^ 3) (bHighLt : bHigh < 2 ^ 3)
    (cHighLt : cHigh < 2 ^ 3) (middleLt : middle < 2 ^ 7) (aLowLt : aLow < 2 ^ 3)
    (bLowLt : bLow < 2 ^ 3) (cLowLt : cLow < 2 ^ 3)
    (wordEq : word = 2 ^ 29 * top + 2 ^ 25 * x +
      (2 ^ 22 * aHigh + 2 ^ 19 * bHigh + 2 ^ 16 * cHigh) + 2 ^ 9 * middle +
      (2 ^ 6 * aLow + 2 ^ 3 * bLow + cLow)) :
    bits word 31 29 = top ∧ bits word 28 25 = x ∧
      (bits word 24 22 = aHigh ∧ bits word 21 19 = bHigh ∧ bits word 18 16 = cHigh) ∧
      bits word 15 9 = middle ∧ bits word 8 6 = aLow ∧ bits word 5 3 = bLow ∧
      bits word 2 0 = cLow := by
  -- From the top down, each digit comes with the number above and the number below it.
  generalize lowEq : 2 ^ 9 * middle + (2 ^ 6 * aLow + 2 ^ 3 * bLow + cLow) = low
  generalize highEq : 2 ^ 13 * top + 2 ^ 9 * x + (2 ^ 6 * aHigh + 2 ^ 3 * bHigh + cHigh) = high
  have topEq : bits word 31 29 = top :=
    bits_eq_of_digits 0 top
      (2 ^ 25 * x + (2 ^ 22 * aHigh + 2 ^ 19 * bHigh + 2 ^ 16 * cHigh + low))
      (by decide) topLt (by omega) (by omega)
  have xEq : bits word 28 25 = x :=
    bits_eq_of_digits top x (2 ^ 22 * aHigh + 2 ^ 19 * bHigh + 2 ^ 16 * cHigh + low)
      (by decide) xLt (by omega) (by omega)
  have aHighEq : bits word 24 22 = aHigh :=
    bits_eq_of_digits (2 ^ 4 * top + x) aHigh (2 ^ 19 * bHigh + 2 ^ 16 * cHigh + low)
      (by decide) aHighLt (by omega) (by omega)
  have bHighEq : bits word 21 19 = bHigh :=
    bits_eq_of_digits (2 ^ 7 * top + 2 ^ 3 * x + aHigh) bHigh (2 ^ 16 * cHigh + low)
      (by decide) bHighLt (by omega) (by omega)
  have cHighEq : bits word 18 16 = cHigh :=
    bits_eq_of_digits (2 ^ 10 * top + 2 ^ 6 * x + 2 ^ 3 * aHigh + bHigh) cHigh low
      (by decide) cHighLt (by omega) (by omega)
  have middleEq : bits word 15 9 = middle :=
    bits_eq_of_digits high middle (2 ^ 6 * aLow + 2 ^ 3 * bLow + cLow)
      (by decide) middleLt (by omega) (by omega)
  have aLowEq : bits word 8 6 = aLow :=
    bits_eq_of_digits (2 ^ 7 * high + middle) aLow (2 ^ 3 * bLow + cLow)
      (by decide) aLowLt (by omega) (by omega)
  have bLowEq : bits word 5 3 = bLow :=
    bits_eq_of_digits (2 ^ 10 * high + 2 ^ 3 * middle + aLow) bLow cLow
      (by decide) bLowLt (by omega) (by omega)
  have cLowEq : bits word 2 0 = cLow :=
    bits_eq_of_digits (2 ^ 13 * high + 2 ^ 6 * middle + 2 ^ 3 * aLow + bLow) cLow 0
      (by decide) cLowLt (by decide) (by omega)
  exact ⟨topEq, xEq, ⟨aHighEq, bHighEq, cHighEq⟩, middleEq, aLowEq, bLowEq, cLowEq⟩

section Carrying

variable {top middle : Nat} {fields : OperandFields} (topLt : top < 2 ^ 3)
  (middleLt : middle < 2 ^ 7) (fits : FitsLong fields)

include topLt middleLt fits

theorem carrying_lt : carrying top middle fields < 2 ^ 32 := by
  obtain ⟨-, aLt, bLt, cLt, xLt⟩ := fits
  rw [carrying]
  omega

/-- What a long word carries is read from it. -/
theorem bits_carrying :
    let word := carrying top middle fields
    bits word 31 29 = top ∧ bits word 15 9 = middle ∧ split word 22 6 = fields.a ∧
      split word 19 3 = fields.b ∧ split word 16 0 = fields.c ∧ bits word 28 25 = fields.x := by
  obtain ⟨-, aLt, bLt, cLt, xLt⟩ := fits
  have upperLt {field : Nat} (fieldLt : field < 2 ^ 6) : field / 2 ^ 3 < 2 ^ 3 := by omega
  obtain ⟨topEq, xEq, ⟨aHigh, bHigh, cHigh⟩, middleEq, aLow, bLow, cLow⟩ :=
    bits_of_digits (carrying top middle fields) topLt xLt (upperLt aLt) (upperLt bLt)
      (upperLt cLt) middleLt (Nat.mod_lt fields.a (by decide)) (Nat.mod_lt fields.b (by decide))
      (Nat.mod_lt fields.c (by decide)) rfl
  refine ⟨topEq, middleEq, ?_, ?_, ?_, xEq⟩
  · rw [split, aHigh, aLow, Nat.div_add_mod]
  · rw [split, bHigh, bLow, Nat.div_add_mod]
  · rw [split, cHigh, cLow, Nat.div_add_mod]

/-- The halves of the operand fields are put together again. -/
theorem ofLong_carrying :
    OperandFields.ofLong (BitVec.ofNat 32 (carrying top middle fields)) = fields := by
  obtain ⟨-, -, aEq, bEq, cEq, xEq⟩ := bits_carrying topLt middleLt fits
  rw [ofLong_eq_fields, BitVec.toNat_ofNat, Nat.mod_eq_of_lt (carrying_lt topLt middleLt fits),
    aEq, bEq, cEq, xEq, ← fits.form]

end Carrying

end Published

/-- Signed fields, memory operands, contiguous masks and the split fields of long words
are all taken out exactly. -/
theorem extraction_is_exact :
    (∀ (width : Nat) (value : BitVec 32), 1 ≤ width → width ≤ 32 →
      (∀ number : Int, number = signedField width value.toNat ↔
        number % 2 ^ width = value.toNat % 2 ^ width ∧ -2 ^ (width - 1) ≤ number ∧
          number < 2 ^ (width - 1)) ∧
      (∀ other : BitVec 32, value.toNat % 2 ^ width = other.toNat % 2 ^ width →
        signedField width value.toNat = signedField width other.toNat) ∧
      (shiftedBack width value).toInt = signedField width value.toNat) ∧
    (∀ (form : Form) (register : Reg) (offset : Int), register.val < 2 ^ form.fieldWidth →
      -2 ^ (form.offsetWidth - 1) ≤ offset → offset < 2 ^ (form.offsetWidth - 1) →
      form.memoryOperand (register.val * 2 ^ 16 + (offset % 2 ^ form.offsetWidth).toNat) =
        .ok (register, offset)) ∧
    (∀ (low high : Nat) (mask : BitVec 32), low ≤ high → high < 32 →
      (∀ index < 32, mask.getLsbD index = decide (low ≤ index ∧ index ≤ high)) →
      ∀ word : BitVec 32,
        let field : Field := ⟨low, high - low + 1⟩
        field.mask = mask ∧ field.read word = ((word &&& mask) >>> mask.ctz).toNat ∧
          field.read word = word.toNat / 2 ^ low % 2 ^ (high - low + 1)) ∧
    ∀ (top middle : Nat) (fields : OperandFields), top < 2 ^ 3 → middle < 2 ^ 7 →
      Published.FitsLong fields →
      OperandFields.ofLong (BitVec.ofNat 32 (Published.carrying top middle fields)) = fields := by
  refine ⟨?_, ?_, ?_, ?_⟩
  · intro width value widthPos widthLe
    exact ⟨eq_signedField_iff widthPos value.toNat, fun other => signedField_congr,
      toInt_shiftedBack widthPos widthLe value⟩
  · intro form register offset registerLt low high
    exact memoryOperand_unsigned form registerLt low high
  · intro low high mask lowLe highLt contiguous word field
    have inside : field.Inside := by
      change low + (high - low + 1) ≤ 32
      omega
    have maskEq : mask = field.mask := Field.mask_eq_of_contiguous lowLe highLt contiguous
    subst maskEq
    exact ⟨rfl, (field.ushiftRight_ctz_mask inside (Nat.succ_pos _) word).symm,
      field.read_eq_div_mod inside word⟩
  · intro top middle fields topLt middleLt fits
    exact Published.ofLong_carrying topLt middleLt fits

/-- The least offset of a long memory access behind the last register, the extension of a
word full of ones, and fields whose halves differ. -/
theorem extraction_is_exact_at_least_offset :
    signedField 10 (0xFFFFFE00 : BitVec 32).toNat = -512 ∧
    signedField 10 (0xFFFFFE00 : BitVec 32).toNat = signedField 10 (0x200 : BitVec 32).toNat ∧
    Form.long.memoryOperand (63 * 2 ^ 16 + 0x200) = .ok (63, -512) ∧
    Field.x.read 0xFFFFFFFF = 15 ∧
    OperandFields.ofLong (BitVec.ofNat 32 0x1FC8A047) = ⟨.long, 57, 8, 7, 15⟩ := by
  obtain ⟨signs, operands, masks, carried⟩ := extraction_is_exact
  obtain ⟨residue, above, _⟩ := signs 10 0xFFFFFE00 (by decide) (by decide)
  refine ⟨((residue (-512)).mpr (by decide)).symm, above 0x200 (by decide), ?_, ?_, ?_⟩
  · have packed : 63 * 2 ^ 16 + 0x200 =
        (63 : Reg).val * 2 ^ 16 + ((-512 : Int) % 2 ^ Form.long.offsetWidth).toNat := by decide
    rw [packed]
    exact operands .long 63 (-512) (by decide) (by decide) (by decide)
  · exact (masks 25 28 0x1E000000 (by decide) (by decide) (by decide) 0xFFFFFFFF).2.2
  · exact carried 0 0x50 ⟨.long, 57, 8, 7, 15⟩ (by decide) (by decide)
      ⟨rfl, by decide, by decide, by decide, by decide⟩

end Aap
