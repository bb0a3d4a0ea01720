import Aap.Execute
import Mathlib.Algebra.Group.Int.Defs
import Mathlib.Algebra.Group.Nat.Defs
import Mathlib.Tactic.Common

/-!
# Thirty-two-bit arithmetic

The instruction set computes sums on thirty-two bits and cuts the result to a
word; the flag tells whether extending the sign of the word gives the sum back.
The simulator sums exactly.  Both give the same word and the same flag as long
as the exact sum fits into thirty-two signed bits, which only an immediate can
prevent.
-/

namespace Aap

/-- A number that thirty-two signed bits can hold. -/
def FitsSigned32 (value : Int) : Prop :=
  -2 ^ 31 ≤ value ∧ value < 2 ^ 31

/-- A thirty-two-bit sum cut to a word, and whether the sign extension of the
word differs from the sum. -/
def Word.truncate (wide : BitVec 32) : Word × Bool :=
  (wide.setWidth 16, (wide.setWidth 16).signExtend 32 != wide)

namespace AluOp

/-- The word and the flag that a computation leaves, on thirty-two bits. -/
def evaluate (op : AluOp) (left : Word) (right : BitVec 32) (flag : Bool) : Word × Bool :=
  let carry := (BitVec.ofBool flag).setWidth 32
  match op with
  | add => Word.truncate (left.signExtend 32 + right)
  | addWithCarry => Word.truncate (left.signExtend 32 + right + carry)
  | sub => Word.truncate (left.signExtend 32 - right)
  | subWithBorrow => Word.truncate (left.signExtend 32 - right - carry)
  | and => (left &&& right.setWidth 16, flag)
  | or => (left ||| right.setWidth 16, flag)
  | xor => (left ^^^ right.setWidth 16, flag)
  | asr => (left.sshiftRight (right.toNat % 16), flag)
  | lsl => (left <<< (right.toNat % 16), flag)
  | lsr => (left >>> (right.toNat % 16), flag)

/-- The exact sum or difference that a computation forms, if it forms one. -/
def sum? (op : AluOp) (left right : Int) (flag : Bool) : Option Int :=
  match op with
  | add => some (left + right)
  | addWithCarry => some (left + right + flag.toInt)
  | sub => some (left - right)
  | subWithBorrow => some (left - right - flag.toInt)
  | and | or | xor | asr | lsl | lsr => none

/-- The exact numbers that a sum is formed from and through, itself included. -/
def intermediates (op : AluOp) (left right : Int) (flag : Bool) : List Int :=
  match op with
  | add => [left, right, left + right]
  | addWithCarry => [left, right, left + right, left + right + flag.toInt]
  | sub => [left, right, left - right]
  | subWithBorrow => [left, right, left - right, left - right - flag.toInt]
  | and | or | xor | asr | lsl | lsr => []

end AluOp

/-- The operand as thirty-two bits: registers are signed, immediates are not. -/
def Operand.wide : Operand → BitVec 32
  | register value => value.signExtend 32
  | immediate value => BitVec.ofNat 32 value

namespace Operand

theorem summand_eq_toInt_wide (operand : Operand) : operand.summand = operand.wide.toInt := by
  cases operand with
  | register value => exact (BitVec.toInt_signExtend_of_le (by decide)).symm
  | immediate value => rfl

theorem bits_eq_setWidth_wide (operand : Operand) : operand.bits = operand.wide.setWidth 16 := by
  cases operand with
  | register value =>
      rw [bits, wide]
      ext index indexLt
      have indexLtWide : index < 32 := by omega
      simp [BitVec.getElem_signExtend, indexLt, indexLtWide]
  | immediate value =>
      rw [bits, wide, BitVec.setWidth_ofNat_of_le (by decide)]

theorem amount_eq_toNat_wide_mod (operand : Operand) :
    operand.amount = operand.wide.toNat % 16 := by
  rw [amount, bits_eq_setWidth_wide, BitVec.toNat_setWidth]
  omega

theorem summand_immediate {value : Nat} (small : value < 2 ^ 15) :
    (immediate value).summand = value := by
  rw [summand, BitVec.toInt_ofNat']
  exact Int.bmod_eq_of_le (by omega) (by omega)

end Operand

theorem toInt_eq_of_fitsSigned32 {wide : BitVec 32} {sum : Int}
    (wideEq : wide = BitVec.ofInt 32 sum) (fits : FitsSigned32 sum) :
    wide.toInt = sum := by
  obtain ⟨lower, upper⟩ := fits
  rw [wideEq, BitVec.toInt_ofInt]
  exact Int.bmod_eq_of_le (by omega) (by omega)

theorem settle_toInt (wide : BitVec 32) : Word.settle wide.toInt = Word.truncate wide := by
  have wordEq : BitVec.ofInt 16 wide.toInt = wide.setWidth 16 := by
    apply BitVec.eq_of_toNat_eq
    rw [BitVec.toNat_ofInt, BitVec.toNat_setWidth, BitVec.toInt_eq_toNat_cond]
    split <;> omega
  have flagEq : ((wide.setWidth 16).toInt != wide.toInt) =
      ((wide.setWidth 16).signExtend 32 != wide) := by
    rw [Bool.eq_iff_iff, bne_iff_ne, bne_iff_ne, ne_eq, ne_eq, not_iff_not, ← BitVec.toInt_inj,
      BitVec.toInt_signExtend_of_le (by decide)]
  rw [Word.settle, Word.truncate, wordEq, flagEq]

theorem settle_of_fitsSigned32 {wide : BitVec 32} {sum : Int}
    (wideEq : wide = BitVec.ofInt 32 sum) (fits : FitsSigned32 sum) :
    Word.settle sum = Word.truncate wide := by
  rw [← settle_toInt, toInt_eq_of_fitsSigned32 wideEq fits]

namespace AluOp

theorem signExtend_eq_ofInt (word : Word) : word.signExtend 32 = BitVec.ofInt 32 word.toInt := by
  rw [← BitVec.toInt_signExtend_of_le (x := word) (v := 32) (by decide), BitVec.ofInt_toInt]

theorem carry_eq_ofInt (flag : Bool) :
    (BitVec.ofBool flag).setWidth 32 = BitVec.ofInt 32 flag.toInt := by
  cases flag <;> rfl

theorem ofInt_sub (left right : Int) :
    BitVec.ofInt 32 (left - right) = BitVec.ofInt 32 left - BitVec.ofInt 32 right := by
  rw [Int.sub_eq_add_neg, BitVec.ofInt_add, BitVec.ofInt_neg, BitVec.sub_eq_add_neg]

/-- The exact computation and the one on thirty-two bits leave the same word
and the same flag. -/
theorem compute_eq_evaluate (op : AluOp) (left : Word) (right : Operand) (flag : Bool)
    (fits : ∀ sum ∈ op.sum? left.toInt right.wide.toInt flag, FitsSigned32 sum) :
    (op.compute left right flag).1 = (op.evaluate left right.wide flag).1 ∧
      (op.compute left right flag).2.getD flag = (op.evaluate left right.wide flag).2 := by
  have settled {sum : Int} {wide : BitVec 32} (wideEq : wide = BitVec.ofInt 32 sum)
      (sumFits : FitsSigned32 sum) :
      (compute.settled sum).1 = (Word.truncate wide).1 ∧
        (compute.settled sum).2.getD flag = (Word.truncate wide).2 := by
    have settleEq := settle_of_fitsSigned32 wideEq sumFits
    exact ⟨congrArg Prod.fst settleEq, congrArg Prod.snd settleEq⟩
  have leftEq := signExtend_eq_ofInt left
  have rightEq : right.wide = BitVec.ofInt 32 right.summand := by
    rw [right.summand_eq_toInt_wide, BitVec.ofInt_toInt]
  have carryEq := carry_eq_ofInt flag
  rw [← right.summand_eq_toInt_wide] at fits
  cases op with
  | add =>
      apply settled _ (fits _ rfl)
      rw [leftEq, rightEq, BitVec.ofInt_add]
  | addWithCarry =>
      apply settled _ (fits _ rfl)
      rw [leftEq, rightEq, carryEq, BitVec.ofInt_add, BitVec.ofInt_add]
  | sub =>
      apply settled _ (fits _ rfl)
      rw [leftEq, rightEq, ofInt_sub]
  | subWithBorrow =>
      apply settled _ (fits _ rfl)
      rw [leftEq, rightEq, carryEq, ofInt_sub, ofInt_sub]
  | and => simp [compute, evaluate, right.bits_eq_setWidth_wide]
  | or => simp [compute, evaluate, right.bits_eq_setWidth_wide]
  | xor => simp [compute, evaluate, right.bits_eq_setWidth_wide]
  | asr => simp [compute, evaluate, right.amount_eq_toNat_wide_mod]
  | lsl => simp [compute, evaluate, right.amount_eq_toNat_wide_mod]
  | lsr => simp [compute, evaluate, right.amount_eq_toNat_wide_mod]

theorem mem_intermediates_of_mem_sum? (op : AluOp) (left right : Int) (flag : Bool) :
    ∀ sum ∈ op.sum? left right flag, sum ∈ op.intermediates left right flag := by
  cases op <;> simp [sum?, intermediates]

/-- A register and a number of its range never leave the range of thirty-two
bits. -/
theorem fitsSigned32_intermediates (op : AluOp) (left : Word) {right : Int}
    (rightLower : -2 ^ 15 ≤ right) (rightUpper : right < 2 ^ 15) (flag : Bool) :
    ∀ value ∈ op.intermediates left.toInt right flag, FitsSigned32 value := by
  have leftLower := left.le_toInt
  have leftUpper := left.toInt_lt
  have flagLe : flag.toInt = 0 ∨ flag.toInt = 1 := by cases flag <;> simp
  cases op <;>
    simp only [intermediates, List.forall_mem_cons, List.not_mem_nil, false_imp_iff, implies_true,
      and_true, FitsSigned32] <;>
    omega

theorem fitsSigned32_of_lt (op : AluOp) (left : Word) {right : Int}
    (rightLower : -2 ^ 15 ≤ right) (rightUpper : right < 2 ^ 15) (flag : Bool) :
    ∀ sum ∈ op.sum? left.toInt right flag, FitsSigned32 sum := by
  intro sum member
  apply op.fitsSigned32_intermediates left rightLower rightUpper flag
  exact op.mem_intermediates_of_mem_sum? left.toInt right flag sum member

end AluOp

end Aap
