import Aap.Proofs.Bounded

/-!
# What a computation leaves

The word and the flag after a computation are given by the exact numbers that
its operands stand for: sums are taken modulo `2 ^ 16` and set the flag if they
leave the signed range, bits are combined one by one, and shifts multiply or
divide by a power of two.  The immediates that decode are small enough that no
sum leaves thirty-two bits on the way.
-/

namespace Aap

namespace Operand

/-- The number that an operand stands for: the unsigned value of its bits. -/
def number : Operand → Nat
  | register value => value.toNat
  | immediate value => value

/-- The number that an operand adds to a sum: a register is signed. -/
def exact : Operand → Int
  | register value => value.toInt
  | immediate value => value

/-- An operand whose summand is in the range of a signed word. -/
def IsSmall (operand : Operand) : Prop :=
  -2 ^ 15 ≤ operand.exact ∧ operand.exact < 2 ^ 15

theorem isSmall_register (value : Word) : (register value).IsSmall :=
  ⟨value.le_toInt, value.toInt_lt⟩

theorem isSmall_immediate {value : Nat} (valueLt : value < 2 ^ 10) : (immediate value).IsSmall := by
  simp only [IsSmall, exact]
  omega

theorem summand_eq_exact {operand : Operand} (small : operand.IsSmall) :
    operand.summand = operand.exact := by
  cases operand with
  | register value => rfl
  | immediate value =>
      obtain ⟨_, upper⟩ := small
      simp only [exact] at upper
      exact summand_immediate (by omega)

theorem toNat_bits (operand : Operand) : operand.bits.toNat = operand.number % 2 ^ 16 := by
  cases operand with
  | register value => exact (Nat.mod_eq_of_lt value.isLt).symm
  | immediate value => exact BitVec.toNat_ofNat value 16

theorem amount_eq (operand : Operand) : operand.amount = operand.number % 16 := by
  rw [amount, toNat_bits]
  exact Nat.mod_mod_of_dvd operand.number (by decide)

example : (immediate 64).amount = 0 := rfl

end Operand

namespace Word

/-- The bits of a word from its signed reading. -/
theorem toNat_eq_toInt_emod (word : Word) : (word.toNat : Int) = word.toInt % 2 ^ 16 := by
  have wordLt := word.isLt
  rw [BitVec.toInt_eq_toNat_cond]
  split <;> omega

/-- A word congruent to an exact sum, and the flag that tells whether the sum is
outside the signed range. -/
structure Settles (exact : Int) (result : Word) (overflow : Bool) : Prop where
  result : (result.toNat : Int) = exact % 2 ^ 16
  overflow : overflow = true ↔ exact < -32768 ∨ 32767 < exact

theorem settles_settle (exact : Int) : Settles exact (settle exact).1 (settle exact).2 := by
  refine ⟨?_, settle_overflow_iff exact⟩
  rw [settle, BitVec.toNat_ofInt]
  omega

end Word

namespace AluOp

/-- The bits of a word come from those of two numbers at the same places. -/
def Bitwise (combine : Bool → Bool → Bool) (left right : Nat) (result : Word) : Prop :=
  ∀ place < 16,
    result.toNat.testBit place = combine (left.testBit place) (right.testBit place)

/-- The word and the flag that a computation is to leave, told by the exact
numbers of its operands and the flag before. -/
def Yields (op : AluOp) (left : Word) (right : Operand) (before : Bool) (result : Word)
    (after : Bool) : Prop :=
  let shift := right.number % 16
  match op with
  | add => Word.Settles (left.toInt + right.exact) result after
  | addWithCarry => Word.Settles (left.toInt + right.exact + before.toInt) result after
  | sub => Word.Settles (left.toInt - right.exact) result after
  | subWithBorrow => Word.Settles (left.toInt - right.exact - before.toInt) result after
  | and => Bitwise (· && ·) left.toNat right.number result ∧ after = before
  | or => Bitwise (· || ·) left.toNat right.number result ∧ after = before
  | xor => Bitwise (· ^^ ·) left.toNat right.number result ∧ after = before
  | asr => (result.toNat : Int) = left.toInt / 2 ^ shift % 2 ^ 16 ∧ after = before
  | lsl => result.toNat = left.toNat * 2 ^ shift % 2 ^ 16 ∧ after = before
  | lsr => result.toNat = left.toNat / 2 ^ shift ∧ after = before

section Compute

variable (left : Word) (right : Operand) (flag : Bool)

theorem testBit_bits {place : Nat} (placeLt : place < 16) :
    right.bits.toNat.testBit place = right.number.testBit place := by
  rw [right.toNat_bits, Nat.testBit_mod_two_pow, decide_eq_true placeLt, Bool.true_and]

theorem toNat_sshiftRight_amount :
    ((left.sshiftRight right.amount).toNat : Int) =
      left.toInt / 2 ^ (right.number % 16) % 2 ^ 16 := by
  rw [Word.toNat_eq_toInt_emod, BitVec.toInt_sshiftRight, Int.shiftRight_eq_div_pow,
    right.amount_eq]
  push_cast
  rfl

theorem toNat_shiftLeft_amount :
    (left <<< right.amount).toNat = left.toNat * 2 ^ (right.number % 16) % 2 ^ 16 := by
  rw [BitVec.toNat_shiftLeft, Nat.shiftLeft_eq, right.amount_eq]

theorem toNat_ushiftRight_amount :
    (left >>> right.amount).toNat = left.toNat / 2 ^ (right.number % 16) := by
  rw [BitVec.toNat_ushiftRight, Nat.shiftRight_eq_div_pow, right.amount_eq]

/-- A computation leaves the word and the flag that it is to leave. -/
theorem yields_compute (op : AluOp) (small : right.IsSmall) :
    op.Yields left right flag (op.compute left right flag).1
      ((op.compute left right flag).2.getD flag) := by
  have summandEq := Operand.summand_eq_exact small
  cases op with
  | add | addWithCarry | sub | subWithBorrow =>
      simp only [Yields, compute, summandEq]
      exact Word.settles_settle _
  | and =>
      refine ⟨fun place placeLt => ?_, rfl⟩
      rw [← testBit_bits right placeLt, compute, BitVec.toNat_and, Nat.testBit_and]
  | or =>
      refine ⟨fun place placeLt => ?_, rfl⟩
      rw [← testBit_bits right placeLt, compute, BitVec.toNat_or, Nat.testBit_or]
  | xor =>
      refine ⟨fun place placeLt => ?_, rfl⟩
      rw [← testBit_bits right placeLt, compute, BitVec.toNat_xor, Nat.testBit_xor]
  | asr => exact ⟨toNat_sshiftRight_amount left right, rfl⟩
  | lsl => exact ⟨toNat_shiftLeft_amount left right, rfl⟩
  | lsr => exact ⟨toNat_ushiftRight_amount left right, rfl⟩

end Compute

end AluOp

/-- A computation as it is executed: what is computed from what, and the
register that takes the result. -/
structure Computation where
  op : AluOp
  target : Reg
  left : Word
  right : Operand

namespace Operation

/-- The computation that an operation makes on a machine, if it makes one. -/
def computation? (operation : Operation) (machine : Machine) : Option Computation :=
  match operation with
  | alu op rd ra rb => some ⟨op, rd, machine.read ra, .register (machine.read rb)⟩
  | aluImmediate op rd ra imm => some ⟨op, rd, machine.read ra, .immediate imm⟩
  | _ => none

theorem execute_of_computation? {operation : Operation} {machine : Machine}
    {computation : Computation} (computes : operation.computation? machine = some computation)
    (pc fallThrough : Word) :
    let computed := computation.op.compute computation.left computation.right
      machine.processor.overflow
    operation.execute machine pc fallThrough =
      (.retired,
        { registerWrites := [(computation.target, computed.1)]
          overflow := computed.2
          nextPc := fallThrough }) := by
  cases operation with
  | alu op rd ra rb | aluImmediate op rd ra imm =>
      cases computes
      rfl
  | _ => cases computes

theorem not_isConditionalJump_of_computation? {operation : Operation} {machine : Machine}
    {computation : Computation} (computes : operation.computation? machine = some computation) :
    ¬ operation.IsConditionalJump := by
  rintro ⟨condition, target, ra, rb, rfl⟩
  cases computes

end Operation

/-- Decoded computations have small second operands. -/
theorem Instruction.isSmall_of_decode {bytes : List Byte} {address : Nat}
    {instruction : Instruction} (decoded : decode bytes address = .ok instruction)
    {machine : Machine} {computation : Computation}
    (computes : instruction.operation.computation? machine = some computation) :
    computation.right.IsSmall := by
  -- Any word is small enough; only an immediate depends on what is decoded.
  cases operationEq : instruction.operation with
  | alu op rd ra rb =>
      rw [operationEq] at computes
      cases computes
      exact Operand.isSmall_register (machine.read rb)
  | aluImmediate op rd ra imm =>
      rw [operationEq] at computes
      cases computes
      exact Operand.isSmall_immediate ((begins_of_decode decoded).immediate_lt operationEq)
  | _ =>
      rw [operationEq] at computes
      cases computes

namespace Simulator

/-- Executing a decoded computation and committing its effects leaves the exact
word in its target and the exact flag, and changes nothing else.  All sums fit
into thirty-two bits, where computing them meets no fault. -/
theorem decoded_computation_is_exact {bytes : List Byte} {address : Nat}
    {instruction : Instruction} (decoded : Instruction.decode bytes address = .ok instruction)
    (simulator : Simulator) (policy : UnknownOpcodePolicy) (pc fallThrough : Word)
    {op : AluOp} {target : Reg} {left : Word} {right : Operand}
    (computes : instruction.operation.computation? simulator.machine =
      some ⟨op, target, left, right⟩) :
    let before := simulator.observe
    ∃ effects result update,
      instruction.execute policy simulator.machine pc fallThrough = .ok (.retired, effects) ∧
      op.Yields left right before.overflow result (update.getD before.overflow) ∧
      (∀ value ∈ op.intermediates left.toInt right.exact before.overflow, FitsSigned32 value) ∧
      op.computeWithin left right.wide before.overflow = .ok (result, update) ∧
      (simulator.commit effects).observe =
        { before with
          registers := Function.update before.registers target result
          overflow := update.getD before.overflow
          pc := fallThrough } := by
  intro before
  have small : right.IsSmall := Instruction.isSmall_of_decode decoded computes
  have meaningful := Operation.not_isConditionalJump_of_computation? computes
  have executeEq := instruction.execute_eq_ok policy simulator.machine pc fallThrough meaningful
  rw [Operation.execute_of_computation? computes] at executeEq
  have withinEq := op.computeWithin_eq_ok left right before.overflow
    (Operand.summand_eq_exact small ▸ small.1) (Operand.summand_eq_exact small ▸ small.2)
  refine ⟨_, _, _, executeEq, AluOp.yields_compute left right before.overflow op small,
    op.fitsSigned32_intermediates left small.1 small.2 before.overflow, withinEq, ?_⟩
  rw [observe_commit]
  apply Observation.ext <;> try rfl
  funext stream
  exact List.append_nil _

/-- The least word less a borrow, in the register that it comes from. -/
theorem decoded_computation_is_exact_at_least_word :
    let simulator := (create {}).commit
      { registerWrites := [(1, 0x8000)], overflow := some true, nextPc := 0 }
    let subtract : Instruction := ⟨⟨.long, .alu .subWithBorrow, rfl⟩, .alu .subWithBorrow 1 1 2⟩
    Instruction.decode [0x4A, 0x84, 0x00, 0x02] 0 = .ok subtract ∧
    subtract.operation.computation? simulator.machine =
      some ⟨.subWithBorrow, 1, 0x8000, .register 0⟩ ∧
    ∃ effects,
      subtract.execute .trap simulator.machine 0 2 = .ok (.retired, effects) ∧
      (simulator.commit effects).machine.read 1 = 0x7FFF ∧
      (simulator.commit effects).machine.processor.overflow = true := by
  intro simulator subtract
  have decoded : Instruction.decode [0x4A, 0x84, 0x00, 0x02] 0 = .ok subtract := by decide +kernel
  have computes : subtract.operation.computation? simulator.machine =
      some ⟨.subWithBorrow, 1, 0x8000, .register 0⟩ := rfl
  obtain ⟨effects, result, update, executeEq, settles, _, _, observeEq⟩ :=
    decoded_computation_is_exact decoded simulator .trap 0 2 computes
  have resultEq : result = 0x7FFF := by
    apply BitVec.eq_of_toNat_eq
    exact Int.ofNat.inj settles.result
  have flagEq : update.getD true = true := settles.overflow.mpr (.inl (by decide))
  have registerEq : (simulator.commit effects).machine.read 1 =
      Function.update simulator.observe.registers 1 result 1 :=
    congrFun (congrArg Observation.registers observeEq) 1
  refine ⟨decoded, computes, effects, executeEq, ?_, ?_⟩
  · rw [registerEq, Function.update_self, resultEq]
  · exact (congrArg Observation.overflow observeEq).trans flagEq

end Simulator

end Aap
