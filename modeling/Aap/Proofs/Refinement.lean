import Aap.Proofs.Decode
import Aap.Proofs.Interpretation

/-!
# Recording and committing is interpreting

Committing the recorded effects of an operation leads to the observation that
the operation's meaning gives.  Addresses, pointers, loaded values and stored
bytes are compared first; what remains for each operation is that the order of
the recorded register writes decides between coinciding registers as the
meaning says.
-/

namespace Aap

namespace Word

theorem displace_eq_reach (word : Word) (offset : Int) :
    displace word offset = reach word offset := by
  rw [displace, reach, BitVec.ofInt_add, BitVec.ofInt_natCast, BitVec.ofNat_toNat,
    BitVec.setWidth_eq]

theorem add_ofNat_eq_reach (word : Word) (distance : Nat) :
    word + BitVec.ofNat 16 distance = reach word distance := by
  rw [← displace_eq_reach, displace, BitVec.ofInt_natCast]

theorem add_one_eq_reach (word : Word) : word + 1 = reach word 1 :=
  add_ofNat_eq_reach word 1

theorem sub_ofNat_eq_reach (word : Word) (distance : Nat) :
    word - BitVec.ofNat 16 distance = reach word (-distance) := by
  rw [← displace_eq_reach, displace, BitVec.ofInt_neg, BitVec.ofInt_natCast,
    BitVec.sub_eq_add_neg]

theorem lowByte_eq_ofNat (word : Word) : lowByte word = BitVec.ofNat 8 word.toNat :=
  rfl

theorem highByte_eq_ofNat (word : Word) : highByte word = BitVec.ofNat 8 (word.toNat / 256) := by
  apply BitVec.eq_of_toNat_eq
  have wordLt := word.isLt
  rw [toNat_highByte, BitVec.toNat_ofNat]
  omega

end Word

theorem Condition.holds_iff (condition : Condition) (left right : Word) :
    condition.holds left right = true ↔ condition.Holds left right := by
  cases condition <;> simp [holds, Holds, BitVec.slt, BitVec.ult]

namespace Observation

variable (simulator : Simulator)

theorem pointerBefore_eq_pointer (width : Width) (mode : Mode) (base : Reg) :
    mode.pointerBefore width (simulator.machine.read base) =
      simulator.observe.pointer width mode base := by
  cases mode with
  | plain => rfl
  | postIncrement => rfl
  | preDecrement => exact Word.sub_ofNat_eq_reach _ _

theorem loaded_eq_value (width : Width) (address : Word) :
    simulator.machine.loaded width address = simulator.observe.value width address := by
  cases width with
  | byte => exact (BitVec.ofNat_toNat 16 (simulator.machine.dataByte address)).symm
  | word =>
      apply BitVec.eq_of_toNat_eq
      have lowLt := (simulator.machine.dataByte address).isLt
      have highLt := (simulator.machine.dataByte (Word.reach address 1)).isLt
      have loadedEq : (simulator.machine.loaded .word address).toNat =
          (simulator.machine.dataByte (address + 1)).toNat * 256 +
            (simulator.machine.dataByte address).toNat :=
        Word.toNat_ofBytes _ _
      rw [loadedEq, Word.add_one_eq_reach]
      simp only [value, Simulator.observe, BitVec.toNat_ofNat]
      omega

theorem overwrite_single {Cell Value : Type} [DecidableEq Cell] (cells : Cell → Value)
    (written : Cell) (value : Value) :
    overwrite cells [(written, value)] =
      fun cell => if cell = written then value else cells cell := by
  funext cell
  exact Function.update_apply _ _ _ _

/-- Of the write before the access, the loaded value and the write after the
access, the last to name a register stands. -/
theorem overwrite_load (registers : Reg → Word) (width : Width) (mode : Mode) (rd base : Reg)
    (pointer value : Word) :
    overwrite registers
        (mode.writesBefore base pointer ++ (rd, value) :: mode.writesAfter width base pointer) =
      fun register =>
        match mode with
        | .plain => if register = rd then value else registers register
        | .preDecrement =>
            if register = rd then value
            else if register = base then pointer
            else registers register
        | .postIncrement =>
            if register = base then Word.reach pointer width.bytes
            else if register = rd then value
            else registers register := by
  funext register
  cases mode <;>
    simp [Mode.writesBefore, Mode.writesAfter, Mode.pointerAfter?, overwrite,
      Function.update_apply, Word.add_ofNat_eq_reach]

theorem overwrite_store (registers : Reg → Word) (width : Width) (mode : Mode) (base : Reg)
    (pointer : Word) :
    overwrite registers (mode.writesBefore base pointer ++ mode.writesAfter width base pointer) =
      fun register =>
        match mode with
        | .plain => registers register
        | .preDecrement => if register = base then pointer else registers register
        | .postIncrement =>
            if register = base then Word.reach pointer width.bytes else registers register := by
  funext register
  cases mode <;>
    simp [Mode.writesBefore, Mode.writesAfter, Mode.pointerAfter?, overwrite,
      Function.update_apply, Word.add_ofNat_eq_reach]

theorem reach_one_ne (address : Word) : address ≠ Word.reach address 1 := by
  rw [← Word.add_one_eq_reach]
  intro same
  have toNatEq := congrArg BitVec.toNat same
  have addressLt := address.isLt
  rw [BitVec.toNat_add] at toNatEq
  simp at toNatEq
  omega

theorem overwrite_storedBytes (data : Word → Byte) (width : Width) (address value : Word) :
    overwrite data (width.storedBytes address value) =
      fun cell =>
        if cell = address then BitVec.ofNat 8 value.toNat
        else if width = .word ∧ cell = Word.reach address 1 then
          BitVec.ofNat 8 (value.toNat / 256)
        else data cell := by
  funext cell
  cases width with
  | byte => simp [Width.storedBytes, overwrite, Function.update_apply, Word.lowByte_eq_ofNat]
  | word =>
      simp only [Width.storedBytes, overwrite, Function.update_apply, Word.add_one_eq_reach,
        Word.lowByte_eq_ofNat, Word.highByte_eq_ofNat, true_and]
      by_cases low : cell = address
      · subst low
        simp [reach_one_ne cell]
      · simp [low]

/-- Effects without output, exit code and flag change registers, data and
program counter only. -/
theorem commit_silent (before : Observation) {registerWrites : List (Reg × Word)}
    {memoryWrites : List (Word × Byte)} {nextPc pc : Word} {registers : Reg → Word}
    {data : Word → Byte} (registersEq : overwrite before.registers registerWrites = registers)
    (dataEq : overwrite before.data memoryWrites = data) (pcEq : nextPc = pc) :
    before.commit { registerWrites, memoryWrites, nextPc } =
      { before with registers, data, pc } := by
  subst registersEq dataEq pcEq
  apply Observation.ext <;> try rfl
  funext stream
  exact List.append_nil _

end Observation

namespace Operation

variable (simulator : Simulator) (pc fallThrough : Word)

theorem observe_nop (reg : Reg) (command : Nat) :
    simulator.observe.commit ((nop reg command).execute simulator.machine pc fallThrough).2 =
      (nop reg command).interpret pc fallThrough simulator.observe := by
  unfold execute interpret
  match command with
  | 0 | 1 | 2 | n + 5 =>
      apply Observation.ext <;> try rfl
      funext stream
      cases stream <;> simp [Request.ofCommand, Observation.commit]
  | 3 | 4 =>
      apply Observation.ext <;> try rfl
      funext stream
      cases stream <;>
        simp [Request.ofCommand, Observation.commit, Simulator.observe, Word.lowByte_eq_ofNat]

theorem observe_compute (op : AluOp) (rd ra : Reg) (right : Operand)
    (fits : ∀ sum ∈ op.sum? (simulator.observe.registers ra).toInt right.wide.toInt
      simulator.observe.overflow, FitsSigned32 sum) :
    let (word, overflow) :=
      op.compute (simulator.machine.read ra) right simulator.machine.processor.overflow
    let result :=
      op.evaluate (simulator.observe.registers ra) right.wide simulator.observe.overflow
    simulator.observe.commit
        { registerWrites := [(rd, word)], overflow, nextPc := fallThrough } =
      { simulator.observe with
        pc := fallThrough
        registers := fun register =>
          if register = rd then result.1 else simulator.observe.registers register
        overflow := result.2 } := by
  obtain ⟨wordEq, flagEq⟩ := op.compute_eq_evaluate _ right _ fits
  apply Observation.ext
  · funext register
    simp only [Observation.commit, overwrite, Function.update_apply]
    rw [← wordEq]
    rfl
  · rfl
  · exact flagEq
  · rfl
  · rfl
  · rfl
  · funext stream
    simp [Observation.commit]

theorem observe_load (width : Width) (mode : Mode) (rd base : Reg) (offset : Int) :
    simulator.observe.commit
        ((load width mode rd base offset).execute simulator.machine pc fallThrough).2 =
      (load width mode rd base offset).interpret pc fallThrough simulator.observe := by
  have pointerEq := Observation.pointerBefore_eq_pointer simulator width mode base
  apply Observation.commit_silent
  · rw [pointerEq, Observation.loaded_eq_value, Word.displace_eq_reach]
    exact Observation.overwrite_load _ width mode rd base _ _
  · rfl
  · rfl

theorem observe_store (width : Width) (mode : Mode) (base : Reg) (offset : Int) (rs : Reg) :
    simulator.observe.commit
        ((store width mode base offset rs).execute simulator.machine pc fallThrough).2 =
      (store width mode base offset rs).interpret pc fallThrough simulator.observe := by
  have pointerEq := Observation.pointerBefore_eq_pointer simulator width mode base
  apply Observation.commit_silent
  · rw [pointerEq]
    exact Observation.overwrite_store _ width mode base _
  · rw [pointerEq, Word.displace_eq_reach]
    exact Observation.overwrite_storedBytes _ width _ _
  · rfl

theorem observe_branch (condition : Condition) (offset : Int) (ra rb : Reg) :
    simulator.observe.commit
        ((branch condition offset ra rb).execute simulator.machine pc fallThrough).2 =
      (branch condition offset ra rb).interpret pc fallThrough simulator.observe := by
  have holdsIff := condition.holds_iff (simulator.machine.read ra) (simulator.machine.read rb)
  have effectsEq : ((branch condition offset ra rb).execute simulator.machine pc fallThrough).2 =
      { nextPc :=
          if condition.Holds (simulator.machine.read ra) (simulator.machine.read rb) then
            Word.reach pc offset
          else
            fallThrough } := by
    rw [execute, ← Word.displace_eq_reach, apply_ite Prod.snd]
    simp only [holdsIff]
    split <;> rfl
  rw [effectsEq]
  exact Observation.commit_silent _ rfl rfl rfl

/-- The record of an operation, committed, is the meaning of the operation. -/
theorem commit_execute (operation : Operation) (meaningful : ¬ operation.IsConditionalJump)
    (fits : operation.SumFits simulator.observe) :
    simulator.observe.commit (operation.execute simulator.machine pc fallThrough).2 =
      operation.interpret pc fallThrough simulator.observe := by
  cases operation with
  | nop reg command => exact observe_nop simulator pc fallThrough reg command
  | move rd rs =>
      exact Observation.commit_silent _ (Observation.overwrite_single _ _ _) rfl rfl
  | moveImmediate rd imm =>
      exact Observation.commit_silent _ (Observation.overwrite_single _ _ _) rfl rfl
  | alu op rd ra rb =>
      apply observe_compute simulator fallThrough op rd ra (.register (simulator.machine.read rb))
      have wideEq := BitVec.toInt_signExtend_of_le (x := simulator.machine.read rb) (v := 32)
        (by decide)
      rw [Operand.wide, wideEq]
      exact op.fitsSigned32_of_lt _ (BitVec.le_toInt _) BitVec.toInt_lt _
  | aluImmediate op rd ra imm =>
      exact observe_compute simulator fallThrough op rd ra (.immediate imm) fits
  | load width mode rd base offset =>
      exact observe_load simulator pc fallThrough width mode rd base offset
  | store width mode base offset rs =>
      exact observe_store simulator pc fallThrough width mode base offset rs
  | branchAndLink offset link =>
      exact Observation.commit_silent _ (Observation.overwrite_single _ _ _) rfl
        (Word.displace_eq_reach pc offset)
  | jumpAndLink target link =>
      exact Observation.commit_silent _ (Observation.overwrite_single _ _ _) rfl rfl
  | branch condition offset ra rb =>
      exact observe_branch simulator pc fallThrough condition offset ra rb
  | branchAlways offset =>
      exact Observation.commit_silent _ rfl rfl (Word.displace_eq_reach pc offset)
  | jump target => exact Observation.commit_silent _ rfl rfl rfl
  | jumpConditional condition target ra rb =>
      exact absurd ⟨condition, target, ra, rb, rfl⟩ meaningful

theorem execute_eq_unimplemented_iff (operation : Operation) (machine : Machine) :
    (operation.execute machine pc fallThrough).1 = .unimplemented ↔
      operation.IsConditionalJump := by
  cases operation with
  | nop reg command =>
      unfold execute
      match command with
      | 0 | 1 | 2 | 3 | 4 | n + 5 => simp [Request.ofCommand, IsConditionalJump]
  | branch condition offset ra rb =>
      rw [execute]
      split <;> simp [IsConditionalJump]
  | jumpConditional condition target ra rb => simp [execute, IsConditionalJump]
  | _ => simp [execute, IsConditionalJump]

end Operation

namespace Instruction

theorem execute_eq_ok (instruction : Instruction) (policy : UnknownOpcodePolicy)
    (machine : Machine) (pc fallThrough : Word)
    (meaningful : ¬ instruction.operation.IsConditionalJump) :
    instruction.execute policy machine pc fallThrough =
      .ok (instruction.operation.execute machine pc fallThrough) := by
  rw [← Operation.execute_eq_unimplemented_iff pc fallThrough _ machine] at meaningful
  unfold execute
  split
  · next executed =>
      rw [executed] at meaningful
      exact absurd rfl meaningful
  · rfl

/-- What decodes to an instruction has an immediate so small that its sums fit. -/
theorem sumFits_of_decode {bytes : List Byte} {address : Nat} {instruction : Instruction}
    (decoded : decode bytes address = .ok instruction) (before : Observation) :
    instruction.operation.SumFits before := by
  cases operationEq : instruction.operation with
  | aluImmediate op rd ra imm =>
      have immLt := (begins_of_decode decoded).immediate_lt operationEq
      have immEq : (BitVec.ofNat 32 imm).toInt = imm := Operand.summand_immediate (by omega)
      rw [Operation.SumFits, immEq]
      exact op.fitsSigned32_of_lt _ (by omega) (by omega) _
  | _ => trivial

end Instruction

namespace Simulator

/-- Executing an instruction and committing its record is interpreting it: the
simulator left behind is the only one that shows what the meaning gives, and
decoded instructions never exceed the sums that the meaning is about. -/
theorem commit_refines_interpret :
    (∀ (simulator : Simulator) (instruction : Instruction) (policy : UnknownOpcodePolicy)
        (pc fallThrough : Word),
      ¬ instruction.operation.IsConditionalJump →
      instruction.operation.SumFits simulator.observe →
      ∃ outcome effects,
        instruction.execute policy simulator.machine pc fallThrough = .ok (outcome, effects) ∧
        (simulator.commit effects).observe =
          instruction.operation.interpret pc fallThrough simulator.observe ∧
        ∀ other : Simulator, other.config = simulator.config →
          other.observe = instruction.operation.interpret pc fallThrough simulator.observe →
          other = simulator.commit effects) ∧
    ∀ (bytes : List Byte) (address : Nat) (instruction : Instruction) (before : Observation),
      Instruction.decode bytes address = .ok instruction →
      instruction.operation.SumFits before := by
  constructor
  · intro simulator instruction policy pc fallThrough meaningful fits
    have observeEq := instruction.operation.commit_execute simulator pc fallThrough meaningful fits
    rw [← observe_commit] at observeEq
    refine ⟨_, _, instruction.execute_eq_ok policy simulator.machine pc fallThrough meaningful,
      observeEq, ?_⟩
    intro other configEq otherEq
    exact ext_observe configEq (otherEq.trans observeEq.symm)
  · intro bytes address instruction before decoded
    exact Instruction.sumFits_of_decode decoded before

/-- A load through the pointer that it overwrites, and the decoded subtraction
of the largest immediate. -/
theorem commit_load_through_destination :
    let simulator := create {}
    let load : Operation := .load .word .preDecrement 1 1 0
    let subtract : Operation := .aluImmediate .sub 1 2 1023
    (¬ load.IsConditionalJump ∧ load.SumFits simulator.observe ∧
      ∃ outcome effects,
        (Instruction.mk ⟨.short, .load .word .preDecrement, rfl⟩ load).execute .trap
          simulator.machine 6 7 = .ok (outcome, effects) ∧
        (simulator.commit effects).observe = load.interpret 6 7 simulator.observe ∧
        ∀ other : Simulator, other.config = simulator.config →
          other.observe = load.interpret 6 7 simulator.observe →
          other = simulator.commit effects) ∧
    Instruction.decode [0x57, 0x96, 0x07, 0x1E] 0 =
      .ok ⟨⟨.long, .aluImmediate .sub, rfl⟩, subtract⟩ ∧
    subtract.SumFits simulator.observe := by
  intro simulator load subtract
  have meaningful : ¬ load.IsConditionalJump := by simp [load, Operation.IsConditionalJump]
  have fits : load.SumFits simulator.observe := trivial
  have decoded : Instruction.decode [0x57, 0x96, 0x07, 0x1E] 0 =
      .ok ⟨⟨.long, .aluImmediate .sub, rfl⟩, subtract⟩ := by decide +kernel
  refine ⟨⟨meaningful, fits, ?_⟩, decoded, ?_⟩
  · exact commit_refines_interpret.1 simulator
      ⟨⟨.short, .load .word .preDecrement, rfl⟩, load⟩ .trap 6 7 meaningful fits
  · exact commit_refines_interpret.2 _ _ _ simulator.observe decoded

end Simulator

end Aap
