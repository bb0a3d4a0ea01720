import Aap.Proofs.Refinement

/-!
# How a step can end

A step fails in one of three ways: the bytes at the program counter do not
decode, or they decode to a conditional jump and the policy makes that a trap or
an abort.  Which of them happens depends on the fetched instruction and the
policy only, and a failing step leaves the simulator as it is.
-/

namespace Aap

namespace Simulator

variable {simulator : Simulator}

/-- The instruction at the program counter, or why there is none. -/
def fetched (simulator : Simulator) : Except DecodeFailure Instruction :=
  simulator.machine.code.fetch simulator.pc

/-- The event with which a decoded instruction begins. -/
def startOf (simulator : Simulator) (instruction : Instruction) : Event :=
  .start simulator.pc instruction.opcode instruction.size

theorem step_of_failure {failure : DecodeFailure} (fetchedEq : simulator.fetched = .error failure) :
    simulator.step =
      { simulator
        events := [.failed simulator.pc failure.error failure.skip]
        result := .undecodable failure } := by
  rw [fetched] at fetchedEq
  simp only [step, fetchedEq]

section Decoded

variable {instruction : Instruction}

theorem step_of_meaningful (fetchedEq : simulator.fetched = .ok instruction)
    (meaningful : ¬ instruction.operation.IsConditionalJump) :
    ∃ outcome effects, outcome ≠ .unimplemented ∧
      instruction.operation.execute simulator.machine simulator.pc
        (simulator.pc + BitVec.ofNat 16 instruction.words) = (outcome, effects) ∧
      simulator.step =
        { simulator := simulator.commit effects
          events :=
            [simulator.startOf instruction,
              .retired simulator.pc (simulator.commit effects).pc outcome.status]
          result := .executed outcome.status } := by
  have executeEq := instruction.execute_eq_ok simulator.config.unknownOpcode simulator.machine
    simulator.pc (simulator.pc + BitVec.ofNat 16 instruction.words) meaningful
  rw [← Operation.execute_eq_unimplemented_iff simulator.pc
    (simulator.pc + BitVec.ofNat 16 instruction.words) _ simulator.machine] at meaningful
  rw [fetched] at fetchedEq
  rcases executedEq : instruction.operation.execute simulator.machine simulator.pc
    (simulator.pc + BitVec.ofNat 16 instruction.words) with ⟨outcome, effects⟩
  rw [executedEq] at executeEq meaningful
  refine ⟨outcome, effects, meaningful, rfl, ?_⟩
  have concludeEq : simulator.conclude outcome effects = simulator.commit effects := by
    cases outcome with
    | unimplemented => exact absurd rfl meaningful
    | _ => rfl
  simp only [step, fetchedEq, executeEq, concludeEq, startOf]

theorem step_of_conditionalJump (fetchedEq : simulator.fetched = .ok instruction)
    (conditional : instruction.operation.IsConditionalJump) :
    simulator.step =
      match simulator.config.unknownOpcode with
      | .trap =>
          { simulator
            events :=
              [simulator.startOf instruction, .retired simulator.pc simulator.pc .trap]
            result := .executed .trap }
      | .abort =>
          { simulator
            events := [simulator.startOf instruction]
            result := .aborted ⟨instruction.opcode, simulator.pc⟩ } := by
  obtain ⟨condition, target, ra, rb, operationEq⟩ := conditional
  rw [fetched] at fetchedEq
  cases policyEq : simulator.config.unknownOpcode with
  | trap =>
      simp [step, fetchedEq, policyEq, Instruction.execute, operationEq, Operation.execute,
        conclude, startOf, Outcome.status]
  | abort =>
      simp [step, fetchedEq, policyEq, Instruction.execute, operationEq, Operation.execute,
        startOf]

/-- A conditional jump has no meaning, so it changes nothing under either policy. -/
theorem simulator_step_of_conditionalJump (fetchedEq : simulator.fetched = .ok instruction)
    (conditional : instruction.operation.IsConditionalJump) :
    simulator.step.simulator = simulator := by
  rw [step_of_conditionalJump fetchedEq conditional]
  cases simulator.config.unknownOpcode <;> rfl

/-- What a step makes of a decoded instruction is the meaning of its operation. -/
theorem observe_step (fetchedEq : simulator.fetched = .ok instruction) :
    simulator.step.simulator.observe =
      instruction.operation.interpret simulator.pc
        (simulator.pc + BitVec.ofNat 16 instruction.words) simulator.observe := by
  by_cases conditional : instruction.operation.IsConditionalJump
  · rw [simulator_step_of_conditionalJump fetchedEq conditional]
    obtain ⟨condition, target, ra, rb, operationEq⟩ := conditional
    rw [operationEq]
    rfl
  · obtain ⟨outcome, effects, _, executeEq, stepEq⟩ := step_of_meaningful fetchedEq conditional
    have fits := Instruction.sumFits_of_decode fetchedEq simulator.observe
    have meaning := instruction.operation.commit_execute simulator simulator.pc
      (simulator.pc + BitVec.ofNat 16 instruction.words) conditional fits
    rw [executeEq, ← observe_commit] at meaning
    rw [stepEq]
    exact meaning

end Decoded

/-- What the step at the program counter commits, if it commits anything. -/
def committed? (simulator : Simulator) : Option Effects :=
  match simulator.fetched with
  | .error _ => none
  | .ok instruction =>
      match instruction.operation.execute simulator.machine simulator.pc
          (simulator.pc + BitVec.ofNat 16 instruction.words) with
      | (.unimplemented, _) => none
      | (_, effects) => some effects

theorem committed?_of_failure {failure : DecodeFailure}
    (fetchedEq : simulator.fetched = .error failure) : simulator.committed? = none := by
  simp only [committed?, fetchedEq]

theorem committed?_of_conditionalJump {instruction : Instruction}
    (fetchedEq : simulator.fetched = .ok instruction)
    (conditional : instruction.operation.IsConditionalJump) : simulator.committed? = none := by
  obtain ⟨condition, target, ra, rb, operationEq⟩ := conditional
  simp only [committed?, fetchedEq, operationEq, Operation.execute]

theorem committed?_of_meaningful {instruction : Instruction} {outcome : Outcome}
    {effects : Effects} (fetchedEq : simulator.fetched = .ok instruction)
    (implemented : outcome ≠ .unimplemented)
    (executeEq : instruction.operation.execute simulator.machine simulator.pc
      (simulator.pc + BitVec.ofNat 16 instruction.words) = (outcome, effects)) :
    simulator.committed? = some effects := by
  simp only [committed?, fetchedEq, executeEq]

theorem simulator_step (simulator : Simulator) :
    simulator.step.simulator = (simulator.committed?.map simulator.commit).getD simulator := by
  cases fetchedEq : simulator.fetched with
  | error failure =>
      rw [step_of_failure fetchedEq, committed?_of_failure fetchedEq]
      rfl
  | ok instruction =>
      by_cases conditional : instruction.operation.IsConditionalJump
      · rw [simulator_step_of_conditionalJump fetchedEq conditional,
          committed?_of_conditionalJump fetchedEq conditional]
        rfl
      · obtain ⟨outcome, effects, implemented, executeEq, stepEq⟩ :=
          step_of_meaningful fetchedEq conditional
        rw [stepEq, committed?_of_meaningful fetchedEq implemented executeEq]
        rfl

theorem simulator_step_cases (simulator : Simulator) :
    simulator.step.simulator = simulator ∨
      ∃ effects, simulator.step.simulator = simulator.commit effects := by
  rw [simulator_step]
  cases simulator.committed? with
  | none => exact .inl rfl
  | some effects => exact .inr ⟨effects, rfl⟩

/-- The next steps of two simulators show the same and commit the same. -/
structure StepsLike (left right : Simulator) : Prop where
  events : right.step.events = left.step.events
  result : right.step.result = left.step.result
  committed : right.committed? = left.committed?

/-- A step looks at nothing but the program counter, the policy, the fetched
instruction and what its operation reads. -/
theorem stepsLike_of_fetched {left right : Simulator} (pcEq : right.pc = left.pc)
    (policyEq : right.config.unknownOpcode = left.config.unknownOpcode)
    (fetchedSame : right.fetched = left.fetched)
    (executeSame : ∀ (operation : Operation) (fallThrough : Word),
      operation.execute right.machine left.pc fallThrough =
        operation.execute left.machine left.pc fallThrough) : StepsLike left right := by
  cases fetchedEq : left.fetched with
  | error failure =>
      have otherEq := fetchedSame.trans fetchedEq
      refine ⟨?_, ?_, ?_⟩
      · rw [step_of_failure fetchedEq, step_of_failure otherEq, pcEq]
      · rw [step_of_failure fetchedEq, step_of_failure otherEq]
      · rw [committed?_of_failure fetchedEq, committed?_of_failure otherEq]
  | ok instruction =>
      have otherEq := fetchedSame.trans fetchedEq
      by_cases conditional : instruction.operation.IsConditionalJump
      · have stepEq := step_of_conditionalJump fetchedEq conditional
        have otherStepEq := step_of_conditionalJump otherEq conditional
        rw [policyEq, startOf, pcEq] at otherStepEq
        rw [startOf] at stepEq
        refine ⟨?_, ?_, ?_⟩
        · rw [stepEq, otherStepEq]
          cases left.config.unknownOpcode <;> rfl
        · rw [stepEq, otherStepEq]
          cases left.config.unknownOpcode <;> rfl
        · rw [committed?_of_conditionalJump fetchedEq conditional,
            committed?_of_conditionalJump otherEq conditional]
      · obtain ⟨outcome, effects, implemented, executeEq, stepEq⟩ :=
          step_of_meaningful fetchedEq conditional
        obtain ⟨_, _, _, otherExecuteEq, otherStepEq⟩ := step_of_meaningful otherEq conditional
        have otherCommitted :=
          committed?_of_meaningful otherEq (by assumption) otherExecuteEq
        rw [pcEq, executeSame] at otherExecuteEq
        cases executeEq.symm.trans otherExecuteEq
        refine ⟨?_, ?_, ?_⟩
        · rw [stepEq, otherStepEq, startOf, startOf, pcEq]
          rfl
        · rw [stepEq, otherStepEq]
        · rw [committed?_of_meaningful fetchedEq implemented executeEq, otherCommitted]

/-- A change of simulators that steps and skips neither look at nor undo. -/
structure Unnoticed (map : Simulator → Simulator) : Prop where
  machine : ∀ simulator, (map simulator).machine = simulator.machine
  unknownOpcode : ∀ simulator,
    (map simulator).config.unknownOpcode = simulator.config.unknownOpcode
  invalidInstruction : ∀ simulator,
    (map simulator).config.invalidInstruction = simulator.config.invalidInstruction
  commit : ∀ simulator effects, (map simulator).commit effects = map (simulator.commit effects)
  setPc : ∀ simulator pc, (map simulator).setPc pc = map (simulator.setPc pc)

theorem Unnoticed.stepsLike {map : Simulator → Simulator} (unnoticed : Unnoticed map)
    (simulator : Simulator) : StepsLike simulator (map simulator) := by
  have machineEq := unnoticed.machine simulator
  have pcEq : (map simulator).pc = simulator.pc := by rw [pc, machineEq, pc]
  apply stepsLike_of_fetched pcEq (unnoticed.unknownOpcode simulator)
  · rw [fetched, machineEq, pcEq, fetched]
  · intro operation fallThrough
    rw [machineEq]

theorem Unnoticed.step {map : Simulator → Simulator} (unnoticed : Unnoticed map)
    (simulator : Simulator) :
    (map simulator).step = { simulator.step with simulator := map simulator.step.simulator } := by
  have like := unnoticed.stepsLike simulator
  have simulatorEq : (map simulator).step.simulator = map simulator.step.simulator := by
    rw [simulator_step, simulator_step, like.committed]
    cases simulator.committed? with
    | none => rfl
    | some effects => exact unnoticed.commit simulator effects
  calc
    (map simulator).step =
        ⟨(map simulator).step.simulator, (map simulator).step.events,
          (map simulator).step.result⟩ := rfl
    _ = { simulator.step with simulator := map simulator.step.simulator } := by
      rw [simulatorEq, like.events, like.result]

/-- Whether the bytes at the program counter decode to a conditional jump. -/
def AtConditionalJump (simulator : Simulator) : Prop :=
  ∃ instruction, simulator.fetched = .ok instruction ∧ instruction.operation.IsConditionalJump

theorem atConditionalJump_iff {instruction : Instruction}
    (fetchedEq : simulator.fetched = .ok instruction) :
    simulator.AtConditionalJump ↔ instruction.operation.IsConditionalJump := by
  constructor
  · rintro ⟨found, foundEq, conditional⟩
    cases fetchedEq.symm.trans foundEq
    exact conditional
  · intro conditional
    exact ⟨instruction, fetchedEq, conditional⟩

theorem not_atConditionalJump_of_failure {failure : DecodeFailure}
    (fetchedEq : simulator.fetched = .error failure) : ¬ simulator.AtConditionalJump := by
  rintro ⟨found, foundEq, _⟩
  cases fetchedEq.symm.trans foundEq

/-- An instruction with a meaning reports neither of the failing statuses. -/
theorem status_step_of_meaningful {instruction : Instruction}
    (fetchedEq : simulator.fetched = .ok instruction)
    (meaningful : ¬ instruction.operation.IsConditionalJump) :
    ∃ status, simulator.step.result.status = .ok status ∧
      status ≠ .trap ∧ status ≠ .invalidInstruction := by
  obtain ⟨outcome, effects, implemented, _, stepEq⟩ := step_of_meaningful fetchedEq meaningful
  refine ⟨outcome.status, ?_, ?_, ?_⟩
  · rw [stepEq]
    rfl
  · cases outcome <;> simp [Outcome.status] at implemented ⊢
  · cases outcome <;> simp [Outcome.status]

/-- The four ways a step can end, by the fetched instruction and the policy. -/
theorem status_step_cases (simulator : Simulator) :
    (simulator.step.result.status = .ok .invalidInstruction ∧
      (∃ failure, simulator.fetched = .error failure) ∧ ¬ simulator.AtConditionalJump) ∨
    (simulator.step.result.status = .ok .trap ∧
      (¬ ∃ failure, simulator.fetched = .error failure) ∧
      simulator.config.unknownOpcode = .trap ∧ simulator.AtConditionalJump) ∨
    (∃ error, simulator.step.result.status = .error error ∧
      (¬ ∃ failure, simulator.fetched = .error failure) ∧
      simulator.config.unknownOpcode = .abort ∧ simulator.AtConditionalJump) ∨
    ∃ status, simulator.step.result.status = .ok status ∧
      (status ≠ .trap ∧ status ≠ .invalidInstruction) ∧
      (¬ ∃ failure, simulator.fetched = .error failure) ∧ ¬ simulator.AtConditionalJump := by
  cases fetchedEq : simulator.fetched with
  | error failure =>
      refine .inl ⟨?_, ⟨failure, rfl⟩, not_atConditionalJump_of_failure fetchedEq⟩
      rw [step_of_failure fetchedEq]
      rfl
  | ok instruction =>
      have noFailure : ¬ ∃ failure : DecodeFailure, Except.ok instruction = .error failure := by
        rintro ⟨failure, failureEq⟩
        cases failureEq
      rw [atConditionalJump_iff fetchedEq]
      by_cases conditional : instruction.operation.IsConditionalJump
      · rw [step_of_conditionalJump fetchedEq conditional]
        cases policyEq : simulator.config.unknownOpcode with
        | trap => exact .inr (.inl ⟨rfl, noFailure, rfl, conditional⟩)
        | abort => exact .inr (.inr (.inl ⟨_, rfl, noFailure, rfl, conditional⟩))
      · obtain ⟨status, statusEq, statusNe⟩ := status_step_of_meaningful fetchedEq conditional
        exact .inr (.inr (.inr ⟨status, statusEq, statusNe, noFailure, conditional⟩))

theorem status_step_eq_invalidInstruction_iff :
    simulator.step.result.status = .ok .invalidInstruction ↔
      ∃ failure, simulator.fetched = .error failure := by
  rcases simulator.status_step_cases with ⟨statusEq, failed, _⟩ | ⟨statusEq, noFailure, _⟩ |
    ⟨_, statusEq, noFailure, _⟩ | ⟨_, statusEq, statusNe, noFailure, _⟩
  · exact iff_of_true statusEq failed
  · exact iff_of_false (by simp [statusEq]) noFailure
  · exact iff_of_false (by simp [statusEq]) noFailure
  · exact iff_of_false (by simp [statusEq, statusNe]) noFailure

theorem status_step_eq_trap_iff :
    simulator.step.result.status = .ok .trap ↔
      simulator.config.unknownOpcode = .trap ∧ simulator.AtConditionalJump := by
  rcases simulator.status_step_cases with ⟨statusEq, _, notJump⟩ | ⟨statusEq, _, trapping⟩ |
    ⟨_, statusEq, _, policyEq, _⟩ | ⟨_, statusEq, statusNe, _, notJump⟩
  · exact iff_of_false (by simp [statusEq]) (by simp [notJump])
  · exact iff_of_true statusEq trapping
  · exact iff_of_false (by simp [statusEq]) (by simp [policyEq])
  · exact iff_of_false (by simp [statusEq, statusNe]) (by simp [notJump])

theorem status_step_eq_error_iff :
    (∃ error, simulator.step.result.status = .error error) ↔
      simulator.config.unknownOpcode = .abort ∧ simulator.AtConditionalJump := by
  rcases simulator.status_step_cases with ⟨statusEq, _, notJump⟩ | ⟨statusEq, _, policyEq, _⟩ |
    ⟨error, statusEq, _, aborting⟩ | ⟨_, statusEq, _, _, notJump⟩
  · exact iff_of_false (by simp [statusEq]) (by simp [notJump])
  · exact iff_of_false (by simp [statusEq]) (by simp [policyEq])
  · exact iff_of_true ⟨error, statusEq⟩ aborting
  · exact iff_of_false (by simp [statusEq]) (by simp [notJump])

/-- Failing steps are told apart by the fetched instruction and the policy, and
all of them leave machine and console alone. -/
theorem step_fails_atomically (simulator : Simulator) :
    (simulator.step.result.status = .ok .invalidInstruction ↔
      ∃ failure, simulator.fetched = .error failure) ∧
    (simulator.step.result.status = .ok .trap ↔
      simulator.config.unknownOpcode = .trap ∧ simulator.AtConditionalJump) ∧
    ((∃ error, simulator.step.result.status = .error error) ↔
      simulator.config.unknownOpcode = .abort ∧ simulator.AtConditionalJump) ∧
    (∀ failure, simulator.fetched = .error failure →
      simulator.step.simulator = simulator ∧
      simulator.step.events = [.failed simulator.pc failure.error failure.skip]) ∧
    ∀ instruction, simulator.fetched = .ok instruction →
      instruction.operation.IsConditionalJump →
      simulator.step.simulator = simulator ∧
      match simulator.config.unknownOpcode with
      | .trap =>
          simulator.step.events =
            [.start simulator.pc instruction.opcode instruction.size,
              .retired simulator.pc simulator.pc .trap]
      | .abort =>
          simulator.step.events = [.start simulator.pc instruction.opcode instruction.size] ∧
          simulator.step.result.status = .error ⟨instruction.opcode, simulator.pc⟩ := by
  refine ⟨status_step_eq_invalidInstruction_iff, status_step_eq_trap_iff,
    status_step_eq_error_iff, ?_, ?_⟩
  · intro failure fetchedEq
    rw [step_of_failure fetchedEq]
    exact ⟨rfl, rfl⟩
  · intro instruction fetchedEq conditional
    rw [step_of_conditionalJump fetchedEq conditional]
    cases simulator.config.unknownOpcode with
    | trap => exact ⟨rfl, rfl⟩
    | abort => exact ⟨rfl, rfl, rfl⟩

theorem fetched_writeCode (config : Config) (low high : Byte) :
    (((create config).writeCode 0 low).writeCode 1 high).fetched =
      Instruction.decode [low, high, 0, 0] 0 := by
  have zeroLt : (0 : Word).toNat < 65535 := by decide
  rw [fetched]
  change Memory.fetch _ 0 = _
  rw [Memory.fetch_eq_decode _ zeroLt]
  simp [writeCode, create, Machine.zero, Memory.read_write, Space.size]

/-- A word of the class without instructions, and a conditional jump where
those are fatal. -/
theorem step_fails_atomically_at_reserved_and_jump :
    let reserved := ((create {}).writeCode 0 0x00).writeCode 1 0x60
    let jump := ((create { unknownOpcode := .abort }).writeCode 0 0x00).writeCode 1 0x54
    let opcode : Opcode := ⟨.short, .jumpConditional .equal, rfl⟩
    (reserved.step.simulator = reserved ∧
      reserved.step.events = [.failed 0 .noMatchingEncoding 2]) ∧
    jump.step.simulator = jump ∧
    jump.step.events = [.start 0 opcode 2] ∧
    jump.step.result.status = .error ⟨opcode, 0⟩ := by
  intro reserved jump opcode
  have reservedEq : reserved.fetched = .error ⟨.noMatchingEncoding, 2, 0⟩ := by
    rw [fetched_writeCode]
    decide +kernel
  have jumpEq : jump.fetched = .ok ⟨opcode, .jumpConditional .equal 0 0 0⟩ := by
    rw [fetched_writeCode]
    decide +kernel
  refine ⟨(step_fails_atomically reserved).2.2.2.1 _ reservedEq, ?_⟩
  exact (step_fails_atomically jump).2.2.2.2 _ jumpEq ⟨.equal, 0, 0, 0, rfl⟩

end Simulator

end Aap
