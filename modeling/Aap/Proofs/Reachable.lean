import Aap.Proofs.Bounded
import Aap.Proofs.Failure

/-!
# Fixed resources suffice

Steps and runs are taken once more by the machine of fixed resources, which
faults where a slot, an index or a sum does not fit.  What the decoder produces
never brings it there, so that it takes the same steps as the simulator; under
the aborting policy it gives up at conditional jumps only.  Any sequence of
accesses from outside leads to a simulator of which this is true.
-/

namespace Aap

open Bounded

namespace Simulator

/-- The simulator after the changes of a record. -/
def commitWithin (simulator : Simulator) (record : Record) : Except Fault Simulator := do
  let written ← writeSlots
    (fun processor (register, value) => processor.writeAt register.val value)
    simulator.machine.processor record.registerSlots
  let data ← writeSlots (fun data (address, byte) => data.writeAt address.toNat byte)
    simulator.machine.data record.memorySlots
  let console := match record.output with
    | some (stream, byte) => simulator.console.put stream byte
    | none => simulator.console
  let processor := { written with
    pc := record.nextPc
    overflow := record.overflow.getD written.overflow
    exitCode := record.exitCode.getD written.exitCode }
  return { simulator with
    machine := { simulator.machine with processor, data }
    console }

/-- The step at the program counter, taken within the fixed resources. -/
def stepWithin (simulator : Simulator) : Except Fault Step := do
  let pc := simulator.pc
  match simulator.machine.code.fetch pc with
  | .error failure =>
      return { simulator
               events := [.failed pc failure.error failure.skip]
               result := .undecodable failure }
  | .ok instruction =>
      let start := Event.start pc instruction.opcode instruction.size
      let fallThrough := pc + BitVec.ofNat 16 instruction.words
      let (outcome, record) ←
        instruction.operation.executeWithin simulator.machine pc fallThrough
      match outcome, simulator.config.unknownOpcode with
      | .unimplemented, .abort => throw (.unsupported ⟨instruction.opcode, pc⟩)
      | .unimplemented, .trap =>
          return { simulator, events := [start, .retired pc pc .trap], result := .executed .trap }
      | _, _ =>
          let next ← simulator.commitWithin record
          return { simulator := next
                   events := [start, .retired pc next.pc outcome.status]
                   result := .executed outcome.status }

end Simulator

namespace Run

/-- The run after one more step within the fixed resources. -/
def advanceWithin (run : Run) : Except Fault Run := do
  let step ← run.simulator.stepWithin
  let (next, stop) := step.proceed
  return ⟨next, run.steps + 1, run.events ++ step.events, stop⟩

/-- The run after up to `budget` more steps within the fixed resources. -/
def continueWithin : Nat → Run → Except Fault Run
  | 0, run => .ok run
  | budget + 1, run =>
      if run.stop.isSome then .ok run
      else do
        let next ← run.advanceWithin
        continueWithin budget next

end Run

namespace Simulator

theorem commitWithin_ofEffects (simulator : Simulator) (effects : Effects) :
    simulator.commitWithin (.ofEffects effects) = .ok (simulator.commit effects) := by
  have processorEq (processor : Processor) (entry : Reg × Word) :
      processor.writeAt entry.1.val entry.2 = .ok (processor.write entry.1 entry.2) :=
    processor.writeAt_val entry.1 entry.2
  have dataEq (data : Memory .data) (entry : Word × Byte) :
      data.writeAt entry.1.toNat entry.2 = .ok (data.write entry.1.toNat entry.2) :=
    data.writeAt_toNat entry.1 entry.2
  simp only [commitWithin, Record.ofEffects, writeSlots_eq_ok processorEq,
    writeSlots_eq_ok dataEq, ok_bind]
  rfl

/-- The fixed resources suffice for every step that is not given up. -/
theorem stepWithin_eq (simulator : Simulator) :
    simulator.stepWithin =
      match simulator.step.result with
      | .aborted error => .error (.unsupported error)
      | _ => .ok simulator.step := by
  cases fetchedEq : simulator.fetched with
  | error failure =>
      rw [step_of_failure fetchedEq]
      rw [fetched] at fetchedEq
      simp only [stepWithin, fetchedEq, pure_eq_ok]
  | ok instruction =>
      -- Of all operands only the immediate owes its bound to the decoder.
      have small := Instruction.immediateLt_of_decode fetchedEq
      have executeEq := instruction.operation.executeWithin_eq_ok simulator.machine simulator.pc
        (simulator.pc + BitVec.ofNat 16 instruction.words) small
      have fetchEq : simulator.machine.code.fetch simulator.pc = .ok instruction := fetchedEq
      by_cases conditional : instruction.operation.IsConditionalJump
      · rw [step_of_conditionalJump fetchedEq conditional]
        obtain ⟨condition, target, ra, rb, operationEq⟩ := conditional
        rw [operationEq] at executeEq
        cases policyEq : simulator.config.unknownOpcode <;>
          simp only [stepWithin, fetchEq, operationEq, executeEq, ok_bind, policyEq,
            Operation.execute, startOf] <;> rfl
      · obtain ⟨outcome, effects, implemented, executedEq, stepEq⟩ :=
          step_of_meaningful fetchedEq conditional
        rw [executedEq] at executeEq
        rw [stepEq]
        simp only [stepWithin, fetchEq, executeEq, ok_bind, commitWithin_ofEffects, startOf]
        cases outcome with
        | unimplemented => exact absurd rfl implemented
        | _ => rfl

theorem stepWithin_of_trap {simulator : Simulator}
    (policyEq : simulator.config.unknownOpcode = .trap) :
    simulator.stepWithin = .ok simulator.step := by
  have neverAborts : ¬ ∃ error, simulator.step.result.status = .error error := by
    rw [status_step_eq_error_iff, policyEq]
    simp
  rw [stepWithin_eq]
  cases resultEq : simulator.step.result with
  | aborted error => exact absurd ⟨error, by rw [resultEq]; rfl⟩ neverAborts
  | _ => rfl

/-- A step is given up at a conditional jump, and nowhere else. -/
theorem stepWithin_cases (simulator : Simulator) :
    simulator.stepWithin = .ok simulator.step ∨
      ∃ instruction, simulator.fetched = .ok instruction ∧
        instruction.operation.IsConditionalJump ∧
        simulator.stepWithin = .error (.unsupported ⟨instruction.opcode, simulator.pc⟩) := by
  cases policyEq : simulator.config.unknownOpcode with
  | trap => exact .inl (stepWithin_of_trap policyEq)
  | abort =>
      rw [stepWithin_eq]
      cases resultEq : simulator.step.result with
      | executed status => exact .inl rfl
      | undecodable failure => exact .inl rfl
      | aborted error =>
          have aborts : ∃ error, simulator.step.result.status = .error error :=
            ⟨error, by rw [resultEq]; rfl⟩
          obtain ⟨_, instruction, fetchedEq, conditional⟩ := status_step_eq_error_iff.mp aborts
          have stepEq := step_of_conditionalJump fetchedEq conditional
          rw [policyEq] at stepEq
          rw [stepEq] at resultEq
          cases resultEq
          exact .inr ⟨instruction, fetchedEq, conditional, rfl⟩

end Simulator

namespace Run

theorem advanceWithin_eq_ok {run : Run} (policyEq : run.simulator.config.unknownOpcode = .trap) :
    run.advanceWithin = .ok run.advance := by
  rw [advanceWithin, Simulator.stepWithin_of_trap policyEq]
  rfl

theorem continueWithin_eq_ok {run : Run} (budget : Nat)
    (policyEq : run.simulator.config.unknownOpcode = .trap) :
    run.continueWithin budget = .ok (run.continueFor budget) := by
  induction budget generalizing run with
  | zero => rfl
  | succ budget induction =>
      rw [continueWithin, continueFor]
      cases run.stop with
      | some stop => rfl
      | none =>
          rw [if_neg (by simp), if_neg (by simp), advanceWithin_eq_ok policyEq, ok_bind]
          apply induction
          rw [config_advance, policyEq]

end Run

namespace Simulator

/-- The simulators that accesses from outside lead to. -/
inductive Reachable (config : Config) : Simulator → Prop where
  | create : Reachable config (create config)
  | loadCode {simulator loaded : Simulator} (contents : List Byte) (address : Nat)
      (reachable : Reachable config simulator)
      (loadedEq : simulator.loadCode contents address = .ok loaded) : Reachable config loaded
  | loadData {simulator loaded : Simulator} (contents : List Byte) (address : Nat)
      (reachable : Reachable config simulator)
      (loadedEq : simulator.loadData contents address = .ok loaded) : Reachable config loaded
  | writeRegister {simulator written : Simulator} (index : Nat) (value : Word)
      (reachable : Reachable config simulator)
      (writtenEq : simulator.writeRegister index value = .ok written) : Reachable config written
  | setPc {simulator : Simulator} (pc : Word) (reachable : Reachable config simulator) :
      Reachable config (simulator.setPc pc)
  | setOverflow {simulator : Simulator} (overflow : Bool)
      (reachable : Reachable config simulator) : Reachable config (simulator.setOverflow overflow)
  | setExitCode {simulator : Simulator} (exitCode : Word)
      (reachable : Reachable config simulator) : Reachable config (simulator.setExitCode exitCode)
  | writeCode {simulator : Simulator} (address : Nat) (byte : Byte)
      (reachable : Reachable config simulator) :
      Reachable config (simulator.writeCode address byte)
  | writeData {simulator : Simulator} (address : Word) (byte : Byte)
      (reachable : Reachable config simulator) :
      Reachable config (simulator.writeData address byte)
  | step {simulator : Simulator} (reachable : Reachable config simulator) :
      Reachable config simulator.step.simulator
  | run {simulator : Simulator} {run : Run} (fuel : Nat) (reachable : Reachable config simulator)
      (ran : simulator.run? fuel = some run) : Reachable config run.simulator
  | reset {simulator : Simulator} (reachable : Reachable config simulator) :
      Reachable config simulator.reset

/-- What a computation returns after its first part is made from a value of that
part. -/
theorem exists_of_bind_pure {Error Value Result : Type} {first : Except Error Value}
    {next : Value → Result} {result : Result}
    (returned : (first >>= fun value => pure (next value)) = .ok result) :
    ∃ value, next value = result := by
  cases first with
  | error error => cases returned
  | ok value => exact ⟨value, Except.ok.inj returned⟩

theorem Reachable.config_eq {config : Config} {simulator : Simulator}
    (reachable : Reachable config simulator) : simulator.config = config := by
  induction reachable with
  | create => rfl
  | loadCode contents address reachable loadedEq induction =>
      obtain ⟨code, rfl⟩ := exists_of_bind_pure loadedEq
      exact induction
  | loadData contents address reachable loadedEq induction =>
      obtain ⟨data, rfl⟩ := exists_of_bind_pure loadedEq
      exact induction
  | writeRegister index value reachable writtenEq induction =>
      obtain ⟨register, rfl⟩ := exists_of_bind_pure writtenEq
      exact induction
  | step reachable induction => rw [config_step, induction]
  | run fuel reachable ran induction => rw [config_of_run? ran, induction]
  | _ => assumption

/-- What holds of a simulator whatever was done to it from outside. -/
structure Safe (config : Config) (simulator : Simulator) : Prop where
  step : config.unknownOpcode = .trap → simulator.stepWithin = .ok simulator.step
  run : config.unknownOpcode = .trap → ∀ fuel budget, config.maxSteps = some budget →
    ∃ run outcome, simulator.run? fuel = some run ∧
      (Run.start simulator).continueWithin budget = .ok run ∧
      run.outcome = .ok outcome ∧ outcome.steps ≤ budget
  abort : config.unknownOpcode = .abort →
    simulator.stepWithin = .ok simulator.step ∨
      ∃ instruction, simulator.fetched = .ok instruction ∧
        instruction.operation.IsConditionalJump ∧
        simulator.stepWithin = .error (.unsupported ⟨instruction.opcode, simulator.pc⟩)
  /-- No field of an instruction names a register that does not exist. -/
  registers : ∀ failure, simulator.fetched = .error failure →
    failure.error = .truncated ∨ failure.error = .noMatchingEncoding
  /-- One of the three slots for registers stays free. -/
  slots : ∀ instruction, simulator.fetched = .ok instruction →
    let effects := (instruction.operation.execute simulator.machine simulator.pc
      (simulator.pc + BitVec.ofNat 16 instruction.words)).2
    effects.registerWrites.length ≤ 2 ∧ effects.memoryWrites.length ≤ 2

/-- No image and no access from outside brings the simulator beyond the fixed
resources. -/
theorem safe_of_reachable (config : Config) (simulator : Simulator)
    (reachable : Reachable config simulator) : Safe config simulator := by
  have configEq := reachable.config_eq
  subst configEq
  refine ⟨stepWithin_of_trap, ?_, fun _ => simulator.stepWithin_cases, ?_, ?_⟩
  · intro policyEq fuel budget maxEq
    obtain ⟨run, outcome, ran, outcomeEq, stepsLe, _⟩ := outcome_of_budget policyEq maxEq fuel
    obtain ⟨configured, rfl, configuredEq, _⟩ := run?_eq_some ran
    rw [configuredEq budget maxEq] at ran outcomeEq
    exact ⟨_, outcome, ran, Run.continueWithin_eq_ok budget policyEq, outcomeEq, stepsLe⟩
  · intro failure fetchedEq
    exact Instruction.error_of_decode fetchedEq
  · intro instruction _
    exact instruction.operation.length_writes_le _ _ _

/-- A conditional jump under either policy. -/
theorem safe_of_reachable_at_jump :
    let trapping := ((create { maxSteps := some 5 }).writeCode 0 0x00).writeCode 1 0x54
    let aborting := ((create { unknownOpcode := .abort }).writeCode 0 0x00).writeCode 1 0x54
    trapping.stepWithin = .ok trapping.step ∧
    (∃ run outcome, trapping.run? 1 = some run ∧
      (Run.start trapping).continueWithin 5 = .ok run ∧
      run.outcome = .ok outcome ∧ outcome.steps ≤ 5) ∧
    Safe { unknownOpcode := .abort } aborting ∧
    aborting.stepWithin = .error (.unsupported ⟨⟨.short, .jumpConditional .equal, rfl⟩, 0⟩) := by
  intro trapping aborting
  have trappingSafe : Safe { maxSteps := some 5 } trapping :=
    safe_of_reachable _ _ ((Reachable.create.writeCode 0 0x00).writeCode 1 0x54)
  have abortingSafe : Safe { unknownOpcode := .abort } aborting :=
    safe_of_reachable _ _ ((Reachable.create.writeCode 0 0x00).writeCode 1 0x54)
  have fetchedEq : aborting.fetched =
      .ok ⟨⟨.short, .jumpConditional .equal, rfl⟩, .jumpConditional .equal 0 0 0⟩ := by
    rw [fetched_writeCode]
    decide +kernel
  refine ⟨trappingSafe.step rfl, trappingSafe.run rfl 1 5 rfl, abortingSafe, ?_⟩
  rw [stepWithin_eq, step_of_conditionalJump fetchedEq ⟨.equal, 0, 0, 0, rfl⟩]
  rfl

end Simulator

end Aap
