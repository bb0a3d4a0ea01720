import Aap.Proofs.Run

/-!
# Runs in lockstep

Two simulators whose steps cannot be told apart go through a run side by side:
every iteration commits the same effects to both or moves both to the same
program counter.  As far as their steps agree, their runs take the same number
of steps, tell the same events and stop alike.
-/

namespace Aap

/-- Execution reads registers, flag and data, but neither code nor exit code. -/
theorem Operation.execute_congr {left right : Machine}
    (registersEq : right.processor.registers = left.processor.registers)
    (overflowEq : right.processor.overflow = left.processor.overflow)
    (dataEq : right.data = left.data) (operation : Operation) (pc fallThrough : Word) :
    operation.execute right pc fallThrough = operation.execute left pc fallThrough := by
  have readEq (register : Reg) : right.read register = left.read register := by
    rw [Machine.read, Processor.read, registersEq]
    rfl
  have loadedEq (width : Width) (address : Word) :
      right.loaded width address = left.loaded width address := by
    simp only [Machine.loaded, Machine.dataByte, dataEq]
  cases operation <;> simp only [execute, readEq, loadedEq, overflowEq]

namespace Simulator

variable {left right : Simulator}

theorem skipped?_of_fetched {simulator : Simulator} {instruction : Instruction}
    (fetchedEq : simulator.fetched = .ok instruction) : simulator.skipped? = none := by
  by_cases conditional : instruction.operation.IsConditionalJump
  · rw [skipped?, step_of_conditionalJump fetchedEq conditional]
    cases simulator.config.unknownOpcode <;> rfl
  · obtain ⟨outcome, effects, _, _, stepEq⟩ := step_of_meaningful fetchedEq conditional
    rw [skipped?, stepEq]

theorem skipped?_of_committed {simulator : Simulator} {effects : Effects}
    (committed : simulator.committed? = some effects) : simulator.skipped? = none := by
  cases fetchedEq : simulator.fetched with
  | ok instruction => exact skipped?_of_fetched fetchedEq
  | error failure =>
      rw [committed?_of_failure fetchedEq] at committed
      cases committed

theorem StepsLike.skipped (like : StepsLike left right)
    (policyEq : right.config.invalidInstruction = left.config.invalidInstruction) :
    right.skipped? = left.skipped? := by
  rw [skipped?, skipped?, like.result, policyEq]

/-- An iteration commits effects, or changes nothing but the program counter. -/
theorem StepsLike.iteration_cases (like : StepsLike left right) (pcEq : right.pc = left.pc)
    (policyEq : right.config.invalidInstruction = left.config.invalidInstruction) :
    (left.committed? = none ∧
      ∃ pc, left.iteration = left.setPc pc ∧ right.iteration = right.setPc pc) ∨
    ∃ effects, left.committed? = some effects ∧ left.iteration = left.commit effects ∧
      right.iteration = right.commit effects := by
  have skippedSame := like.skipped policyEq
  have leftStep := left.simulator_step
  have rightStep := right.simulator_step
  rw [like.committed] at rightStep
  cases committed : left.committed? with
  | some effects =>
      have skippedEq := skipped?_of_committed committed
      rw [committed] at leftStep rightStep
      refine .inr ⟨effects, rfl, ?_, ?_⟩
      · rw [iteration, skippedEq]
        exact leftStep
      · rw [iteration, skippedSame, skippedEq]
        exact rightStep
  | none =>
      rw [committed] at leftStep rightStep
      have leftStays : left.step.simulator = left := leftStep
      have rightStays : right.step.simulator = right := rightStep
      rw [iteration, iteration, skippedSame, leftStays, rightStays, pcEq]
      cases left.skipped? with
      | none => exact .inl ⟨rfl, left.pc, rfl, pcEq ▸ rfl⟩
      | some skip => exact .inl ⟨rfl, _, rfl, rfl⟩

end Simulator

/-- Two runs that took the same number of steps, told the same events and stopped alike. -/
structure Run.Mirrors (left right : Run) : Prop where
  steps : right.steps = left.steps
  events : right.events = left.events
  stop : right.stop = left.stop

namespace Run

open Simulator

variable {left right : Run}

theorem Mirrors.outcome (mirrors : Mirrors left right) : right.outcome = left.outcome := by
  rw [Run.outcome, Run.outcome, mirrors.steps, mirrors.stop]

theorem Mirrors.advance (mirrors : Mirrors left right)
    (policyEq : right.simulator.config.invalidInstruction =
      left.simulator.config.invalidInstruction)
    (like : StepsLike left.simulator right.simulator) :
    Mirrors left.advance right.advance := by
  refine ⟨congrArg (· + 1) mirrors.steps, ?_, ?_⟩
  · change right.events ++ right.simulator.step.events = left.events ++ left.simulator.step.events
    rw [mirrors.events, like.events]
  · change right.simulator.step.proceed.2 = left.simulator.step.proceed.2
    unfold Step.proceed
    rw [like.result, config_step, config_step, policyEq]
    cases left.simulator.step.result with
    | executed status => rfl
    | aborted error => rfl
    | undecodable failure =>
        by_cases resumes :
            left.simulator.config.invalidInstruction = .resync ∧ 0 < failure.skip
        · simp only [if_pos resumes]
        · simp only [if_neg resumes]

theorem le_steps_continueFor (run : Run) (budget : Nat) :
    run.steps ≤ (run.continueFor budget).steps := by
  induction budget generalizing run with
  | zero => exact Nat.le_refl _
  | succ budget induction =>
      rw [continueFor]
      split
      · exact Nat.le_refl _
      · exact Nat.le_of_succ_le (induction run.advance)

/-- A run mirrors another as long as it takes steps like those of the other. -/
theorem Mirrors.continueFor (mirrors : Mirrors left right)
    (policyEq : right.simulator.config.invalidInstruction =
      left.simulator.config.invalidInstruction)
    (budget : Nat)
    (like : ∀ index, left.steps + index < (left.continueFor budget).steps →
      StepsLike (iteration^[index] left.simulator) (iteration^[index] right.simulator)) :
    Mirrors (left.continueFor budget) (right.continueFor budget) := by
  induction budget generalizing left right with
  | zero => exact mirrors
  | succ budget induction =>
      rw [Run.continueFor] at like
      rw [Run.continueFor, Run.continueFor, mirrors.stop]
      cases stopEq : left.stop with
      | some stop => exact mirrors
      | none =>
          rw [stopEq, if_neg (by simp)] at like
          rw [if_neg (by simp), if_neg (by simp)]
          -- The first step of the rest is there because steps are never taken back.
          have first := like 0 (left.advance.le_steps_continueFor budget)
          apply induction (mirrors.advance policyEq first)
          · change right.simulator.step.proceed.1.config.invalidInstruction =
              left.simulator.step.proceed.1.config.invalidInstruction
            rw [proceed_step, proceed_step, config_iteration, config_iteration, policyEq]
          · intro index indexLt
            rw [steps_advance] at indexLt
            have next := like (index + 1) (by omega)
            rw [Function.iterate_succ_apply, Function.iterate_succ_apply, ← proceed_step,
              ← proceed_step] at next
            exact next

end Run

namespace Simulator

variable {left right : Simulator}

theorem mirrors_runWithin
    (policyEq : right.config.invalidInstruction = left.config.invalidInstruction) (budget : Nat)
    (like : ∀ index < (left.runWithin budget).steps,
      StepsLike (iteration^[index] left) (iteration^[index] right)) :
    Run.Mirrors (left.runWithin budget) (right.runWithin budget) := by
  have started : Run.Mirrors (Run.start left) (Run.start right) := ⟨rfl, rfl, rfl⟩
  apply started.continueFor policyEq
  intro index indexLt
  rw [show (Run.start left).steps = 0 from rfl, Nat.zero_add] at indexLt
  exact like index indexLt

/-- The run under the configured budget.  A run without a budget is broken off
after `fuel` steps if it does not end before. -/
def follow (simulator : Simulator) (fuel : Nat) : Run :=
  simulator.runWithin (simulator.config.maxSteps.getD fuel)

theorem run?_eq_follow (simulator : Simulator) (fuel : Nat) :
    simulator.run? fuel =
      if simulator.config.maxSteps.isSome ∨ (simulator.follow fuel).stop.isSome then
        some (simulator.follow fuel)
      else
        none := by
  unfold run? follow
  cases simulator.config.maxSteps with
  | some budget => simp
  | none => simp

theorem mirrors_follow (configEq : right.config = left.config) (fuel : Nat)
    (like : ∀ index < (left.follow fuel).steps,
      StepsLike (iteration^[index] left) (iteration^[index] right)) :
    Run.Mirrors (left.follow fuel) (right.follow fuel) := by
  rw [follow, follow, configEq]
  exact mirrors_runWithin (congrArg Config.invalidInstruction configEq) _ like

theorem mirrors_run? (configEq : right.config = left.config) {fuel : Nat} {run : Run}
    (ran : left.run? fuel = some run)
    (like : ∀ index < run.steps,
      StepsLike (iteration^[index] left) (iteration^[index] right)) :
    ∃ other, right.run? fuel = some other ∧ Run.Mirrors run other := by
  rw [run?_eq_follow, Option.ite_none_right_eq_some, Option.some.injEq] at ran
  obtain ⟨ended, rfl⟩ := ran
  have mirrors := mirrors_follow configEq fuel like
  refine ⟨right.follow fuel, ?_, mirrors⟩
  rw [run?_eq_follow, configEq, mirrors.stop, if_pos ended]

/-- Runs that mirror each other report the same, if they end at all. -/
theorem outcome_run?_of_mirrors (configEq : right.config = left.config) {fuel : Nat}
    (mirrors : Run.Mirrors (left.follow fuel) (right.follow fuel)) :
    (right.run? fuel).map Run.outcome = (left.run? fuel).map Run.outcome := by
  rw [run?_eq_follow, run?_eq_follow, configEq, mirrors.stop]
  split
  · exact congrArg some mirrors.outcome
  · rfl

end Simulator

end Aap
