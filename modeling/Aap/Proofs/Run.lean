import Aap.Proofs.Step
import Aap.Run
import Mathlib.Logic.Function.Iterate

/-!
# Runs are iterated steps

One iteration of a run is a step, followed by a skip if the bytes did not decode
and the policy resumes behind them.  What a run has done is described by a
number of iterations from its origin, of which only the last can have ended it.
Every continuation of a run keeps this description, and the number of
iterations is bounded by the budget.
-/

namespace Aap

namespace Simulator

/-- The number of bytes that a run skips after the step, if it skips any. -/
def skipped? (simulator : Simulator) : Option Nat :=
  match simulator.step.result with
  | .undecodable failure =>
      if simulator.config.invalidInstruction = .resync ∧ 0 < failure.skip then
        some failure.skip
      else
        none
  | _ => none

/-- The simulator after a step and the skip that may follow it. -/
def iteration (simulator : Simulator) : Simulator :=
  let next := simulator.step.simulator
  match simulator.skipped? with
  | some skip => next.setPc (BitVec.ofNat 16 (next.pc.toNat + skip / 2))
  | none => next

/-- Whether the step ends a run: its status is terminal, and nothing is skipped. -/
def Terminal (simulator : Simulator) : Prop :=
  simulator.skipped? = none ∧ simulator.step.result.status ≠ .ok .ok

/-- The events of the first `count` iterations. -/
def history (origin : Simulator) (count : Nat) : List Event :=
  (List.range count).flatMap fun index => (iteration^[index] origin).step.events

end Simulator

/-- The status with which a run ends, unless the simulation was abandoned. -/
def Stop.reported : Stop → Except Unsupported Status
  | .status reported => .ok reported
  | .aborted error => .error error

namespace Simulator

variable (simulator : Simulator)

theorem config_step : simulator.step.simulator.config = simulator.config := by
  rcases simulator.simulator_step_cases with stays | ⟨effects, commits⟩
  · rw [stays]
  · rw [commits]
    rfl

theorem config_iteration : simulator.iteration.config = simulator.config := by
  unfold iteration
  split
  · exact simulator.config_step
  · exact simulator.config_step

theorem config_iterate (count : Nat) : (iteration^[count] simulator).config = simulator.config := by
  induction count with
  | zero => rfl
  | succ count induction =>
      rw [Function.iterate_succ_apply', config_iteration, induction]

theorem proceed_step : simulator.step.proceed.1 = simulator.iteration := by
  have configEq := simulator.config_step
  unfold Step.proceed iteration skipped?
  rw [configEq]
  cases simulator.step.result with
  | executed status => rfl
  | aborted error => rfl
  | undecodable failure =>
      by_cases resumes : simulator.config.invalidInstruction = .resync ∧ 0 < failure.skip
      · simp only [if_pos resumes, BitVec.ofNat_add, BitVec.ofNat_toNat, BitVec.setWidth_eq]
      · simp only [if_neg resumes]

/-- A run goes on after a step that is not terminal, and otherwise stops with
what the step reports. -/
theorem stop_proceed_step :
    (simulator.step.proceed.2 = none ∧ ¬ simulator.Terminal) ∨
      ∃ stop, simulator.step.proceed.2 = some stop ∧ simulator.Terminal ∧
        stop.reported = simulator.step.result.status := by
  have configEq := simulator.config_step
  unfold Step.proceed Terminal skipped?
  rw [configEq]
  cases simulator.step.result with
  | executed status => cases status <;> simp [StepResult.status, Status.isTerminal, Stop.reported]
  | aborted error => simp [StepResult.status, Stop.reported]
  | undecodable failure =>
      by_cases resumes : simulator.config.invalidInstruction = .resync ∧ 0 < failure.skip
      · simp [resumes]
      · simp only [if_neg resumes]
        simp [StepResult.status, Stop.reported]

theorem terminal_iff_of_executed {simulator : Simulator} {status : Status}
    (resultEq : simulator.step.result = .executed status) :
    simulator.Terminal ↔ status ≠ .ok := by
  rw [Terminal, skipped?, resultEq]
  simp [StepResult.status]

theorem history_succ (origin : Simulator) (count : Nat) :
    origin.history (count + 1) =
      origin.history count ++ (iteration^[count] origin).step.events := by
  simp [history, List.range_succ]

end Simulator

namespace Run

open Simulator

/-- What a run that set out from `origin` has done: none of its iterations but
the last ended it, and the last one only if the run has stopped. -/
inductive Traces (origin : Simulator) : Run → Prop where
  | running (steps : Nat) (events : Array Event)
      (eventsEq : events.toList = origin.history steps)
      (goesOn : ∀ index < steps, ¬ (iteration^[index] origin).Terminal) :
      Traces origin ⟨iteration^[steps] origin, steps, events, none⟩
  | ended (earlier : Nat) (events : Array Event) (stop : Stop)
      (eventsEq : events.toList = origin.history (earlier + 1))
      (goesOn : ∀ index < earlier, ¬ (iteration^[index] origin).Terminal)
      (ends : (iteration^[earlier] origin).Terminal)
      (stopEq : stop.reported = (iteration^[earlier] origin).step.result.status) :
      Traces origin ⟨iteration^[earlier + 1] origin, earlier + 1, events, some stop⟩

theorem traces_start (origin : Simulator) : Traces origin (start origin) := by
  refine Traces.running 0 #[] rfl ?_
  intro index indexLt
  exact absurd indexLt (Nat.not_lt_zero index)

/-- One more step of a run that has not stopped is one more iteration. -/
theorem Traces.advance {origin : Simulator} {run : Run} (traces : Traces origin run)
    (going : run.stop = none) : Traces origin run.advance := by
  cases traces with
  | ended earlier events stop eventsEq goesOn ends stopEq => cases going
  | running steps events eventsEq goesOn =>
      let last := iteration^[steps] origin
      have nextEq : iteration^[steps + 1] origin = last.step.proceed.1 := by
        rw [Function.iterate_succ_apply', proceed_step]
      have observedEq : (events ++ last.step.events).toList = origin.history (steps + 1) := by
        rw [history_succ, ← eventsEq]
        simp [last]
      change Traces origin
        ⟨last.step.proceed.1, steps + 1, events ++ last.step.events, last.step.proceed.2⟩
      rw [← nextEq]
      rcases last.stop_proceed_step with
        ⟨stopEq, notTerminal⟩ | ⟨stop, stopEq, terminal, reportedEq⟩
      · rw [stopEq]
        refine Traces.running (steps + 1) _ observedEq ?_
        intro index indexLt
        rcases Nat.lt_succ_iff_lt_or_eq.mp indexLt with earlier | rfl
        · exact goesOn index earlier
        · exact notTerminal
      · rw [stopEq]
        exact Traces.ended steps _ stop observedEq goesOn terminal reportedEq

theorem Traces.continueFor {origin : Simulator} {run : Run} (traces : Traces origin run)
    (budget : Nat) : Traces origin (run.continueFor budget) := by
  induction budget generalizing run with
  | zero => exact traces
  | succ budget induction =>
      rw [Run.continueFor]
      cases going : run.stop with
      | none =>
          rw [if_neg (by simp)]
          exact induction (traces.advance going)
      | some stop =>
          rw [if_pos (by simp)]
          exact traces

theorem steps_advance (run : Run) : run.advance.steps = run.steps + 1 :=
  rfl

theorem config_advance (run : Run) : run.advance.simulator.config = run.simulator.config := by
  have advanceEq : run.advance.simulator = run.simulator.iteration := run.simulator.proceed_step
  rw [advanceEq, Simulator.config_iteration]

/-- A run stays within its budget, and uses it up unless it stops. -/
theorem steps_continueFor (run : Run) (budget : Nat) :
    (run.continueFor budget).steps ≤ run.steps + budget ∧
      ((run.continueFor budget).stop = none →
        (run.continueFor budget).steps = run.steps + budget) := by
  induction budget generalizing run with
  | zero => exact ⟨Nat.le_refl _, fun _ => rfl⟩
  | succ budget induction =>
      rw [Run.continueFor]
      cases going : run.stop with
      | none =>
          obtain ⟨stepsLe, stepsEq⟩ := induction run.advance
          rw [steps_advance] at stepsLe stepsEq
          rw [if_neg (by simp)]
          constructor
          · omega
          · intro unstopped
            rw [stepsEq unstopped]
            omega
      | some stop =>
          rw [if_pos (by simp)]
          constructor
          · omega
          · intro unstopped
            rw [going] at unstopped
            cases unstopped

theorem Traces.simulator_eq {origin : Simulator} {run : Run} (traces : Traces origin run) :
    run.simulator = iteration^[run.steps] origin := by
  cases traces with
  | running steps events eventsEq goesOn => rfl
  | ended earlier events stop eventsEq goesOn ends stopEq => rfl

theorem Traces.events_eq {origin : Simulator} {run : Run} (traces : Traces origin run) :
    run.events.toList = origin.history run.steps := by
  cases traces with
  | running steps events eventsEq goesOn => exact eventsEq
  | ended earlier events stop eventsEq goesOn ends stopEq => exact eventsEq

theorem Traces.outcome_cases {origin : Simulator} {run : Run} (traces : Traces origin run)
    {outcome : RunOutcome} (outcomeEq : run.outcome = .ok outcome) :
    run.steps = outcome.steps ∧ run.simulator = iteration^[outcome.steps] origin ∧
      ((run.stop = none ∧ outcome.status = .ok ∧
          ∀ index < outcome.steps, ¬ (iteration^[index] origin).Terminal) ∨
        (outcome.status ≠ .ok ∧ ∃ earlier, outcome.steps = earlier + 1 ∧
          (∀ index < earlier, ¬ (iteration^[index] origin).Terminal) ∧
          (iteration^[earlier] origin).Terminal ∧
          (iteration^[earlier] origin).step.result.status = .ok outcome.status)) := by
  cases traces with
  | running steps events eventsEq goesOn =>
      cases outcomeEq
      exact ⟨rfl, rfl, .inl ⟨rfl, rfl, goesOn⟩⟩
  | ended earlier events stop eventsEq goesOn ends stopEq =>
      cases stop with
      | aborted error => cases outcomeEq
      | status reported =>
          cases outcomeEq
          have statusNe : reported ≠ .ok := by
            rintro rfl
            exact ends.2 stopEq.symm
          exact ⟨rfl, rfl, .inr ⟨statusNe, earlier, rfl, goesOn, ends, stopEq.symm⟩⟩

end Run

namespace Simulator

theorem traces_runWithin (origin : Simulator) (budget : Nat) :
    Run.Traces origin (origin.runWithin budget) :=
  (Run.traces_start origin).continueFor budget

theorem steps_runWithin (origin : Simulator) (budget : Nat) :
    (origin.runWithin budget).steps ≤ budget ∧
      ((origin.runWithin budget).stop = none → (origin.runWithin budget).steps = budget) := by
  have stepsOf := Run.steps_continueFor (Run.start origin) budget
  rw [show (Run.start origin).steps = 0 from rfl, Nat.zero_add] at stepsOf
  exact stepsOf

/-- A run that is followed to its end is the run within some budget, which is
the configured one unless the run stopped. -/
theorem run?_eq_some {origin : Simulator} {fuel : Nat} {run : Run}
    (ran : origin.run? fuel = some run) :
    ∃ budget, run = origin.runWithin budget ∧
      (∀ configured, origin.config.maxSteps = some configured → budget = configured) ∧
      (origin.config.maxSteps = none → run.stop ≠ none) := by
  unfold run? at ran
  cases maxEq : origin.config.maxSteps with
  | some configured =>
      rw [maxEq] at ran
      cases ran
      refine ⟨configured, rfl, ?_, ?_⟩
      · intro other otherEq
        exact Option.some.inj otherEq
      · intro absent
        cases absent
  | none =>
      rw [maxEq] at ran
      simp only [Option.ite_none_right_eq_some, Option.some.injEq] at ran
      obtain ⟨stopped, rfl⟩ := ran
      refine ⟨fuel, rfl, ?_, ?_⟩
      · intro configured absent
        cases absent
      · intro _ stopEq
        rw [stopEq] at stopped
        cases stopped

theorem traces_of_run? {origin : Simulator} {fuel : Nat} {run : Run}
    (ran : origin.run? fuel = some run) : Run.Traces origin run := by
  obtain ⟨budget, rfl, _⟩ := run?_eq_some ran
  exact origin.traces_runWithin budget

theorem simulator_runWithin (origin : Simulator) (budget : Nat) :
    (origin.runWithin budget).simulator =
      iteration^[(origin.runWithin budget).steps] origin :=
  (origin.traces_runWithin budget).simulator_eq

theorem simulator_of_run? {origin : Simulator} {fuel : Nat} {run : Run}
    (ran : origin.run? fuel = some run) : run.simulator = iteration^[run.steps] origin :=
  (traces_of_run? ran).simulator_eq

theorem config_runWithin (origin : Simulator) (budget : Nat) :
    (origin.runWithin budget).simulator.config = origin.config := by
  rw [simulator_runWithin, config_iterate]

theorem config_of_run? {origin : Simulator} {fuel : Nat} {run : Run}
    (ran : origin.run? fuel = some run) : run.simulator.config = origin.config := by
  rw [simulator_of_run? ran, config_iterate]

/-- The simulator with another budget for its runs. -/
def withBudget (simulator : Simulator) (budget : Option Nat) : Simulator :=
  { simulator with config := { simulator.config with maxSteps := budget } }

/-- Single steps do not look at the budget. -/
theorem unnoticed_withBudget (budget : Option Nat) :
    Unnoticed fun simulator => simulator.withBudget budget :=
  ⟨fun _ => rfl, fun _ => rfl, fun _ => rfl, fun _ _ => rfl, fun _ _ => rfl⟩

theorem step_withBudget (simulator : Simulator) (budget : Option Nat) :
    (simulator.withBudget budget).step =
      { simulator.step with simulator := simulator.step.simulator.withBudget budget } :=
  (unnoticed_withBudget budget).step simulator

theorem terminal_withBudget (simulator : Simulator) (budget : Option Nat) :
    (simulator.withBudget budget).Terminal ↔ simulator.Terminal := by
  unfold Terminal skipped?
  rw [step_withBudget]
  rfl

/-- A step that fails ends its run where it began. -/
theorem iteration_eq_self {simulator : Simulator} (terminal : simulator.Terminal)
    (fails : simulator.step.result.status = .ok .trap ∨
      simulator.step.result.status = .ok .invalidInstruction) :
    simulator.iteration = simulator := by
  rw [iteration, terminal.1]
  rcases fails with trapped | invalid
  · obtain ⟨_, instruction, fetchedEq, conditional⟩ := status_step_eq_trap_iff.mp trapped
    exact simulator_step_of_conditionalJump fetchedEq conditional
  · obtain ⟨failure, fetchedEq⟩ := status_step_eq_invalidInstruction_iff.mp invalid
    rw [step_of_failure fetchedEq]

/-- A run from a simulator whose step ends it takes that step only. -/
theorem run?_of_terminal {simulator : Simulator} (terminal : simulator.Terminal)
    {status : Status} (statusEq : simulator.step.result.status = .ok status)
    (budgetNe : simulator.config.maxSteps ≠ some 0) {fuel : Nat} (fuelPos : 0 < fuel) :
    ∃ run, simulator.run? fuel = some run ∧ run.outcome = .ok ⟨1, status⟩ ∧
      run.simulator = simulator.iteration := by
  rcases simulator.stop_proceed_step with ⟨_, goesOn⟩ | ⟨stop, stopEq, _, reportedEq⟩
  · exact absurd terminal goesOn
  have advanceEq : (Run.start simulator).advance =
      { simulator := simulator.iteration
        steps := 1
        events := (Run.start simulator).events ++ simulator.step.events
        stop := some stop } := by
    rw [← proceed_step, ← stopEq]
    rfl
  have withinEq (budget : Nat) (budgetPos : 0 < budget) :
      simulator.runWithin budget = (Run.start simulator).advance := by
    obtain ⟨budget, rfl⟩ := Nat.exists_eq_succ_of_ne_zero (Nat.ne_of_gt budgetPos)
    change (Run.start simulator).advance.continueFor budget = _
    apply Run.continueFor_of_stop
    rw [advanceEq]
    rfl
  refine ⟨(Run.start simulator).advance, ?_, ?_, ?_⟩
  · unfold run?
    cases maxEq : simulator.config.maxSteps with
    | none =>
        rw [withinEq fuel fuelPos, advanceEq]
        rfl
    | some budget =>
        have budgetPos : 0 < budget := by
          rw [maxEq] at budgetNe
          exact Nat.pos_of_ne_zero fun zero => budgetNe (congrArg some zero)
        simp only [withinEq budget budgetPos]
  · rw [statusEq] at reportedEq
    cases stop with
    | aborted error => cases reportedEq
    | status reported =>
        cases reportedEq
        rw [advanceEq]
        rfl
  · rw [advanceEq]

theorem run?_of_breakpoint {simulator : Simulator} {instruction : Instruction} {reg : Reg}
    (fetchedEq : simulator.fetched = .ok instruction)
    (operationEq : instruction.operation = .nop reg 0)
    (budgetNe : simulator.config.maxSteps ≠ some 0) {fuel : Nat} (fuelPos : 0 < fuel) :
    ∃ run, simulator.run? fuel = some run ∧ run.outcome = .ok ⟨1, .breakpoint⟩ ∧
      run.simulator = simulator.iteration := by
  have meaningful : ¬ instruction.operation.IsConditionalJump := by
    simp [operationEq, Operation.IsConditionalJump]
  obtain ⟨outcome, effects, _, executeEq, stepEq⟩ := step_of_meaningful fetchedEq meaningful
  rw [operationEq] at executeEq
  cases executeEq
  have resultEq : simulator.step.result = .executed .breakpoint := congrArg Step.result stepEq
  have statusEq : simulator.step.result.status = .ok .breakpoint :=
    congrArg StepResult.status resultEq
  exact run?_of_terminal ((terminal_iff_of_executed resultEq).mpr (by decide)) statusEq budgetNe
    fuelPos

/-- A breakpoint moves the program counter behind itself, and nothing else. -/
theorem iteration_of_breakpoint {simulator : Simulator} {instruction : Instruction} {reg : Reg}
    (fetchedEq : simulator.fetched = .ok instruction)
    (operationEq : instruction.operation = .nop reg 0) :
    simulator.iteration =
      simulator.setPc (simulator.pc + BitVec.ofNat 16 instruction.words) := by
  have meaningful : ¬ instruction.operation.IsConditionalJump := by
    simp [operationEq, Operation.IsConditionalJump]
  obtain ⟨outcome, effects, _, executeEq, stepEq⟩ := step_of_meaningful fetchedEq meaningful
  rw [operationEq] at executeEq
  cases executeEq
  rw [iteration, skipped?, stepEq]
  rfl

/-- What the outcome of a run tells about the iterations from its origin. -/
structure Accounts (origin : Simulator) (run : Run) (outcome : RunOutcome) : Prop where
  simulator : run.simulator = iteration^[outcome.steps] origin
  goesOn : ∀ index, index + 1 < outcome.steps → ¬ (iteration^[index] origin).Terminal
  exhausted : outcome.budgetExhausted = true ↔ outcome.status = .ok
  ok : outcome.status = .ok ↔
    origin.config.maxSteps = some outcome.steps ∧
      ∀ index < outcome.steps, ¬ (iteration^[index] origin).Terminal
  reported : outcome.status ≠ .ok →
    1 ≤ outcome.steps ∧ (iteration^[outcome.steps - 1] origin).Terminal ∧
      (iteration^[outcome.steps - 1] origin).step.result.status = .ok outcome.status
  unbounded : origin.config.maxSteps = none → outcome.status ≠ .ok
  repeats : outcome.status = .trap ∨ outcome.status = .invalidInstruction →
    ∀ budget fuel, budget ≠ some 0 → 0 < fuel →
      ∃ again, (run.simulator.withBudget budget).run? fuel = some again ∧
        again.outcome = .ok ⟨1, outcome.status⟩ ∧
        again.simulator = run.simulator.withBudget budget

/-- A run that failed fails again at once, whatever its budget. -/
theorem run?_again {simulator : Simulator} (terminal : simulator.Terminal) {status : Status}
    (statusEq : simulator.step.result.status = .ok status)
    (fails : status = .trap ∨ status = .invalidInstruction) {budget : Option Nat}
    (budgetNe : budget ≠ some 0) {fuel : Nat} (fuelPos : 0 < fuel) :
    ∃ again, (simulator.withBudget budget).run? fuel = some again ∧
      again.outcome = .ok ⟨1, status⟩ ∧ again.simulator = simulator.withBudget budget := by
  let other := simulator.withBudget budget
  have otherTerminal : other.Terminal := (terminal_withBudget simulator budget).mpr terminal
  have otherStatusEq : other.step.result.status = .ok status := by
    rw [step_withBudget]
    exact statusEq
  have otherFails : other.step.result.status = .ok .trap ∨
      other.step.result.status = .ok .invalidInstruction := by
    rcases fails with rfl | rfl
    · exact .inl otherStatusEq
    · exact .inr otherStatusEq
  obtain ⟨again, ran, outcomeEq, simulatorEq⟩ :=
    run?_of_terminal otherTerminal otherStatusEq budgetNe fuelPos
  refine ⟨again, ran, outcomeEq, ?_⟩
  rw [simulatorEq, iteration_eq_self otherTerminal otherFails]

theorem accounts_of_run? {origin : Simulator} {fuel : Nat} {run : Run} {outcome : RunOutcome}
    (ran : origin.run? fuel = some run) (outcomeEq : run.outcome = .ok outcome) :
    Accounts origin run outcome := by
  obtain ⟨budget, rfl, budgetEq, stops⟩ := run?_eq_some ran
  obtain ⟨stepsEq, simulatorEq, outcomeCases⟩ :=
    (origin.traces_runWithin budget).outcome_cases outcomeEq
  obtain ⟨_, usedUp⟩ := origin.steps_runWithin budget
  have exhausted : outcome.budgetExhausted = true ↔ outcome.status = .ok := by
    rw [RunOutcome.budgetExhausted]
    cases outcome.status <;> simp [Status.isTerminal]
  rcases outcomeCases with ⟨stopEq, statusEq, goesOn⟩ |
    ⟨statusNe, earlier, earlierEq, goesOn, ends, reportedEq⟩
  · have maxEq : origin.config.maxSteps = some outcome.steps := by
      cases maxEq : origin.config.maxSteps with
      | none => exact absurd stopEq (stops maxEq)
      | some configured =>
          rw [← stepsEq, usedUp stopEq, budgetEq configured maxEq]
    refine ⟨simulatorEq, ?_, exhausted, ?_, ?_, ?_, ?_⟩
    · intro index indexLt
      exact goesOn index (Nat.lt_of_succ_lt indexLt)
    · exact ⟨fun _ => ⟨maxEq, goesOn⟩, fun _ => statusEq⟩
    · intro statusNe
      exact absurd statusEq statusNe
    · intro absent
      rw [maxEq] at absent
      cases absent
    · rintro (trapped | invalid)
      · cases statusEq.symm.trans trapped
      · cases statusEq.symm.trans invalid
  · have lastEq : outcome.steps - 1 = earlier := by omega
    refine ⟨simulatorEq, ?_, exhausted, ?_, ?_, ?_, ?_⟩
    · intro index indexLt
      exact goesOn index (by omega)
    · constructor
      · intro statusEq
        exact absurd statusEq statusNe
      · rintro ⟨_, none⟩
        exact absurd ends (none earlier (by omega))
    · intro _
      rw [lastEq]
      exact ⟨by omega, ends, reportedEq⟩
    · intro _
      exact statusNe
    · intro fails budget fuel budgetNe fuelPos
      have stays : iteration^[outcome.steps] origin = iteration^[earlier] origin := by
        rw [earlierEq, Function.iterate_succ_apply']
        apply iteration_eq_self ends
        rw [reportedEq]
        exact fails.imp (congrArg Except.ok) (congrArg Except.ok)
      rw [simulatorEq, stays]
      exact run?_again ends reportedEq fails budgetNe fuelPos

/-- Under a budget, and if nothing is fatal, a run ends within the budget. -/
theorem outcome_of_budget {origin : Simulator} {budget : Nat}
    (policyEq : origin.config.unknownOpcode = .trap)
    (maxEq : origin.config.maxSteps = some budget) (fuel : Nat) :
    ∃ run outcome, origin.run? fuel = some run ∧ run.outcome = .ok outcome ∧
      outcome.steps ≤ budget ∧ (budget = 0 → run = Run.start origin) := by
  have traces := origin.traces_runWithin budget
  have stepsLe := (origin.steps_runWithin budget).1
  have ran : origin.run? fuel = some (origin.runWithin budget) := by
    unfold run?
    rw [maxEq]
  have zeroEq : budget = 0 → origin.runWithin budget = Run.start origin := by
    rintro rfl
    rfl
  generalize origin.runWithin budget = run at *
  cases traces with
  | running steps events eventsEq goesOn =>
      exact ⟨_, ⟨steps, .ok⟩, ran, rfl, stepsLe, zeroEq⟩
  | ended earlier events stop eventsEq goesOn ends stopEq =>
      cases stop with
      | status reported => exact ⟨_, ⟨earlier + 1, reported⟩, ran, rfl, stepsLe, zeroEq⟩
      | aborted error =>
          obtain ⟨fatal, _⟩ := status_step_eq_error_iff.mp ⟨error, stopEq.symm⟩
          rw [config_iterate, policyEq] at fatal
          cases fatal

/-- Without a budget a run ends exactly if some iteration is terminal. -/
theorem exists_run?_iff {origin : Simulator} (maxEq : origin.config.maxSteps = none) :
    (∃ fuel run, origin.run? fuel = some run) ↔
      ∃ index, (iteration^[index] origin).Terminal := by
  constructor
  · rintro ⟨fuel, run, ran⟩
    obtain ⟨_, _, _, stops⟩ := run?_eq_some ran
    have stopNe := stops maxEq
    cases traces_of_run? ran with
    | running steps events eventsEq goesOn => exact absurd rfl stopNe
    | ended earlier events stop eventsEq goesOn ends stopEq => exact ⟨earlier, ends⟩
  · rintro ⟨index, terminal⟩
    have traces := origin.traces_runWithin (index + 1)
    have usedUp := (origin.steps_runWithin (index + 1)).2
    refine ⟨index + 1, origin.runWithin (index + 1), ?_⟩
    have stopped : (origin.runWithin (index + 1)).stop.isSome := by
      generalize origin.runWithin (index + 1) = run at traces usedUp
      cases traces with
      | ended earlier events stop eventsEq goesOn ends stopEq => rfl
      | running steps events eventsEq goesOn =>
          have stepsEq : steps = index + 1 := usedUp rfl
          exact absurd terminal (goesOn index (by omega))
    unfold run?
    rw [maxEq]
    exact if_pos stopped

theorem goesOn_of_run? {origin : Simulator} {fuel : Nat} {run : Run}
    (ran : origin.run? fuel = some run) :
    ∀ index, index + 1 < run.steps → ¬ (iteration^[index] origin).Terminal := by
  intro index indexLt
  cases traces_of_run? ran with
  | running steps events eventsEq goesOn => exact goesOn index (Nat.lt_of_succ_lt indexLt)
  | ended earlier events stop eventsEq goesOn ends stopEq =>
      exact goesOn index (Nat.lt_of_succ_lt_succ indexLt)

/-- A run without a budget takes the iterations up to the first terminal one. -/
theorem run?_of_first_terminal {origin : Simulator} (maxEq : origin.config.maxSteps = none)
    {earlier : Nat} (goesOn : ∀ index < earlier, ¬ (iteration^[index] origin).Terminal)
    (ends : (iteration^[earlier] origin).Terminal) {status : Status}
    (statusEq : (iteration^[earlier] origin).step.result.status = .ok status)
    {fuel : Nat} (fuelLt : earlier < fuel) :
    ∃ run, origin.run? fuel = some run ∧ run.outcome = .ok ⟨earlier + 1, status⟩ ∧
      run.simulator = iteration^[earlier + 1] origin := by
  have ran : origin.run? fuel =
      if (origin.runWithin fuel).stop.isSome then some (origin.runWithin fuel) else none := by
    rw [run?, maxEq]
  have traces := origin.traces_runWithin fuel
  have usedUp := (origin.steps_runWithin fuel).2
  generalize origin.runWithin fuel = run at ran traces usedUp
  cases traces with
  | running steps events eventsEq stillGoing =>
      have stepsEq : steps = fuel := usedUp rfl
      exact absurd ends (stillGoing earlier (by omega))
  | ended last events stop eventsEq stillGoing lastEnds stopEq =>
      have lastEq : last = earlier := by
        rcases Nat.lt_trichotomy last earlier with before | same | after
        · exact absurd lastEnds (goesOn last before)
        · exact same
        · exact absurd ends (stillGoing earlier after)
      subst lastEq
      rw [statusEq] at stopEq
      cases stop with
      | aborted error => cases stopEq
      | status reported =>
          cases stopEq
          exact ⟨_, ran, rfl, rfl⟩

/-- The outcome of a run counts its iterations exactly, and a bounded run has
an outcome. -/
theorem run_is_iteration (origin : Simulator) :
    (∀ fuel run outcome, origin.run? fuel = some run → run.outcome = .ok outcome →
      Accounts origin run outcome) ∧
    ∀ fuel budget, origin.config.unknownOpcode = .trap →
      origin.config.maxSteps = some budget →
      ∃ run outcome, origin.run? fuel = some run ∧ run.outcome = .ok outcome ∧
        outcome.steps ≤ budget ∧ (budget = 0 → run = Run.start origin) := by
  constructor
  · intro fuel run outcome ran outcomeEq
    exact accounts_of_run? ran outcomeEq
  · intro fuel budget policyEq maxEq
    exact outcome_of_budget policyEq maxEq fuel

/-- A run into a conditional jump, with steps to spare. -/
theorem run_is_iteration_at_jump :
    let origin := ((create { maxSteps := some 5 }).writeCode 0 0x00).writeCode 1 0x54
    (∃ run, origin.run? 1 = some run ∧ run.outcome = .ok ⟨1, .trap⟩ ∧
      Accounts origin run ⟨1, .trap⟩) ∧
    ∃ run outcome, origin.run? 1 = some run ∧ run.outcome = .ok outcome ∧
      outcome.steps ≤ 5 ∧ (5 = 0 → run = Run.start origin) := by
  intro origin
  have fetchedEq : origin.fetched =
      .ok ⟨⟨.short, .jumpConditional .equal, rfl⟩, .jumpConditional .equal 0 0 0⟩ := by
    rw [fetched_writeCode]
    decide +kernel
  have stepEq := step_of_conditionalJump fetchedEq ⟨.equal, 0, 0, 0, rfl⟩
  have resultEq : origin.step.result = .executed .trap := congrArg Step.result stepEq
  have terminal : origin.Terminal := by
    rw [Terminal, skipped?, resultEq]
    exact ⟨rfl, by decide⟩
  have statusEq : origin.step.result.status = .ok .trap := congrArg StepResult.status resultEq
  obtain ⟨run, ran, outcomeEq, _⟩ :=
    run?_of_terminal terminal statusEq (by decide) Nat.one_pos
  refine ⟨⟨run, ran, outcomeEq, ?_⟩, ?_⟩
  · exact (run_is_iteration origin).1 1 run _ ran outcomeEq
  · exact (run_is_iteration origin).2 1 5 rfl rfl

end Simulator

end Aap
