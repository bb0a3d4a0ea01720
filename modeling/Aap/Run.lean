import Aap.Simulator

/-!
# Runs

A run repeats steps until one of them ends it or a budget of steps is used up.
Under the resynchronizing policy a run skips bytes that do not decode, as long
as decoding can resume behind them.  A run in progress can be continued, so a
run under a budget is a run under a smaller one, continued.
-/

namespace Aap

/-- Why a run ended of itself. -/
inductive Stop where
  | status (status : Status)
  | aborted (error : Unsupported)
  deriving DecidableEq

/-- A run, in progress or ended. -/
structure Run where
  simulator : Simulator
  steps : Nat
  events : Array Event
  stop : Option Stop
  deriving DecidableEq

/-- What a run reports. -/
structure RunOutcome where
  /-- The number of steps tried, the last one included. -/
  steps : Nat
  /-- The last status; `ok` only when the budget was used up. -/
  status : Status
  deriving DecidableEq

/-- Whether a run ended because its budget was used up. -/
def RunOutcome.budgetExhausted (outcome : RunOutcome) : Bool :=
  !outcome.status.isTerminal

namespace Step

/-- The simulator with which a run goes on after a step, and why it does not. -/
def proceed (step : Step) : Simulator × Option Stop :=
  match step.result with
  | .executed status =>
      (step.simulator, if status.isTerminal then some (.status status) else none)
  | .aborted error => (step.simulator, some (.aborted error))
  | .undecodable failure =>
      if step.simulator.config.invalidInstruction = .resync ∧ 0 < failure.skip then
        let resumed := step.simulator.pc + BitVec.ofNat 16 (failure.skip / 2)
        (step.simulator.setPc resumed, none)
      else
        (step.simulator, some (.status .invalidInstruction))

end Step

namespace Run

def start (simulator : Simulator) : Run :=
  ⟨simulator, 0, #[], none⟩

def advance (run : Run) : Run :=
  let ⟨simulator, steps, events, _⟩ := run
  let step := simulator.step
  let observed := events ++ step.events
  let (next, stop) := step.proceed
  ⟨next, steps + 1, observed, stop⟩

/-- The run after up to `budget` more steps. -/
def continueFor : Nat → Run → Run
  | 0, run => run
  | budget + 1, run => if run.stop.isSome then run else continueFor budget run.advance

/-- Whether the run ended of itself or used up the configured budget. -/
def isOver (run : Run) : Bool :=
  run.stop.isSome || run.simulator.config.maxSteps.any fun budget => budget ≤ run.steps

/-- What the run reports, unless the simulation was abandoned. -/
def outcome (run : Run) : Except Unsupported RunOutcome :=
  match run.stop with
  | none => .ok ⟨run.steps, .ok⟩
  | some (.status status) => .ok ⟨run.steps, status⟩
  | some (.aborted error) => .error error

@[simp]
theorem continueFor_zero (run : Run) : run.continueFor 0 = run := rfl

theorem continueFor_of_stop (run : Run) (stopped : run.stop.isSome) (budget : Nat) :
    run.continueFor budget = run := by
  cases budget with
  | zero => rfl
  | succ budget => simp [continueFor, stopped]

/-- A run under a budget is a run under a part of it, continued. -/
theorem continueFor_add (run : Run) (first second : Nat) :
    run.continueFor (first + second) = (run.continueFor first).continueFor second := by
  induction first generalizing run with
  | zero => simp
  | succ first induction =>
      rw [Nat.succ_add_eq_add_succ, Nat.add_succ, continueFor, continueFor]
      by_cases stopped : run.stop.isSome
      · simp [stopped, continueFor_of_stop]
      · simp [stopped, induction]

end Run

namespace Simulator

def runWithin (simulator : Simulator) (budget : Nat) : Run :=
  (Run.start simulator).continueFor budget

/-- The run under the configured budget.  A run without a budget is followed
for `fuel` steps, within which it may or may not end. -/
def run? (simulator : Simulator) (fuel : Nat) : Option Run :=
  match simulator.config.maxSteps with
  | some budget => some (simulator.runWithin budget)
  | none =>
      let run := simulator.runWithin fuel
      if run.stop.isSome then some run else none

end Simulator

end Aap
