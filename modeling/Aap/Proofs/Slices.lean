import Aap.Proofs.Resync

/-!
# Runs in slices

Nothing but the count of steps is kept from one step of a run to the next, so a
run that used up its budget may be taken up again later: both parts together are
the run under the sum of their budgets.  A run that ended of itself has no use
for a larger budget.
-/

namespace Aap

namespace Run

/-- What was done in two runs, the second of which took up the first. -/
def followedBy (first second : Run) : Run where
  simulator := second.simulator
  steps := first.steps + second.steps
  events := first.events ++ second.events
  stop := second.stop

/-- The run with another budget in its settings. -/
def withBudget (run : Run) (budget : Option Nat) : Run :=
  { run with simulator := run.simulator.withBudget budget }

theorem followedBy_start {run : Run} (going : run.stop = none) :
    run.followedBy (start run.simulator) = run := by
  obtain ⟨simulator, steps, events, stop⟩ := run
  cases going
  simp [followedBy, start]

theorem advance_followedBy (past run : Run) :
    (past.followedBy run).advance = past.followedBy run.advance := by
  have eventsEq (observed : List Event) :
      past.events ++ run.events ++ observed = past.events ++ (run.events ++ observed) := by
    apply Array.ext'
    simp
  simp only [followedBy, advance, Nat.add_assoc, eventsEq]

theorem continueFor_followedBy (past run : Run) (budget : Nat) :
    (past.followedBy run).continueFor budget = past.followedBy (run.continueFor budget) := by
  induction budget generalizing run with
  | zero => rfl
  | succ budget induction =>
      rw [continueFor, continueFor, advance_followedBy, induction]
      change (if run.stop.isSome then _ else _) = _
      split <;> rfl

theorem proceed_of_unnoticed {map : Simulator → Simulator} (unnoticed : Simulator.Unnoticed map)
    (simulator : Simulator) :
    (map simulator).step.proceed = (map simulator.step.proceed.1, simulator.step.proceed.2) := by
  rw [unnoticed.step]
  unfold Step.proceed
  cases simulator.step.result with
  | executed status => rfl
  | aborted error => rfl
  | undecodable failure =>
      simp only [unnoticed.invalidInstruction, Simulator.pc, unnoticed.machine, unnoticed.setPc]
      split <;> rfl

/-- What steps do not notice, runs do not notice. -/
theorem advance_of_unnoticed {map : Simulator → Simulator} (unnoticed : Simulator.Unnoticed map)
    (run : Run) :
    { run with simulator := map run.simulator }.advance =
      { run.advance with simulator := map run.advance.simulator } := by
  have eventsEq : (map run.simulator).step.events = run.simulator.step.events := by
    rw [unnoticed.step]
  simp only [advance, proceed_of_unnoticed unnoticed, eventsEq]

theorem continueFor_of_unnoticed {map : Simulator → Simulator}
    (unnoticed : Simulator.Unnoticed map) (run : Run) (count : Nat) :
    { run with simulator := map run.simulator }.continueFor count =
      { run.continueFor count with simulator := map (run.continueFor count).simulator } := by
  induction count generalizing run with
  | zero => rfl
  | succ count induction =>
      rw [continueFor, continueFor, advance_of_unnoticed unnoticed, induction]
      split <;> rfl

/-- The second run reports for both, with the steps of both. -/
theorem outcome_followedBy (first second : Run) :
    (first.followedBy second).outcome = second.outcome.map fun outcome =>
      { outcome with steps := first.steps + outcome.steps } := by
  unfold outcome
  cases stopEq : second.stop with
  | none =>
      simp only [followedBy, stopEq]
      rfl
  | some stop => cases stop <;> simp only [followedBy, stopEq] <;> rfl

end Run

namespace Simulator

variable (origin : Simulator)

theorem withBudget_withBudget (first second : Option Nat) :
    (origin.withBudget first).withBudget second = origin.withBudget second :=
  rfl

theorem runWithin_withBudget (budget : Option Nat) (count : Nat) :
    (origin.withBudget budget).runWithin count = (origin.runWithin count).withBudget budget :=
  Run.continueFor_of_unnoticed (unnoticed_withBudget budget) (Run.start origin) count

/-- A run that used up one budget, taken up again under another, is the run under
both. -/
theorem runWithin_add {first : Nat} (going : (origin.runWithin first).stop = none)
    (second : Nat) :
    origin.runWithin (first + second) =
      (origin.runWithin first).followedBy
        ((origin.runWithin first).simulator.runWithin second) := by
  rw [runWithin, Run.continueFor_add]
  change (origin.runWithin first).continueFor second = _
  conv_lhs => rw [← Run.followedBy_start going]
  rw [Run.continueFor_followedBy]
  rfl

theorem runWithin_of_stopped {first larger : Nat}
    (stopped : (origin.runWithin first).stop.isSome) (firstLe : first ≤ larger) :
    origin.runWithin larger = origin.runWithin first := by
  obtain ⟨more, rfl⟩ := Nat.exists_eq_add_of_le firstLe
  rw [runWithin, Run.continueFor_add]
  exact Run.continueFor_of_stop _ stopped more

/-- What a run reports tells whether it stopped of itself. -/
theorem stop_runWithin {budget : Nat} {outcome : RunOutcome}
    (outcomeEq : (origin.runWithin budget).outcome = .ok outcome) :
    (origin.runWithin budget).stop.isSome = !outcome.budgetExhausted := by
  rcases ((origin.traces_runWithin budget).outcome_cases outcomeEq).2.2 with
    ⟨stopEq, statusEq, _⟩ | ⟨statusNe, _⟩
  · rw [stopEq, RunOutcome.budgetExhausted, statusEq]
    rfl
  · cases stopEq : (origin.runWithin budget).stop with
    | none =>
        rw [Run.outcome, stopEq] at outcomeEq
        cases outcomeEq
        exact absurd rfl statusNe
    | some stop =>
        rw [RunOutcome.budgetExhausted]
        cases statusEq : outcome.status with
        | ok => exact absurd statusEq statusNe
        | _ => rfl

/-- A step that does not end a run uses up a budget of one. -/
theorem runWithin_one {origin : Simulator} (goesOn : ¬ origin.Terminal) :
    origin.runWithin 1 =
      ⟨origin.iteration, 1, (Run.start origin).events ++ origin.step.events, none⟩ := by
  rcases origin.stop_proceed_step with ⟨stopEq, _⟩ | ⟨_, _, terminal, _⟩
  · rw [← proceed_step, ← stopEq]
    rfl
  · exact absurd terminal goesOn

theorem run?_withBudget_some (budget fuel : Nat) :
    (origin.withBudget (some budget)).run? fuel =
      some ((origin.runWithin budget).withBudget (some budget)) :=
  congrArg some (origin.runWithin_withBudget (some budget) budget)

theorem run?_withBudget_none (fuel : Nat) :
    (origin.withBudget none).run? fuel =
      if (origin.runWithin fuel).stop.isSome then
        some ((origin.runWithin fuel).withBudget none)
      else
        none := by
  unfold run?
  simp only [runWithin_withBudget]
  rfl

end Simulator

/-- Two runs show the same, whatever their budgets. -/
structure Alike (left right : Run) : Prop where
  outcome : left.outcome = right.outcome
  machine : left.simulator.machine = right.simulator.machine
  console : left.simulator.console = right.simulator.console
  events : left.events = right.events

theorem alike_withBudget (run : Run) (first second : Option Nat) :
    Alike (run.withBudget first) (run.withBudget second) :=
  ⟨rfl, rfl, rfl, rfl⟩

/-- The run under the configured budget ends, and shows the same as another. -/
def Simulator.EndsLike (simulator : Simulator) (run : Run) : Prop :=
  (∃ fuel ended, simulator.run? fuel = some ended) ∧
    ∀ fuel ended, simulator.run? fuel = some ended → Alike ended run

namespace Simulator

variable (origin : Simulator)

/-- It does not matter how long a run is followed, as long as it is followed to
its end. -/
theorem run?_unique {fuel otherFuel : Nat} {run other : Run} (ran : origin.run? fuel = some run)
    (otherRan : origin.run? otherFuel = some other) : run = other := by
  unfold run? at ran otherRan
  cases maxEq : origin.config.maxSteps with
  | some budget =>
      rw [maxEq] at ran otherRan
      exact Option.some.inj (ran.symm.trans otherRan)
  | none =>
      rw [maxEq] at ran otherRan
      simp only [Option.ite_none_right_eq_some, Option.some.injEq] at ran otherRan
      obtain ⟨stopped, rfl⟩ := ran
      obtain ⟨otherStopped, rfl⟩ := otherRan
      rcases Nat.le_total fuel otherFuel with fuelLe | otherLe
      · exact (origin.runWithin_of_stopped stopped fuelLe).symm
      · exact origin.runWithin_of_stopped otherStopped otherLe

theorem endsLike_of_run? {fuel : Nat} {ended run : Run} (ran : origin.run? fuel = some ended)
    (alike : Alike ended run) : origin.EndsLike run := by
  refine ⟨⟨fuel, ended, ran⟩, ?_⟩
  intro otherFuel other otherRan
  rw [origin.run?_unique otherRan ran]
  exact alike

/-- A run that used up its budget and was taken up again shows what the run under
both budgets shows. -/
theorem endsLike_followedBy {first : Nat} (going : (origin.runWithin first).stop = none)
    {second : Option Nat} {fuel : Nat} {again : Run}
    (ranAgain : ((origin.runWithin first).simulator.withBudget second).run? fuel = some again) :
    (origin.withBudget (second.map (first + ·))).EndsLike
      ((origin.runWithin first).followedBy again) := by
  cases second with
  | some second =>
      rw [run?_withBudget_some, Option.some.injEq] at ranAgain
      subst ranAgain
      apply endsLike_of_run? _ (run?_withBudget_some origin (first + second) fuel)
      rw [runWithin_add _ going]
      exact alike_withBudget _ _ _
  | none =>
      rw [run?_withBudget_none, Option.ite_none_right_eq_some, Option.some.injEq] at ranAgain
      obtain ⟨stopped, rfl⟩ := ranAgain
      have wholeStopped : (origin.runWithin (first + fuel)).stop.isSome := by
        rw [runWithin_add origin going fuel]
        exact stopped
      have ran := run?_withBudget_none origin (first + fuel)
      rw [if_pos wholeStopped, runWithin_add origin going fuel] at ran
      exact endsLike_of_run? _ ran (alike_withBudget _ _ _)

/-- A run that ended of itself shows what a run under any larger budget shows, and
what a run without a budget shows. -/
theorem endsLike_of_stopped {first : Nat} (stopped : (origin.runWithin first).stop.isSome)
    {larger : Option Nat} (firstLe : ∀ budget ∈ larger, first ≤ budget) :
    (origin.withBudget larger).EndsLike
      ((origin.runWithin first).withBudget (some first)) := by
  cases larger with
  | some budget =>
      have ran := run?_withBudget_some origin budget 0
      rw [runWithin_of_stopped origin stopped (firstLe budget rfl)] at ran
      exact endsLike_of_run? _ ran (alike_withBudget _ _ _)
  | none =>
      have ran := run?_withBudget_none origin first
      rw [if_pos stopped] at ran
      exact endsLike_of_run? _ ran (alike_withBudget _ _ _)

/-- Slicing a run changes nothing: under two budgets, one after the other, it does
what it does under their sum, and what ended it under one budget ends it under
every larger one. -/
theorem budgets_compose (origin : Simulator) (first fuel : Nat) (run : Run)
    (outcome : RunOutcome) (ran : (origin.withBudget (some first)).run? fuel = some run)
    (outcomeEq : run.outcome = .ok outcome) :
    (outcome.budgetExhausted = true → ∀ (second : Option Nat) (fuel : Nat) (again : Run),
      (run.simulator.withBudget second).run? fuel = some again →
        (origin.withBudget (second.map (first + ·))).EndsLike (run.followedBy again) ∧
        (run.followedBy again).outcome = again.outcome.map fun second =>
          { second with steps := outcome.steps + second.steps }) ∧
    (outcome.budgetExhausted = false → ∀ larger : Option Nat,
      (∀ budget ∈ larger, first ≤ budget) → (origin.withBudget larger).EndsLike run) := by
  rw [run?_withBudget_some, Option.some.injEq] at ran
  subst ran
  have stepsEq := ((origin.traces_runWithin first).outcome_cases outcomeEq).1
  have stoppedEq := origin.stop_runWithin outcomeEq
  constructor
  · intro exhausted second fuel again ranAgain
    rw [exhausted] at stoppedEq
    have going : (origin.runWithin first).stop = none := by simpa using stoppedEq
    refine ⟨endsLike_followedBy origin going ranAgain, ?_⟩
    rw [Run.outcome_followedBy, ← stepsEq]
    rfl
  · intro ended larger firstLe
    rw [ended] at stoppedEq
    exact endsLike_of_stopped origin stoppedEq firstLe

/-- A word of the class without instructions is skipped with the last step of one
budget, and the breakpoint behind it is found under the next. -/
theorem budgets_compose_over_skipped_word :
    let origin := ((create { invalidInstruction := .resync }).writeCode 0 0x00).writeCode 1 0x60
    ∃ run again, (origin.withBudget (some 1)).run? 1 = some run ∧ run.outcome = .ok ⟨1, .ok⟩ ∧
      (run.simulator.withBudget (some 7)).run? 1 = some again ∧
      again.outcome = .ok ⟨1, .breakpoint⟩ ∧
      (origin.withBudget (some 8)).EndsLike (run.followedBy again) ∧
      (run.followedBy again).outcome = .ok ⟨2, .breakpoint⟩ ∧
      ∃ ended, (origin.withBudget (some 8)).run? 1 = some ended ∧
        (origin.withBudget none).EndsLike ended := by
  intro origin
  have fails : origin.Undecodable := by
    refine ⟨⟨.noMatchingEncoding, 2, 0⟩, ?_⟩
    rw [fetched_writeCode]
    decide +kernel
  have nextEq : (origin.setPc 1).fetched = .ok ⟨⟨.short, .nop, rfl⟩, .nop 0 0⟩ := by
    change origin.machine.code.fetch 1 = _
    rw [Memory.fetch_eq_decode _ (by decide)]
    simp [origin, writeCode, create, Machine.zero, Memory.read_write, Space.size]
    decide +kernel
  obtain ⟨goesOn, iterationEq⟩ : ¬ origin.Terminal ∧ origin.iteration = origin.setPc 1 := by
    rcases iteration_of_undecodable rfl fails with ⟨last, _, _⟩ | ⟨_, goesOn, nextEq⟩
    · exact absurd last (by decide)
    · exact ⟨goesOn, nextEq⟩
  have resultEq : ((origin.setPc 1).withBudget (some 7)).step.result = .executed .breakpoint := by
    obtain ⟨outcome, effects, _, executeEq, stepEq⟩ :=
      step_of_meaningful nextEq (by simp [Operation.IsConditionalJump])
    cases executeEq
    rw [step_withBudget, stepEq]
    rfl
  have terminal : ((origin.setPc 1).withBudget (some 7)).Terminal :=
    (terminal_iff_of_executed resultEq).mpr (by decide)
  have statusEq : ((origin.setPc 1).withBudget (some 7)).step.result.status = .ok .breakpoint :=
    congrArg StepResult.status resultEq
  have runEq := runWithin_one goesOn
  rw [iterationEq] at runEq
  obtain ⟨run, ran, outcomeEq, simulatorEq⟩ :
      ∃ run, (origin.withBudget (some 1)).run? 1 = some run ∧ run.outcome = .ok ⟨1, .ok⟩ ∧
        run.simulator = (origin.setPc 1).withBudget (some 1) := by
    refine ⟨_, run?_withBudget_some origin 1 1, ?_, ?_⟩
    · rw [runEq]
      rfl
    · rw [runEq, Run.withBudget]
  obtain ⟨again, ranAgain, againEq, _⟩ := run?_of_terminal terminal statusEq (by decide) Nat.one_pos
  rw [← withBudget_withBudget (origin.setPc 1) (some 1), ← simulatorEq] at ranAgain
  obtain ⟨endsLike, bothEq⟩ :=
    (budgets_compose origin 1 1 run _ ran outcomeEq).1 rfl (some 7) 1 again ranAgain
  rw [againEq] at bothEq
  have endedRan := run?_withBudget_some origin 8 1
  have endedEq := (endsLike.2 1 _ endedRan).outcome.trans bothEq
  refine ⟨run, again, ran, outcomeEq, ranAgain, againEq, endsLike, bothEq, _, endedRan, ?_⟩
  exact (budgets_compose origin 8 1 _ _ endedRan endedEq).2 rfl none (by simp)

end Simulator

end Aap
