import Aap.CommandLine.Process
import Aap.Proofs.Checkpoint

/-!
# What a process leaves behind

A process shows output piece by piece and forgets what it has shown.  Put together,
the pieces are what the program of the whole run has written, and the process
exits as soon as the run is over, and only then.
-/

namespace Aap

theorem Console.append_assoc (first second third : Console) :
    first ++ second ++ third = first ++ (second ++ third) :=
  Console.ext Array.append_assoc Array.append_assoc

theorem Console.bytes_append (earlier later : Console) (stream : Stream) :
    (earlier ++ later).bytes stream = earlier.bytes stream ++ later.bytes stream := by
  cases stream with
  | stdout => exact Array.toList_append
  | stderr => exact Array.toList_append

namespace Run

/-- The output of a step does not depend on what was shown before. -/
theorem advance_drained (run : Run) :
    run.advance.drained = run.drained.advance.drained ∧
      run.advance.simulator.console =
        run.simulator.console ++ run.drained.advance.simulator.console := by
  -- The run stands behind its own output, which no step looks at.
  let fresh : Simulator := { run.simulator with console := .empty }
  have behindEq : run.simulator = fresh.behind run.simulator.console :=
    Simulator.ext rfl rfl run.simulator.console.append_empty.symm
  have proceedEq :=
    proceed_of_unnoticed (Simulator.unnoticed_behind run.simulator.console) fresh
  rw [← behindEq] at proceedEq
  have advanceEq : run.advance =
      { simulator := fresh.step.proceed.1.behind run.simulator.console
        steps := run.steps + 1
        events := run.events ++ run.simulator.step.events
        stop := fresh.step.proceed.2 } := by
    simp only [advance, proceedEq]
  rw [advanceEq]
  exact ⟨rfl, rfl⟩

/-- A run that takes no more steps than it may, as far as it is followed. -/
def Fits (run : Run) (count : Nat) : Prop :=
  ∀ budget ∈ run.simulator.config.maxSteps, run.steps + count ≤ budget

theorem isOver_iff (run : Run) :
    run.isOver ↔ run.stop.isSome ∨
      ∃ budget ∈ run.simulator.config.maxSteps, budget ≤ run.steps := by
  rw [isOver, Bool.or_eq_true, Option.any_eq_true]
  simp

theorem Fits.continueFor_of_isOver {run : Run} {count : Nat} (fits : run.Fits count)
    (ended : run.isOver) : run.continueFor count = run := by
  rcases run.isOver_iff.mp ended with stopped | ⟨budget, member, budgetLe⟩
  · exact run.continueFor_of_stop stopped count
  · have countEq : count = 0 := by
      have := fits budget member
      omega
    rw [countEq, continueFor_zero]

theorem continueFor_of_not_isOver {run : Run} (going : ¬ run.isOver) (count : Nat) :
    run.continueFor (count + 1) = run.advance.continueFor count := by
  rw [isOver_iff, not_or] at going
  rw [continueFor, if_neg going.1]

theorem fits_advance_iff {run : Run} {count : Nat} :
    run.advance.Fits count ↔ run.Fits (count + 1) := by
  rw [Fits, Fits, config_advance, steps_advance, Nat.add_right_comm, Nat.add_assoc]

theorem Fits.one_of_not_isOver {run : Run} (fits : run.Fits 0) (going : ¬ run.isOver) :
    run.Fits 1 := by
  rw [isOver_iff, not_or] at going
  intro budget member
  have stepsLe := fits budget member
  have stepsLt : ¬ budget ≤ run.steps := fun budgetLe => going.2 ⟨budget, member, budgetLe⟩
  omega

end Run

namespace CommandLine

/-- The process exits after so many turns in which it executed an instruction, and
this is what it has written. -/
inductive Process.Leaves : Process → Nat → Console → Nat → Prop where
  | exit {process : Process} {written : Console} {status : Nat}
      (turnEq : process.turn = .exit written status) : Leaves process 0 written status
  | write {process next : Process} {written later : Console} {turns status : Nat}
      (turnEq : process.turn = .write written next) (rest : Leaves next turns later status) :
      Leaves process (turns + 1) (written ++ later) status

namespace Process

theorem Leaves.unique {process : Process} {turns otherTurns : Nat} {written otherWritten : Console}
    {status otherStatus : Nat} (leaves : Leaves process turns written status)
    (other : Leaves process otherTurns otherWritten otherStatus) :
    otherTurns = turns ∧ otherWritten = written ∧ otherStatus = status := by
  induction leaves generalizing otherTurns otherWritten with
  | exit turnEq =>
      cases other with
      | exit otherEq =>
          cases turnEq.symm.trans otherEq
          exact ⟨rfl, rfl, rfl⟩
      | write otherEq rest => cases turnEq.symm.trans otherEq
  | write turnEq rest induction =>
      cases other with
      | exit otherEq => cases turnEq.symm.trans otherEq
      | write otherEq otherRest =>
          cases turnEq.symm.trans otherEq
          obtain ⟨rfl, rfl, statusEq⟩ := induction otherRest
          exact ⟨rfl, rfl, statusEq⟩

theorem conclude_drained (run : Run) :
    run.simulator.console ++ (conclude run.drained).console = (conclude run).console ∧
      (conclude run.drained).exitStatus = (conclude run).exitStatus := by
  have outcomeEq : run.drained.outcome = run.outcome := rfl
  have consoleEq : run.drained.simulator.console = .empty := rfl
  have machineEq : run.drained.simulator.machine = run.simulator.machine := rfl
  unfold conclude
  rw [outcomeEq, consoleEq, machineEq]
  cases run.outcome with
  | ok outcome =>
      refine ⟨Console.ext_bytes fun stream => ?_, rfl⟩
      rw [Console.bytes_append]
      cases stream <;> simp [Transcript.console, Console.bytes, Console.empty]
  | error error =>
      refine ⟨Console.ext_bytes fun stream => ?_, rfl⟩
      rw [Console.bytes_append]
      cases stream <;> simp [Transcript.console, Console.bytes, Console.empty]

theorem turn_of_isOver {run : Run} (ended : run.isOver) :
    (running run.drained).turn =
      .exit (conclude run.drained).console (conclude run).exitStatus := by
  have drainedOver : run.drained.isOver := ended
  rw [turn, if_pos drainedOver, exit, (conclude_drained run).2]

theorem turn_of_not_isOver {run : Run} (going : ¬ run.isOver) :
    (running run.drained).turn =
      .write run.drained.advance.simulator.console (running run.advance.drained) := by
  have drainedGoing : ¬ run.drained.isOver := going
  rw [turn, if_neg drainedGoing, run.advance_drained.1]

/-- A process that serves a run exits when the run has ended. -/
theorem exists_leaves {run : Run} {count : Nat} (fits : run.Fits count)
    (ended : (run.continueFor count).isOver) :
    ∃ turns written,
      Leaves (running run.drained) turns written (conclude (run.continueFor count)).exitStatus ∧
      (run.continueFor count).steps = run.steps + turns ∧
      (conclude (run.continueFor count)).console = run.simulator.console ++ written := by
  induction count generalizing run with
  | zero => exact ⟨0, _, .exit (turn_of_isOver ended), rfl, (conclude_drained run).1.symm⟩
  | succ count induction =>
      by_cases alreadyOver : run.isOver
      · rw [fits.continueFor_of_isOver alreadyOver]
        exact ⟨0, _, .exit (turn_of_isOver alreadyOver), rfl, (conclude_drained run).1.symm⟩
      · rw [Run.continueFor_of_not_isOver alreadyOver] at ended ⊢
        obtain ⟨turns, later, leaves, stepsEq, consoleEq⟩ :=
          induction (Run.fits_advance_iff.mpr fits) ended
        refine ⟨turns + 1, _, .write (turn_of_not_isOver alreadyOver) leaves, ?_, ?_⟩
        · rw [stepsEq, Run.steps_advance]
          omega
        · rw [consoleEq, run.advance_drained.2, Console.append_assoc]

/-- A process that serves a run exits for no other reason. -/
theorem exists_isOver_of_leaves {run : Run} (fits : run.Fits 0) {turns status : Nat}
    {written : Console} (leaves : Leaves (running run.drained) turns written status) :
    ∃ count, run.Fits count ∧ (run.continueFor count).isOver := by
  induction turns generalizing run written with
  | zero =>
      by_cases ended : run.isOver
      · exact ⟨0, fits, ended⟩
      · cases leaves with
        | exit exitEq => cases (turn_of_not_isOver ended).symm.trans exitEq
  | succ turns induction =>
      by_cases ended : run.isOver
      · exact ⟨0, fits, ended⟩
      · cases leaves with
        | write writeEq rest =>
            cases (turn_of_not_isOver ended).symm.trans writeEq
            obtain ⟨count, nextFits, nextOver⟩ :=
              induction (Run.fits_advance_iff.mpr (fits.one_of_not_isOver ended)) rest
            refine ⟨count + 1, Run.fits_advance_iff.mp nextFits, ?_⟩
            rw [Run.continueFor_of_not_isOver ended]
            exact nextOver

end Process

end CommandLine

namespace Simulator

/-- What a run under the configured budget comes to is a run that is over. -/
theorem exists_run?_eq_iff {origin : Simulator} {run : Run} :
    (∃ fuel, origin.run? fuel = some run) ↔
      ∃ count, (Run.start origin).Fits count ∧ run.isOver ∧ origin.runWithin count = run := by
  have fitsIff (count : Nat) : (Run.start origin).Fits count ↔
      ∀ budget ∈ origin.config.maxSteps, count ≤ budget := by
    rw [Run.Fits, show (Run.start origin).steps = 0 from rfl]
    simp only [Nat.zero_add]
    rfl
  constructor
  · rintro ⟨fuel, ran⟩
    obtain ⟨count, rfl, budgetEq, stops⟩ := run?_eq_some ran
    refine ⟨count, (fitsIff count).mpr ?_, ?_, rfl⟩
    · intro budget member
      exact Nat.le_of_eq (budgetEq budget member)
    · rw [Run.isOver_iff, config_runWithin]
      cases stopEq : (origin.runWithin count).stop with
      | some stop => exact .inl rfl
      | none =>
          cases maxEq : origin.config.maxSteps with
          | none => exact absurd stopEq (stops maxEq)
          | some budget =>
              refine .inr ⟨budget, rfl, ?_⟩
              rw [(origin.steps_runWithin count).2 stopEq, budgetEq budget maxEq]
  · rintro ⟨count, fits, ended, rfl⟩
    rw [fitsIff] at fits
    rw [Run.isOver_iff, config_runWithin] at ended
    refine ⟨count, ?_⟩
    unfold run?
    cases maxEq : origin.config.maxSteps with
    | none =>
        have stopped : (origin.runWithin count).stop.isSome := by simpa [maxEq] using ended
        exact if_pos stopped
    | some budget =>
        have countLe := fits budget maxEq
        rcases ended with stopped | ⟨configured, member, budgetLe⟩
        · exact congrArg some (origin.runWithin_of_stopped stopped countLe)
        · cases maxEq.symm.trans member
          have stepsLe := (origin.steps_runWithin count).1
          rw [show count = budget by omega]

end Simulator

namespace CommandLine.Process

/-- The process of a session exits exactly if the run ends, and then has written
what the run wrote and what the session says in the end. -/
theorem leaves_ready {simulator : Simulator} (consoleEq : simulator.console = .empty) :
    (∀ fuel run, simulator.run? fuel = some run →
      Leaves (ofSession (.ready simulator)) run.steps (conclude run).console
        (conclude run).exitStatus) ∧
    ((∃ turns written status, Leaves (ofSession (.ready simulator)) turns written status) →
      ∃ fuel run, simulator.run? fuel = some run) := by
  have processEq : ofSession (.ready simulator) = running (Run.start simulator).drained := by
    have simulatorEq : simulator = { simulator with console := .empty } :=
      Simulator.ext rfl rfl consoleEq
    rw [ofSession, Run.drained]
    exact congrArg (fun simulator => running (Run.start simulator)) simulatorEq
  rw [processEq]
  constructor
  · intro fuel run ran
    obtain ⟨count, fits, ended, rfl⟩ := Simulator.exists_run?_eq_iff.mp ⟨fuel, ran⟩
    obtain ⟨turns, written, leaves, stepsEq, writtenEq⟩ := exists_leaves fits ended
    have turnsEq : turns = (simulator.runWithin count).steps := by
      rw [Simulator.runWithin, stepsEq]
      exact (Nat.zero_add turns).symm
    have startEq : (Run.start simulator).simulator.console = .empty := consoleEq
    rw [startEq, Console.empty_append] at writtenEq
    rw [turnsEq, ← writtenEq] at leaves
    exact leaves
  · rintro ⟨turns, written, status, leaves⟩
    have fits : (Run.start simulator).Fits 0 := fun budget _ => Nat.zero_le budget
    obtain ⟨count, fits, ended⟩ := exists_isOver_of_leaves fits leaves
    obtain ⟨fuel, ran⟩ := Simulator.exists_run?_eq_iff.mpr ⟨count, fits, ended, rfl⟩
    exact ⟨fuel, _, ran⟩

/-- What is said of a session without its process is what the process does. -/
theorem leaves_of_transcript? {session : Session} {fuel : Nat} {transcript : Transcript}
    (startsEmpty : ∀ simulator, session = .ready simulator → simulator.console = .empty)
    (transcriptEq : session.transcript? fuel = some transcript) :
    ∃ turns, Leaves (ofSession session) turns transcript.console transcript.exitStatus := by
  cases session with
  | ended told =>
      cases transcriptEq
      exact ⟨0, .exit rfl⟩
  | ready simulator =>
      rw [Session.transcript?, Option.map_eq_some_iff] at transcriptEq
      obtain ⟨run, ran, rfl⟩ := transcriptEq
      exact ⟨run.steps, (leaves_ready (startsEmpty simulator rfl)).1 fuel run ran⟩

end CommandLine.Process

end Aap
