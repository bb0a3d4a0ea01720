import Aap.Proofs.Lockstep
import Aap.Proofs.Observation

/-!
# What a program cannot read

A program sets the exit code and writes to the console, but never reads either.
Two simulators that differ in nothing else are told apart by no sequence of
steps and runs: they report the same, write the same behind what was written
before, and have the same exit code as soon as a program quits.
-/

namespace Aap

/-- What a host can let a simulator do: one step, or a run that is broken off
after `fuel` steps if it has no budget and does not end before. -/
inductive Move where
  | step
  | run (fuel : Nat)
  deriving DecidableEq

/-- What a host learns from a move. -/
structure Report where
  /-- The number of steps and the last status, unless the run was broken off. -/
  outcome : Option (Except Unsupported RunOutcome)
  events : List Event
  deriving DecidableEq

/-- The report on a move, and the simulator after it. -/
def Simulator.move (simulator : Simulator) : Move → Report × Simulator
  | .step =>
      let step := simulator.step
      (⟨some (step.result.status.map fun status => ⟨1, status⟩), step.events⟩, step.simulator)
  | .run fuel =>
      let followed := simulator.follow fuel
      (⟨(simulator.run? fuel).map Run.outcome, followed.events.toList⟩, followed.simulator)

/-- The answers to requests that are served one after the other, and the state
in the end. -/
def inTurn {State Request Answer : Type} (serve : State → Request → Answer × State)
    (state : State) : List Request → List Answer × State
  | [] => ([], state)
  | request :: rest =>
      let (answer, next) := serve state request
      let (answers, last) := inTurn serve next rest
      (answer :: answers, last)

/-- One of the events tells that a program has quit. -/
def Quits (events : List Event) : Prop :=
  ∃ pc nextPc, Event.retired pc nextPc .quit ∈ events

theorem not_quits_nil : ¬ Quits [] := by
  rintro ⟨pc, nextPc, member⟩
  cases member

theorem quits_append {first second : List Event} :
    Quits (first ++ second) ↔ Quits first ∨ Quits second := by
  simp only [Quits, List.mem_append, exists_or]

/-- To quit is to latch an exit code. -/
theorem Operation.exitCode_isSome_execute (operation : Operation) (machine : Machine)
    (pc fallThrough : Word) :
    (operation.execute machine pc fallThrough).2.exitCode.isSome ↔
      (operation.execute machine pc fallThrough).1 = .quit := by
  cases operation with
  | nop reg command =>
      unfold execute
      match command with
      | 0 | 1 | 2 | 3 | 4 | n + 5 => simp [Request.ofCommand]
  | branch condition offset ra rb =>
      rw [execute]
      split <;> simp
  | _ => simp [execute]

theorem Processor.registers_writeAll_congr {left right : Processor}
    (registersEq : right.registers = left.registers) (writes : List (Reg × Word)) :
    (right.writeAll writes).registers = (left.writeAll writes).registers := by
  induction writes generalizing left right with
  | nil => exact registersEq
  | cons entry writes induction =>
      apply induction
      simp only [Processor.write, registersEq]

namespace Simulator

theorem quits_step_iff (simulator : Simulator) :
    Quits simulator.step.events ↔
      ∃ effects, simulator.committed? = some effects ∧ effects.exitCode.isSome := by
  cases fetchedEq : simulator.fetched with
  | error failure =>
      rw [step_of_failure fetchedEq, committed?_of_failure fetchedEq]
      simp [Quits]
  | ok instruction =>
      by_cases conditional : instruction.operation.IsConditionalJump
      · rw [step_of_conditionalJump fetchedEq conditional,
          committed?_of_conditionalJump fetchedEq conditional]
        cases simulator.config.unknownOpcode <;> simp [Quits, startOf]
      · obtain ⟨outcome, effects, implemented, executeEq, stepEq⟩ :=
          step_of_meaningful fetchedEq conditional
        have latches := instruction.operation.exitCode_isSome_execute simulator.machine
          simulator.pc (simulator.pc + BitVec.ofNat 16 instruction.words)
        rw [executeEq] at latches
        rw [stepEq, committed?_of_meaningful fetchedEq implemented executeEq]
        simp only [Option.some.injEq, exists_eq_left', latches]
        cases outcome <;> simp [Quits, startOf, Outcome.status]

/-- The simulators differ in exit code and console at most. -/
structure SameButLatch (left right : Simulator) : Prop where
  config : right.config = left.config
  registers : right.machine.processor.registers = left.machine.processor.registers
  pc : right.pc = left.pc
  overflow : right.machine.processor.overflow = left.machine.processor.overflow
  code : right.machine.code = left.machine.code
  data : right.machine.data = left.machine.data

/-- Since `left` and `right`, two simulators have told the same events and written
the same bytes, and their exit codes are as before or those of the same quit. -/
structure Parallel (left right : Simulator) (events : List Event)
    (leftNow rightNow : Simulator) : Prop where
  same : SameButLatch leftNow rightNow
  output : ∃ added : Stream → List Byte, ∀ stream,
    leftNow.console.bytes stream = left.console.bytes stream ++ added stream ∧
    rightNow.console.bytes stream = right.console.bytes stream ++ added stream
  kept : ¬ Quits events →
    leftNow.machine.processor.exitCode = left.machine.processor.exitCode ∧
    rightNow.machine.processor.exitCode = right.machine.processor.exitCode
  latched : Quits events →
    rightNow.machine.processor.exitCode = leftNow.machine.processor.exitCode

namespace Parallel

variable {left right leftNow rightNow leftThen rightThen : Simulator}

theorem refl (same : SameButLatch left right) : Parallel left right [] left right := by
  refine ⟨same, ⟨fun _ => [], ?_⟩, ?_, ?_⟩
  · intro stream
    exact ⟨(List.append_nil _).symm, (List.append_nil _).symm⟩
  · intro _
    exact ⟨rfl, rfl⟩
  · intro quits
    exact absurd quits not_quits_nil

theorem trans {first second : List Event} (earlier : Parallel left right first leftNow rightNow)
    (later : Parallel leftNow rightNow second leftThen rightThen) :
    Parallel left right (first ++ second) leftThen rightThen := by
  obtain ⟨earlierAdded, earlierOutput⟩ := earlier.output
  obtain ⟨laterAdded, laterOutput⟩ := later.output
  refine ⟨later.same, ⟨fun stream => earlierAdded stream ++ laterAdded stream, ?_⟩, ?_, ?_⟩
  · intro stream
    obtain ⟨leftEarlier, rightEarlier⟩ := earlierOutput stream
    obtain ⟨leftLater, rightLater⟩ := laterOutput stream
    rw [leftLater, rightLater, leftEarlier, rightEarlier, List.append_assoc, List.append_assoc]
    exact ⟨rfl, rfl⟩
  · intro noQuit
    rw [quits_append, not_or] at noQuit
    obtain ⟨leftKept, rightKept⟩ := later.kept noQuit.2
    rw [leftKept, rightKept]
    exact earlier.kept noQuit.1
  · -- What was latched before is kept unless the later part latches again.
    intro quits
    by_cases laterQuits : Quits second
    · exact later.latched laterQuits
    · obtain ⟨leftKept, rightKept⟩ := later.kept laterQuits
      rw [leftKept, rightKept]
      exact earlier.latched ((quits_append.mp quits).resolve_right laterQuits)

theorem setPc {events : List Event} (parallel : Parallel left right events leftNow rightNow)
    (pc : Word) : Parallel left right events (leftNow.setPc pc) (rightNow.setPc pc) := by
  obtain ⟨same, output, kept, latched⟩ := parallel
  exact ⟨⟨same.config, same.registers, rfl, same.overflow, same.code, same.data⟩,
    output, kept, latched⟩

end Parallel

variable {left right : Simulator}

theorem SameButLatch.stepsLike (same : SameButLatch left right) : StepsLike left right := by
  apply stepsLike_of_fetched same.pc (congrArg Config.unknownOpcode same.config)
  · rw [fetched, same.pc, same.code, fetched]
  · intro operation fallThrough
    exact operation.execute_congr same.registers same.overflow same.data left.pc fallThrough

theorem SameButLatch.commit (same : SameButLatch left right) (effects : Effects) :
    SameButLatch (left.commit effects) (right.commit effects) := by
  have registersEq := Processor.registers_writeAll_congr same.registers effects.registerWrites
  refine ⟨same.config, registersEq, rfl, ?_, same.code, ?_⟩
  · simp only [Simulator.commit, Machine.commit, Processor.commit, Processor.overflow_writeAll,
      same.overflow]
  · simp only [Simulator.commit, Machine.commit, same.data]

theorem Parallel.of_commit (same : SameButLatch left right) {effects : Effects}
    (committed : left.committed? = some effects) :
    Parallel left right left.step.events (left.commit effects) (right.commit effects) := by
  have quitsIff : Quits left.step.events ↔ effects.exitCode.isSome := by
    simp [quits_step_iff, committed]
  have exitCodeEq (simulator : Simulator) :
      (simulator.commit effects).machine.processor.exitCode =
        effects.exitCode.getD simulator.machine.processor.exitCode :=
    congrArg effects.exitCode.getD (Processor.exitCode_writeAll _ _)
  obtain ⟨added, addedEq⟩ : ∃ added : Stream → List Byte, ∀ (console : Console) (stream : Stream),
      (console.commit effects).bytes stream = console.bytes stream ++ added stream :=
    ⟨_, fun console stream => bytes_commit console effects stream⟩
  refine ⟨same.commit effects, ⟨added, ?_⟩, ?_, ?_⟩
  · intro stream
    exact ⟨addedEq left.console stream, addedEq right.console stream⟩
  · intro noQuit
    have unlatched : effects.exitCode = none := by simpa [quitsIff] using noQuit
    rw [exitCodeEq, exitCodeEq, unlatched]
    exact ⟨rfl, rfl⟩
  · intro quits
    obtain ⟨exitCode, latchedEq⟩ := Option.isSome_iff_exists.mp (quitsIff.mp quits)
    rw [exitCodeEq, exitCodeEq, latchedEq]
    rfl

theorem Parallel.of_stay (same : SameButLatch left right) (committed : left.committed? = none) :
    Parallel left right left.step.events left right := by
  have noQuit : ¬ Quits left.step.events := by
    simp [quits_step_iff, committed]
  refine ⟨same, (Parallel.refl same).output, ?_, ?_⟩
  · intro _
    exact ⟨rfl, rfl⟩
  · intro quits
    exact absurd quits noQuit

theorem parallel_step (same : SameButLatch left right) :
    Parallel left right left.step.events left.step.simulator right.step.simulator := by
  rw [simulator_step, simulator_step, same.stepsLike.committed]
  cases committed : left.committed? with
  | none => exact Parallel.of_stay same committed
  | some effects => exact Parallel.of_commit same committed

theorem parallel_iteration (same : SameButLatch left right) :
    Parallel left right left.step.events left.iteration right.iteration := by
  have policyEq := congrArg Config.invalidInstruction same.config
  rcases same.stepsLike.iteration_cases same.pc policyEq with
    ⟨committed, pc, leftEq, rightEq⟩ | ⟨effects, committed, leftEq, rightEq⟩
  · rw [leftEq, rightEq]
    exact (Parallel.of_stay same committed).setPc pc
  · rw [leftEq, rightEq]
    exact Parallel.of_commit same committed

theorem parallel_iterate (same : SameButLatch left right) (count : Nat) :
    Parallel left right (left.history count) (iteration^[count] left)
      (iteration^[count] right) := by
  induction count with
  | zero => exact Parallel.refl same
  | succ count induction =>
      rw [history_succ, Function.iterate_succ_apply', Function.iterate_succ_apply']
      exact induction.trans (parallel_iteration induction.same)

theorem SameButLatch.mirrors (same : SameButLatch left right) (fuel : Nat) :
    Run.Mirrors (left.follow fuel) (right.follow fuel) := by
  apply mirrors_follow same.config
  intro index _
  exact (parallel_iterate same index).same.stepsLike

/-- No move tells the simulators apart. -/
theorem parallel_move (same : SameButLatch left right) (move : Move) :
    (right.move move).1 = (left.move move).1 ∧
      Parallel left right (left.move move).1.events (left.move move).2 (right.move move).2 := by
  cases move with
  | step =>
      refine ⟨?_, parallel_step same⟩
      simp only [Simulator.move, same.stepsLike.result, same.stepsLike.events]
  | run fuel =>
      have mirrors := same.mirrors fuel
      constructor
      · simp only [Simulator.move, mirrors.events, outcome_run?_of_mirrors same.config mirrors]
      · have parallel := parallel_iterate same (left.follow fuel).steps
        have toldEq : (left.follow fuel).events.toList = left.history (left.follow fuel).steps :=
          (left.traces_runWithin _).events_eq
        have leftEq : (left.follow fuel).simulator = iteration^[(left.follow fuel).steps] left :=
          left.simulator_runWithin _
        have rightEq : (right.follow fuel).simulator =
            iteration^[(right.follow fuel).steps] right :=
          right.simulator_runWithin _
        rw [← toldEq, ← leftEq, ← mirrors.steps, ← rightEq] at parallel
        exact parallel

theorem parallel_moves (same : SameButLatch left right) (moves : List Move) :
    (inTurn move right moves).1 = (inTurn move left moves).1 ∧
      Parallel left right ((inTurn move left moves).1.flatMap Report.events)
        (inTurn move left moves).2 (inTurn move right moves).2 := by
  induction moves generalizing left right with
  | nil => exact ⟨rfl, Parallel.refl same⟩
  | cons first rest induction =>
      obtain ⟨reportEq, parallel⟩ := parallel_move same first
      obtain ⟨reportsEq, others⟩ := induction parallel.same
      constructor
      · exact congrArg₂ List.cons reportEq reportsEq
      · exact parallel.trans others

/-- Exit code and console are write-only for the program: along steps and runs of any
length they make no difference, output goes behind what was written before, and
the exit codes are as in the beginning until the first quit, then equal. -/
theorem latch_and_console_are_write_only (left right : Simulator)
    (same : SameButLatch left right) :
    (∀ count,
      (iteration^[count] right).step.result = (iteration^[count] left).step.result ∧
      (iteration^[count] right).step.events = (iteration^[count] left).step.events ∧
      Parallel left right (left.history count) (iteration^[count] left)
        (iteration^[count] right)) ∧
    ∀ moves : List Move,
      (inTurn move right moves).1 = (inTurn move left moves).1 ∧
      Parallel left right ((inTurn move left moves).1.flatMap Report.events)
        (inTurn move left moves).2 (inTurn move right moves).2 := by
  constructor
  · intro count
    have parallel := parallel_iterate same count
    exact ⟨parallel.same.stepsLike.result, parallel.same.stepsLike.events, parallel⟩
  · exact parallel_moves same

theorem sameButLatch_of_latch (simulator : Simulator) (exitCode : Word) (console : Console) :
    SameButLatch simulator { simulator.setExitCode exitCode with console } :=
  ⟨rfl, rfl, rfl, rfl, rfl, rfl⟩

/-- A program that quits at once, with a byte on the console and an exit code from
before. -/
theorem latch_and_console_are_write_only_at_quit :
    let left := (create {}).writeCode 0 0x02
    let right := { left.setExitCode 7 with console := ⟨#[0x41], #[]⟩ }
    let moves := [Move.step, Move.run 3]
    right.machine.processor.exitCode ≠ left.machine.processor.exitCode ∧
    (inTurn move right moves).1 = (inTurn move left moves).1 ∧
    right.step.simulator.machine.processor.exitCode =
      left.step.simulator.machine.processor.exitCode ∧
    ∃ added : List Byte, left.step.simulator.console.bytes .stdout = added ∧
      right.step.simulator.console.bytes .stdout = 0x41 :: added := by
  intro left right moves
  have fetchedEq : left.fetched = .ok ⟨⟨.short, .nop, rfl⟩, .nop 0 2⟩ := by
    change left.machine.code.fetch 0 = _
    rw [Memory.fetch_eq_decode _ (by decide)]
    simp [left, writeCode, create, Machine.zero, Memory.read_write, Space.size]
    decide +kernel
  have quits : Quits left.step.events := by
    rw [quits_step_iff]
    exact ⟨_, committed?_of_meaningful fetchedEq (by simp) rfl, rfl⟩
  have same : SameButLatch left right := sameButLatch_of_latch left 7 ⟨#[0x41], #[]⟩
  obtain ⟨_, unnoticed⟩ := latch_and_console_are_write_only left right same
  have toldEq (simulator : Simulator) :
      (inTurn move simulator [.step]).1.flatMap Report.events = simulator.step.events :=
    List.append_nil simulator.step.events
  have nextEq (simulator : Simulator) :
      (inTurn move simulator [.step]).2 = simulator.step.simulator := rfl
  have parallel := (unnoticed [.step]).2
  rw [toldEq, nextEq, nextEq] at parallel
  obtain ⟨added, output⟩ := parallel.output
  refine ⟨?_, (unnoticed moves).1, ?_, added .stdout, ?_⟩
  · change (7 : Word) ≠ 0
    decide
  · exact parallel.latched quits
  · exact output .stdout

end Simulator

end Aap
