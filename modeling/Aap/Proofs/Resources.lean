import Aap.Proofs.Bounded
import Aap.Proofs.Trace

/-!
# What owns the special resources

Output, exit code and overflow flag each belong to a few operations: requests
with certain commands, and sums.  Whatever steps and runs are made of a machine,
its output is what the requests met on the way put there, its exit code and its
flag are those of the last operation that sets them, and its code stays as it is.
-/

namespace Aap

/-- The command that asks for a byte to be put on a stream. -/
def Stream.command : Stream → Nat
  | stdout => 3
  | stderr => 4

/-- Whether an exact sum is outside the range of signed words. -/
def Word.isOutside (sum : Int) : Bool :=
  sum < -2 ^ 15 ∨ 2 ^ 15 ≤ sum

namespace Operation

variable (machine : Machine)

/-- The bytes that an operation puts on a stream. -/
def emitted (operation : Operation) (stream : Stream) : List Byte :=
  match operation with
  | nop reg command =>
      if command = stream.command then [BitVec.ofNat 8 (machine.read reg).toNat] else []
  | _ => []

/-- The exit code that an operation latches, if it latches one. -/
def latched? (operation : Operation) : Option Word :=
  match operation with
  | nop reg command => if command = 2 then some (machine.read reg) else none
  | _ => none

/-- The overflow flag that an operation computes, if it computes one: whether its
exact sum is outside the range of signed words. -/
def flagged? (operation : Operation) : Option Bool :=
  let flag := machine.processor.overflow
  match operation with
  | alu op _ ra rb =>
      (op.sum? (machine.read ra).toInt (machine.read rb).toInt flag).map Word.isOutside
  | aluImmediate op _ ra imm => (op.sum? (machine.read ra).toInt imm flag).map Word.isOutside
  | _ => none

end Operation

namespace Machine

/-- The operation at the program counter, if the bytes there decode. -/
def current? (machine : Machine) : Option Operation :=
  match machine.code.fetch machine.processor.pc with
  | .ok instruction => some instruction.operation
  | .error _ => none

/-- The bytes that the operation at the program counter puts on a stream. -/
def emitted (machine : Machine) (stream : Stream) : List Byte :=
  (machine.current?.map fun operation => operation.emitted machine stream).getD []

/-- The exit code that the operation at the program counter latches. -/
def latched? (machine : Machine) : Option Word :=
  machine.current?.bind fun operation => operation.latched? machine

/-- The overflow flag that the operation at the program counter computes. -/
def flagged? (machine : Machine) : Option Bool :=
  machine.current?.bind fun operation => operation.flagged? machine

end Machine

theorem Word.settle_eq_isOutside (sum : Int) : (Word.settle sum).2 = Word.isOutside sum := by
  have outsideIff : Word.isOutside sum = true ↔ sum < -32768 ∨ 32767 < sum := by
    simp only [Word.isOutside, decide_eq_true_eq]
    omega
  rw [Bool.eq_iff_iff, Word.settle_overflow_iff, outsideIff]

theorem AluOp.compute_flag (op : AluOp) (left : Word) (right : Operand) (flag : Bool) :
    (op.compute left right flag).2 =
      (op.sum? left.toInt right.summand flag).map Word.isOutside := by
  have settledEq (sum : Int) : (compute.settled sum).2 = some (Word.isOutside sum) :=
    congrArg some (Word.settle_eq_isOutside sum)
  cases op with
  | add | addWithCarry | sub | subWithBorrow => exact settledEq _
  | and | or | xor | asr | lsl | lsr => rfl

namespace Operation

variable (machine : Machine) (pc fallThrough : Word)

theorem execute_branch (condition : Condition) (offset : Int) (ra rb : Reg) :
    (branch condition offset ra rb).execute machine pc fallThrough =
      (.retired,
        { nextPc :=
            if condition.holds (machine.read ra) (machine.read rb) then
              Word.displace pc offset
            else
              fallThrough }) := by
  rw [execute]
  split <;> rfl

theorem output_execute (operation : Operation) (stream : Stream) :
    (match (operation.execute machine pc fallThrough).2.output with
      | some (written, byte) => if written = stream then [byte] else []
      | none => []) = operation.emitted machine stream := by
  cases operation with
  | nop reg command =>
      unfold execute emitted
      match command with
      | 0 | 1 | 2 | n + 5 => cases stream <;> simp [Request.ofCommand, Stream.command]
      | 3 | 4 => cases stream <;> simp [Request.ofCommand, Stream.command, Word.lowByte_eq_ofNat]
  | branch condition offset ra rb =>
      rw [execute_branch]
      rfl
  | _ => rfl

theorem exitCode_execute (operation : Operation) :
    (operation.execute machine pc fallThrough).2.exitCode = operation.latched? machine := by
  cases operation with
  | nop reg command =>
      unfold execute latched?
      match command with
      | 0 | 1 | 2 | 3 | 4 | n + 5 => simp [Request.ofCommand]
  | branch condition offset ra rb =>
      rw [execute_branch]
      rfl
  | _ => rfl

theorem overflow_execute (operation : Operation) (small : operation.ImmediateLt (2 ^ 15)) :
    (operation.execute machine pc fallThrough).2.overflow = operation.flagged? machine := by
  cases operation with
  | nop reg command =>
      unfold execute
      match command with
      | 0 | 1 | 2 | 3 | 4 | n + 5 => rfl
  | alu op rd ra rb => exact op.compute_flag _ _ _
  | aluImmediate op rd ra imm =>
      have immLt := small op rd ra imm rfl
      rw [flagged?, ← Operand.summand_immediate immLt]
      exact op.compute_flag _ _ _
  | branch condition offset ra rb =>
      rw [execute_branch]
      rfl
  | _ => rfl

end Operation

/-- The machines at which steps were taken explain what became of the special
resources. -/
structure Explains (before : Simulator) (visited : List Machine) (after : Simulator) :
    Prop where
  code : after.machine.code = before.machine.code
  visits : ∀ machine ∈ visited, machine.code = before.machine.code
  output : ∀ stream, after.console.bytes stream =
    before.console.bytes stream ++ visited.flatMap fun machine => machine.emitted stream
  exitCode : after.machine.processor.exitCode =
    (visited.filterMap Machine.latched?).getLast?.getD before.machine.processor.exitCode
  overflow : after.machine.processor.overflow =
    (visited.filterMap Machine.flagged?).getLast?.getD before.machine.processor.overflow

namespace Explains

theorem refl (simulator : Simulator) : Explains simulator [] simulator := by
  refine ⟨rfl, ?_, ?_, rfl, rfl⟩
  · intro machine member
    cases member
  · intro stream
    exact (List.append_nil _).symm

/-- What two parts explain, they explain one after the other. -/
theorem trans {before middle after : Simulator} {first second : List Machine}
    (firstExplains : Explains before first middle)
    (secondExplains : Explains middle second after) :
    Explains before (first ++ second) after := by
  have lastOf {Value : Type} (changed? : Machine → Option Value) (value : Value) :
      ((first ++ second).filterMap changed?).getLast?.getD value =
        (second.filterMap changed?).getLast?.getD
          ((first.filterMap changed?).getLast?.getD value) := by
    rw [List.filterMap_append, List.getLast?_append]
    cases (second.filterMap changed?).getLast? <;> rfl
  constructor
  · rw [secondExplains.code, firstExplains.code]
  · intro machine member
    rcases List.mem_append.mp member with earlier | later
    · exact firstExplains.visits machine earlier
    · rw [secondExplains.visits machine later, firstExplains.code]
  · intro stream
    rw [secondExplains.output, firstExplains.output, List.flatMap_append, List.append_assoc]
  · rw [secondExplains.exitCode, firstExplains.exitCode, lastOf]
  · rw [secondExplains.overflow, firstExplains.overflow, lastOf]

end Explains

namespace Simulator

variable {simulator : Simulator}

theorem current?_of_failure {failure : DecodeFailure}
    (fetchedEq : simulator.fetched = .error failure) : simulator.machine.current? = none := by
  rw [fetched, pc] at fetchedEq
  rw [Machine.current?, fetchedEq]

theorem current?_of_fetched {instruction : Instruction}
    (fetchedEq : simulator.fetched = .ok instruction) :
    simulator.machine.current? = some instruction.operation := by
  rw [fetched, pc] at fetchedEq
  rw [Machine.current?, fetchedEq]

/-- What a single step has to show. -/
theorem explains_singleton {after : Simulator}
    (codeEq : after.machine.code = simulator.machine.code)
    (outputEq : ∀ stream, after.console.bytes stream =
      simulator.console.bytes stream ++ simulator.machine.emitted stream)
    (exitCodeEq : after.machine.processor.exitCode =
      simulator.machine.latched?.getD simulator.machine.processor.exitCode)
    (overflowEq : after.machine.processor.overflow =
      simulator.machine.flagged?.getD simulator.machine.processor.overflow) :
    Explains simulator [simulator.machine] after := by
  have lastOf {Value : Type} (changed? : Machine → Option Value) (value : Value) :
      ([simulator.machine].filterMap changed?).getLast?.getD value =
        (changed? simulator.machine).getD value := by
    cases changedEq : changed? simulator.machine <;> simp [changedEq]
  constructor
  · exact codeEq
  · intro machine member
    rw [List.mem_singleton.mp member]
  · intro stream
    rw [outputEq, List.flatMap_singleton]
  · rw [exitCodeEq, lastOf]
  · rw [overflowEq, lastOf]

/-- A step without an operation, or with one that has no meaning, changes nothing. -/
theorem explains_stay (stays : simulator.step.simulator = simulator)
    (idle : ∀ operation, simulator.machine.current? = some operation →
      operation.IsConditionalJump) :
    Explains simulator [simulator.machine] simulator.step.simulator := by
  obtain ⟨emittedEq, latchedEq, flaggedEq⟩ :
      (∀ stream, simulator.machine.emitted stream = []) ∧ simulator.machine.latched? = none ∧
        simulator.machine.flagged? = none := by
    unfold Machine.emitted Machine.latched? Machine.flagged?
    cases currentEq : simulator.machine.current? with
    | none => exact ⟨fun _ => rfl, rfl, rfl⟩
    | some operation =>
        obtain ⟨condition, target, ra, rb, rfl⟩ := idle operation currentEq
        exact ⟨fun _ => rfl, rfl, rfl⟩
  rw [stays]
  apply explains_singleton rfl
  · intro stream
    rw [emittedEq, List.append_nil]
  · rw [latchedEq, Option.getD_none]
  · rw [flaggedEq, Option.getD_none]

/-- A step changes the special resources as the operation at its program counter
says; a step that fails changes none of them. -/
theorem explains_step (simulator : Simulator) :
    Explains simulator [simulator.machine] simulator.step.simulator := by
  cases fetchedEq : simulator.fetched with
  | error failure =>
      apply explains_stay
      · rw [step_of_failure fetchedEq]
      · rw [current?_of_failure fetchedEq]
        rintro operation ⟨⟩
  | ok instruction =>
      have currentEq := current?_of_fetched fetchedEq
      by_cases conditional : instruction.operation.IsConditionalJump
      · apply explains_stay (simulator_step_of_conditionalJump fetchedEq conditional)
        rw [currentEq]
        rintro operation ⟨⟩
        exact conditional
      · obtain ⟨outcome, effects, _, executeEq, stepEq⟩ := step_of_meaningful fetchedEq conditional
        let fallThrough := simulator.pc + BitVec.ofNat 16 instruction.words
        have small := Instruction.immediateLt_of_decode fetchedEq
        have outputEq := instruction.operation.output_execute simulator.machine simulator.pc
          fallThrough
        have exitCodeEq := instruction.operation.exitCode_execute simulator.machine simulator.pc
          fallThrough
        have overflowEq := instruction.operation.overflow_execute simulator.machine simulator.pc
          fallThrough small
        rw [executeEq] at outputEq exitCodeEq overflowEq
        rw [stepEq]
        apply explains_singleton
        · rfl
        · intro stream
          rw [Machine.emitted, currentEq, Option.map_some, Option.getD_some, ← outputEq]
          exact bytes_commit simulator.console effects stream
        · rw [Machine.latched?, currentEq, Option.bind_some, ← exitCodeEq]
          exact congrArg effects.exitCode.getD (Processor.exitCode_writeAll _ _)
        · rw [Machine.flagged?, currentEq, Option.bind_some, ← overflowEq]
          exact congrArg effects.overflow.getD (Processor.overflow_writeAll _ _)

/-- A skip is no access to a special resource. -/
theorem explains_iteration (simulator : Simulator) :
    Explains simulator [simulator.machine] simulator.iteration := by
  have stepped := simulator.explains_step
  unfold iteration
  split
  · exact ⟨stepped.code, stepped.visits, stepped.output, stepped.exitCode, stepped.overflow⟩
  · exact stepped

/-- The machines at which the first iterations take their steps. -/
def visits (simulator : Simulator) (count : Nat) : List Machine :=
  (List.range count).map fun index => (iteration^[index] simulator).machine

theorem visits_succ (simulator : Simulator) (count : Nat) :
    simulator.visits (count + 1) =
      simulator.visits count ++ [(iteration^[count] simulator).machine] := by
  rw [visits, List.range_succ, List.map_append]
  rfl

theorem visits_one (simulator : Simulator) : simulator.visits 1 = [simulator.machine] :=
  rfl

theorem explains_iterate (simulator : Simulator) (count : Nat) :
    Explains simulator (simulator.visits count) (iteration^[count] simulator) := by
  induction count with
  | zero => exact Explains.refl simulator
  | succ count induction =>
      rw [visits_succ, Function.iterate_succ_apply']
      exact induction.trans (explains_iteration _)

/-- Where steps and runs lead to with nothing done from outside in between, and the
machines at which a step was taken on the way. -/
inductive Driven (origin : Simulator) : List Machine → Simulator → Prop where
  | start : Driven origin [] origin
  | step {visited : List Machine} {last : Simulator} (driven : Driven origin visited last) :
      Driven origin (visited ++ [last.machine]) last.step.simulator
  | run {visited : List Machine} {last : Simulator} {run : Run} (fuel : Nat)
      (driven : Driven origin visited last) (ran : last.run? fuel = some run) :
      Driven origin (visited ++ last.visits run.steps) run.simulator

/-- Whatever steps and runs are made, code stays as it is, output is what was put
there in order, and exit code and flag are the last ones set. -/
theorem explains_of_driven (origin last : Simulator) (visited : List Machine)
    (driven : Driven origin visited last) : Explains origin visited last := by
  induction driven with
  | start => exact Explains.refl origin
  | step driven induction => exact induction.trans (explains_step _)
  | run fuel driven ran induction =>
      rw [simulator_of_run? ran]
      exact induction.trans (explains_iterate _ _)

/-- A step that puts a byte, and a run that quits at once. -/
theorem explains_of_driven_to_quit :
    let origin := (((create {}).writeCode 0 0x03).writeCode 2 0x02).setExitCode 7
    ∃ visited last, Driven origin visited last ∧ Explains origin visited last ∧
      last.console.bytes .stdout = [0] ∧ last.machine.processor.exitCode = 0 := by
  intro origin
  have putEq : origin.fetched = .ok ⟨⟨.short, .nop, rfl⟩, .nop 0 3⟩ := by
    change origin.machine.code.fetch 0 = _
    rw [Memory.fetch_eq_decode _ (by decide)]
    simp [origin, setExitCode, writeCode, create, Machine.zero, Memory.read_write, Space.size]
    decide +kernel
  have quitEq (simulator : Simulator) (pcEq : simulator.pc = 1)
      (codeEq : simulator.machine.code = origin.machine.code) :
      simulator.fetched = .ok ⟨⟨.short, .nop, rfl⟩, .nop 0 2⟩ := by
    rw [fetched, pcEq, codeEq, Memory.fetch_eq_decode _ (by decide)]
    simp [origin, setExitCode, writeCode, create, Machine.zero, Memory.read_write, Space.size]
    decide +kernel
  have nopMeaningful (reg : Reg) (command : Nat) :
      ¬ (Operation.nop reg command).IsConditionalJump := by
    simp [Operation.IsConditionalJump]
  obtain ⟨_, _, _, executeEq, stepEq⟩ := step_of_meaningful putEq (nopMeaningful 0 3)
  cases executeEq
  let stepped := origin.step.simulator
  have steppedEq : stepped = origin.commit _ := congrArg Step.simulator stepEq
  have steppedFetched : stepped.fetched = .ok ⟨⟨.short, .nop, rfl⟩, .nop 0 2⟩ := by
    apply quitEq
    · rw [steppedEq]
      rfl
    · rw [steppedEq]
      rfl
  have originRead : origin.machine.read 0 = 0 := by
    simp [Machine.read, Processor.read, origin, setExitCode, writeCode, create, Machine.zero,
      Processor.zero]
  have steppedRead : stepped.machine.read 0 = 0 := by
    rw [steppedEq]
    exact originRead
  have resultEq : stepped.step.result = .executed .quit := by
    obtain ⟨_, _, _, executeEq, stepEq⟩ := step_of_meaningful steppedFetched (nopMeaningful 0 2)
    cases executeEq
    rw [stepEq]
    rfl
  have terminal : stepped.Terminal := (terminal_iff_of_executed resultEq).mpr (by decide)
  have statusEq : stepped.step.result.status = .ok .quit := congrArg StepResult.status resultEq
  have budgetNe : stepped.config.maxSteps ≠ some 0 := by
    rw [steppedEq]
    simp [commit, origin, setExitCode, writeCode, create]
  obtain ⟨run, ran, outcomeEq, _⟩ := run?_of_terminal terminal statusEq budgetNe Nat.one_pos
  have stepsEq : run.steps = 1 := ((traces_of_run? ran).outcome_cases outcomeEq).1
  have started : Driven origin [origin.machine] stepped := Driven.step Driven.start
  have driven := started.run 1 ran
  rw [stepsEq, visits_one, List.singleton_append] at driven
  have explained := explains_of_driven origin run.simulator _ driven
  have putCurrent := current?_of_fetched putEq
  have quitCurrent := current?_of_fetched steppedFetched
  refine ⟨_, _, driven, explained, ?_, ?_⟩
  · have putBytes : origin.machine.emitted .stdout = [0] := by
      rw [Machine.emitted, putCurrent]
      change [BitVec.ofNat 8 (origin.machine.read 0).toNat] = _
      rw [originRead]
      rfl
    have quitBytes : stepped.machine.emitted .stdout = [] := by
      rw [Machine.emitted, quitCurrent]
      rfl
    rw [explained.output, List.flatMap_cons, List.flatMap_singleton, putBytes, quitBytes]
    rfl
  · rw [explained.exitCode]
    simp [Machine.latched?, putCurrent, quitCurrent, Operation.latched?, steppedRead]

end Simulator

end Aap
