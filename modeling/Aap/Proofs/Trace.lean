import Aap.Proofs.Resync

/-!
# What a trace tells

The events of a run come in groups, one for each step.  A group names what code
memory holds at its program counter and tells where the run goes from there, so
the groups of a run form a path through code memory.  Whoever is handed the
events has no influence on the run.
-/

namespace Aap

/-- The events of one step. -/
inductive Group where
  | executed (pc : Word) (opcode : Opcode) (size : Nat) (nextPc : Word) (status : Status)
  | failed (pc : Word) (error : DecodeError) (skip : Nat)

namespace Group

def events : Group → List Event
  | executed pc opcode size nextPc status => [.start pc opcode size, .retired pc nextPc status]
  | failed pc error skip => [.failed pc error skip]

def pc : Group → Word
  | executed pc _ _ _ _ => pc
  | failed pc _ _ => pc

def status : Group → Status
  | executed _ _ _ _ status => status
  | failed _ _ _ => .invalidInstruction

/-- The group says what a fetch from code memory yields at its program counter. -/
def Names (code : Memory .code) : Group → Prop
  | executed pc opcode size _ _ =>
      ∃ instruction, code.fetch pc = .ok instruction ∧ opcode = instruction.opcode ∧
        size = instruction.size
  | failed pc error skip =>
      ∃ failure, code.fetch pc = .error failure ∧ error = failure.error ∧ skip = failure.skip

/-- A run can go on after the group. -/
def GoesOn (policy : InvalidInstructionPolicy) : Group → Prop
  | executed _ _ _ _ status => status = .ok
  | failed _ _ skip => policy = .resync ∧ 0 < skip

/-- The program counter behind the group. -/
def leadsTo (policy : InvalidInstructionPolicy) : Group → Word
  | executed _ _ _ nextPc _ => nextPc
  | failed pc _ skip =>
      if policy = .resync ∧ 0 < skip then pc + BitVec.ofNat 16 (skip / 2) else pc

end Group

/-- Groups that lead from one program counter to another, each beginning where
the one before it led. -/
inductive Path (code : Memory .code) (policy : InvalidInstructionPolicy) :
    Word → List Group → Word → Prop where
  | nil (pc : Word) : Path code policy pc [] pc
  | cons {group : Group} {groups : List Group} {last : Word} (names : group.Names code)
      (rest : Path code policy (group.leadsTo policy) groups last) :
      Path code policy group.pc (group :: groups) last

theorem Path.concat {code : Memory .code} {policy : InvalidInstructionPolicy} {first : Word}
    {groups : List Group} {group : Group} (path : Path code policy first groups group.pc)
    (names : group.Names code) :
    Path code policy first (groups ++ [group]) (group.leadsTo policy) := by
  -- The induction needs the end of the path to be a variable.
  generalize middleEq : group.pc = middle at path
  induction path with
  | nil pc =>
      subst middleEq
      exact .cons names (.nil _)
  | cons firstNames rest induction => exact .cons firstNames (induction middleEq)

namespace Simulator

variable {simulator : Simulator}

theorem code_step (simulator : Simulator) :
    simulator.step.simulator.machine.code = simulator.machine.code := by
  rcases simulator.simulator_step_cases with stays | ⟨effects, commits⟩
  · rw [stays]
  · rw [commits]
    rfl

theorem code_iteration (simulator : Simulator) :
    simulator.iteration.machine.code = simulator.machine.code := by
  unfold iteration
  split
  · exact simulator.code_step
  · exact simulator.code_step

/-- No program changes its own code. -/
theorem code_iterate (simulator : Simulator) (count : Nat) :
    (iteration^[count] simulator).machine.code = simulator.machine.code := by
  induction count with
  | zero => rfl
  | succ count induction =>
      rw [Function.iterate_succ_apply', code_iteration, induction]

/-- A step that executed an instruction is followed by the next one unless it
ends the run. -/
theorem iteration_of_executed {status : Status}
    (resultEq : simulator.step.result = .executed status) :
    simulator.iteration = simulator.step.simulator ∧ (¬ simulator.Terminal → status = .ok) := by
  have skippedEq : simulator.skipped? = none := by rw [skipped?, resultEq]
  constructor
  · rw [iteration, skippedEq]
  · intro goesOn
    by_contra statusNe
    refine goesOn ⟨skippedEq, ?_⟩
    rw [resultEq]
    exact fun reportedEq => statusNe (Except.ok.inj reportedEq)

/-- What one step contributes to a trace. -/
structure Contributes (simulator : Simulator) (status : Status) (group : Group) : Prop where
  events : simulator.step.events = group.events
  pc : group.pc = simulator.pc
  names : group.Names simulator.machine.code
  status : group.status = status
  leads : simulator.iteration.pc = group.leadsTo simulator.config.invalidInstruction
  goesOn : ¬ simulator.Terminal → group.GoesOn simulator.config.invalidInstruction

theorem contributes_of_failure {failure : DecodeFailure}
    (fetchedEq : simulator.fetched = .error failure) :
    Contributes simulator .invalidInstruction
      (.failed simulator.pc failure.error failure.skip) := by
  have stepEq := step_of_failure fetchedEq
  have skippedEq : simulator.skipped? =
      if simulator.config.invalidInstruction = .resync ∧ 0 < failure.skip then
        some failure.skip
      else
        none := by
    rw [skipped?, stepEq]
  constructor
  · rw [stepEq]
    rfl
  · rfl
  · exact ⟨failure, fetchedEq, rfl, rfl⟩
  · rfl
  · by_cases resumes : simulator.config.invalidInstruction = .resync ∧ 0 < failure.skip
    · rw [if_pos resumes] at skippedEq
      simp [iteration, skippedEq, stepEq, Group.leadsTo, resumes, setPc, pc, BitVec.ofNat_add]
    · rw [if_neg resumes] at skippedEq
      rw [iteration, skippedEq, stepEq, Group.leadsTo, if_neg resumes]
  · intro goesOn
    by_contra stops
    refine goesOn ⟨skippedEq.trans (if_neg stops), ?_⟩
    rw [stepEq]
    simp [StepResult.status]

theorem contributes_of_executed {instruction : Instruction}
    (fetchedEq : simulator.fetched = .ok instruction) {status : Status}
    (resultEq : simulator.step.result = .executed status)
    (eventsEq : simulator.step.events =
      [simulator.startOf instruction,
        .retired simulator.pc simulator.step.simulator.pc status]) :
    Contributes simulator status
      (.executed simulator.pc instruction.opcode instruction.size simulator.step.simulator.pc
        status) := by
  obtain ⟨iterationEq, goesOn⟩ := iteration_of_executed resultEq
  constructor
  · exact eventsEq
  · rfl
  · exact ⟨instruction, fetchedEq, rfl, rfl⟩
  · rfl
  · rw [iterationEq]
    rfl
  · exact goesOn

/-- The events of a step that was not abandoned are one group. -/
theorem exists_contributes {status : Status}
    (statusEq : simulator.step.result.status = .ok status) :
    ∃ group, Contributes simulator status group := by
  cases fetchedEq : simulator.fetched with
  | error failure =>
      rw [step_of_failure fetchedEq] at statusEq
      cases statusEq
      exact ⟨_, contributes_of_failure fetchedEq⟩
  | ok instruction =>
      by_cases conditional : instruction.operation.IsConditionalJump
      · have stepEq := step_of_conditionalJump fetchedEq conditional
        cases policyEq : simulator.config.unknownOpcode with
        | trap =>
            rw [policyEq] at stepEq
            rw [stepEq] at statusEq
            cases statusEq
            refine ⟨_, contributes_of_executed fetchedEq ?_ ?_⟩
            · rw [stepEq]
            · rw [stepEq]
        | abort =>
            rw [stepEq, policyEq] at statusEq
            cases statusEq
      · obtain ⟨outcome, effects, _, _, stepEq⟩ := step_of_meaningful fetchedEq conditional
        rw [stepEq] at statusEq
        cases statusEq
        refine ⟨_, contributes_of_executed fetchedEq ?_ ?_⟩
        · rw [stepEq]
        · rw [stepEq]

theorem status_of_not_terminal (goesOn : ¬ simulator.Terminal) :
    ∃ status, simulator.step.result.status = .ok status := by
  by_contra abandoned
  push Not at abandoned
  refine goesOn ⟨?_, abandoned .ok⟩
  unfold skipped?
  cases resultEq : simulator.step.result with
  | executed status => rfl
  | aborted error => rfl
  | undecodable failure =>
      rw [resultEq] at abandoned
      exact absurd rfl (abandoned .invalidInstruction)

/-- The groups of iterations that a run goes on after. -/
structure Tells (origin : Simulator) (count : Nat) (groups : List Group) : Prop where
  length : groups.length = count
  events : origin.history count = groups.flatMap Group.events
  path : Path origin.machine.code origin.config.invalidInstruction origin.pc groups
    (iteration^[count] origin).pc

theorem Tells.concat {origin : Simulator} {count : Nat} {groups : List Group}
    (tells : Tells origin count groups) {status : Status} {group : Group}
    (contributes : Contributes (iteration^[count] origin) status group) :
    Tells origin (count + 1) (groups ++ [group]) := by
  have codeEq := origin.code_iterate count
  have configEq := origin.config_iterate count
  have path := tells.path
  have names := contributes.names
  rw [codeEq] at names
  rw [← contributes.pc] at path
  constructor
  · rw [List.length_append, tells.length, List.length_singleton]
  · rw [history_succ, tells.events, contributes.events, List.flatMap_append]
    simp
  · rw [Function.iterate_succ_apply', contributes.leads, configEq]
    exact path.concat names

theorem exists_tells {origin : Simulator} {count : Nat}
    (goesOn : ∀ index < count, ¬ (iteration^[index] origin).Terminal) :
    ∃ groups, Tells origin count groups ∧
      ∀ group ∈ groups, group.GoesOn origin.config.invalidInstruction := by
  induction count with
  | zero => exact ⟨[], ⟨rfl, rfl, .nil _⟩, by simp⟩
  | succ count induction =>
      obtain ⟨groups, tells, allGoOn⟩ := induction
        fun index indexLt => goesOn index (Nat.lt_succ_of_lt indexLt)
      have lastGoesOn := goesOn count (Nat.lt_succ_self count)
      obtain ⟨status, statusEq⟩ := status_of_not_terminal lastGoesOn
      obtain ⟨group, contributes⟩ := exists_contributes statusEq
      refine ⟨groups ++ [group], tells.concat contributes, ?_⟩
      intro other member
      rcases List.mem_append.mp member with earlier | last
      · exact allGoOn other earlier
      · rw [List.mem_singleton.mp last, ← origin.config_iterate count]
        exact contributes.goesOn lastGoesOn

end Simulator

/-- A run that hands its events to a watcher instead of keeping them. -/
structure Watched (Watcher : Type) where
  simulator : Simulator
  steps : Nat
  watcher : Watcher
  stop : Option Stop

section Watchers

variable {Watcher : Type} (notify : Watcher → Event → Watcher)

namespace Watched

def advance (watched : Watched Watcher) : Watched Watcher :=
  let step := watched.simulator.step
  let (next, stop) := step.proceed
  ⟨next, watched.steps + 1, step.events.foldl notify watched.watcher, stop⟩

def continueFor : Nat → Watched Watcher → Watched Watcher
  | 0, watched => watched
  | budget + 1, watched =>
      if watched.stop.isSome then watched else continueFor budget (watched.advance notify)

/-- What the run reports, unless the simulation was abandoned. -/
def outcome (watched : Watched Watcher) : Except Unsupported RunOutcome :=
  match watched.stop with
  | none => .ok ⟨watched.steps, .ok⟩
  | some (.status status) => .ok ⟨watched.steps, status⟩
  | some (.aborted error) => .error error

end Watched

/-- The watched run under the configured budget, or followed for `fuel` steps. -/
def Simulator.watch? (simulator : Simulator) (watcher : Watcher) (fuel : Nat) :
    Option (Watched Watcher) :=
  let within (budget : Nat) := Watched.continueFor notify budget ⟨simulator, 0, watcher, none⟩
  match simulator.config.maxSteps with
  | some budget => some (within budget)
  | none => if (within fuel).stop.isSome then some (within fuel) else none

/-- The run as a watcher of its events sees it. -/
def Run.watchedBy (run : Run) (watcher : Watcher) : Watched Watcher :=
  ⟨run.simulator, run.steps, run.events.toList.foldl notify watcher, run.stop⟩

theorem watchedBy_advance (run : Run) (watcher : Watcher) :
    run.advance.watchedBy notify watcher = (run.watchedBy notify watcher).advance notify := by
  simp [Run.advance, Run.watchedBy, Watched.advance, List.foldl_append]

theorem watchedBy_continueFor (run : Run) (watcher : Watcher) (budget : Nat) :
    (run.continueFor budget).watchedBy notify watcher =
      (run.watchedBy notify watcher).continueFor notify budget := by
  induction budget generalizing run with
  | zero => rfl
  | succ budget induction =>
      rw [Run.continueFor, Watched.continueFor]
      cases stopEq : run.stop with
      | none =>
          have going : (run.watchedBy notify watcher).stop = none := stopEq
          rw [going, if_neg (by simp), if_neg (by simp), induction, watchedBy_advance]
      | some stop =>
          have stopped : (run.watchedBy notify watcher).stop = some stop := stopEq
          rw [stopped, if_pos (by simp), if_pos (by simp)]

/-- Watching a run changes nothing about it. -/
theorem watch?_eq (origin : Simulator) (watcher : Watcher) (fuel : Nat) :
    origin.watch? notify watcher fuel =
      (origin.run? fuel).map fun run => run.watchedBy notify watcher := by
  have withinEq (budget : Nat) :
      Watched.continueFor notify budget ⟨origin, 0, watcher, none⟩ =
        (origin.runWithin budget).watchedBy notify watcher :=
    (watchedBy_continueFor notify (Run.start origin) watcher budget).symm
  unfold Simulator.watch? Simulator.run?
  cases maxEq : origin.config.maxSteps with
  | some budget => simp only [withinEq, Option.map_some]
  | none =>
      simp only [withinEq]
      rw [apply_ite (Option.map _)]
      rfl

end Watchers

namespace Simulator

/-- Groups that account for a run: they are its events, they lead from its
first program counter to its last, and only the last one can have ended it. -/
structure IsTrace (origin : Simulator) (run : Run) (outcome : RunOutcome)
    (groups : List Group) : Prop where
  length : groups.length = outcome.steps
  events : run.events.toList = groups.flatMap Group.events
  path : Path origin.machine.code origin.config.invalidInstruction origin.pc groups
    run.simulator.pc
  goesOn : ∀ group ∈ groups.dropLast, group.GoesOn origin.config.invalidInstruction
  exhausted : outcome.status = .ok →
    ∀ group ∈ groups, group.GoesOn origin.config.invalidInstruction
  last : outcome.status ≠ .ok → ∃ group, groups.getLast? = some group ∧
    group.status = outcome.status

theorem exists_isTrace {origin : Simulator} {fuel : Nat} {run : Run} {outcome : RunOutcome}
    (ran : origin.run? fuel = some run) (outcomeEq : run.outcome = .ok outcome) :
    ∃ groups, IsTrace origin run outcome groups := by
  cases traces_of_run? ran with
  | running steps events eventsEq goesOn =>
      cases outcomeEq
      obtain ⟨groups, tells, allGoOn⟩ := exists_tells goesOn
      refine ⟨groups, tells.length, eventsEq.trans tells.events, tells.path, ?_, ?_, ?_⟩
      · intro group member
        exact allGoOn group ((List.dropLast_sublist groups).subset member)
      · intro _
        exact allGoOn
      · intro statusNe
        exact absurd rfl statusNe
  | ended earlier events stop eventsEq goesOn ends stopEq =>
      obtain ⟨groups, tells, allGoOn⟩ := exists_tells goesOn
      cases stop with
      | aborted error => cases outcomeEq
      | status reported =>
          cases outcomeEq
          obtain ⟨group, contributes⟩ := exists_contributes stopEq.symm
          have whole := tells.concat contributes
          refine ⟨groups ++ [group], whole.length, eventsEq.trans whole.events, whole.path,
            ?_, ?_, ?_⟩
          · rw [List.dropLast_concat]
            exact allGoOn
          · rintro rfl
            exact absurd stopEq.symm ends.2
          · intro _
            exact ⟨group, List.getLast?_concat, contributes.status⟩

/-- The events of a run are a path of groups through code memory, and no watcher
of the events changes the outcome, the machine or the console. -/
theorem trace_is_path (origin : Simulator) (fuel : Nat) (run : Run) (outcome : RunOutcome)
    (ran : origin.run? fuel = some run) (outcomeEq : run.outcome = .ok outcome) :
    (∃ groups, IsTrace origin run outcome groups) ∧
    ∀ (Watcher : Type) (notify : Watcher → Event → Watcher) (watcher : Watcher),
      ∃ watched, origin.watch? notify watcher fuel = some watched ∧
        watched.outcome = .ok outcome ∧ watched.simulator = run.simulator ∧
        watched.watcher = run.events.toList.foldl notify watcher := by
  constructor
  · exact exists_isTrace ran outcomeEq
  · intro Watcher notify watcher
    refine ⟨run.watchedBy notify watcher, ?_, ?_, rfl, rfl⟩
    · rw [watch?_eq, ran, Option.map_some]
    · rw [← outcomeEq]
      rfl

/-- A run that skips one word, wraps around and ends at a breakpoint, seen by a
watcher that counts events. -/
theorem trace_is_path_over_skipped_word :
    let origin := ((create { invalidInstruction := .resync }).writeCode 0x1FFFD 0xE0).setPc 0xFFFE
    let count : Nat → Event → Nat := fun seen _ => seen + 1
    ∃ run, origin.run? 2 = some run ∧ run.outcome = .ok ⟨2, .breakpoint⟩ ∧
      (∃ groups, IsTrace origin run ⟨2, .breakpoint⟩ groups) ∧
      ∃ watched, origin.watch? count 0 2 = some watched ∧
        watched.outcome = .ok ⟨2, .breakpoint⟩ ∧ watched.simulator = run.simulator ∧
        watched.watcher = run.events.toList.foldl count 0 := by
  intro origin count
  have fails : origin.Undecodable := by
    refine ⟨⟨.noMatchingEncoding, 2, 0x1FFFC⟩, ?_⟩
    change origin.machine.code.fetch 0xFFFE = _
    rw [Memory.fetch_eq_decode _ (by decide)]
    simp [origin, setPc, writeCode, create, Machine.zero, Memory.read_write, Space.size]
    decide +kernel
  have lastEq : (origin.setPc 0xFFFF).fetched =
      .ok ⟨⟨.short, .nop, rfl⟩, .nop 0 0⟩ := by
    change origin.machine.code.fetch 0xFFFF = _
    rw [Memory.fetch_last]
    simp [origin, setPc, writeCode, create, Machine.zero, Memory.read_write, Space.size]
    decide +kernel
  have goesOn : ¬ origin.Terminal ∧ origin.iteration = origin.setPc 0xFFFF := by
    rcases iteration_of_undecodable rfl fails with ⟨last, _, _⟩ | ⟨_, goesOn, nextEq⟩
    · exact absurd last (by decide)
    · exact ⟨goesOn, nextEq⟩
  have resultEq : (iteration^[1] origin).step.result = .executed .breakpoint := by
    obtain ⟨outcome, effects, _, executeEq, stepEq⟩ :=
      step_of_meaningful lastEq (by simp [Operation.IsConditionalJump])
    cases executeEq
    rw [Function.iterate_one, goesOn.2, stepEq]
    rfl
  have ends : (iteration^[1] origin).Terminal := by
    rw [Terminal, skipped?, resultEq]
    exact ⟨rfl, by decide⟩
  have statusEq : (iteration^[1] origin).step.result.status = .ok .breakpoint :=
    congrArg StepResult.status resultEq
  have earlierGoOn (index : Nat) (indexLt : index < 1) : ¬ (iteration^[index] origin).Terminal := by
    obtain rfl := Nat.lt_one_iff.mp indexLt
    exact goesOn.1
  obtain ⟨run, ran, outcomeEq, _⟩ :=
    run?_of_first_terminal rfl earlierGoOn ends statusEq Nat.one_lt_two
  obtain ⟨traced, watched⟩ := trace_is_path origin 2 run _ ran outcomeEq
  exact ⟨run, ran, outcomeEq, traced, watched Nat count 0⟩

end Simulator

end Aap
