import Aap.Proofs.Image
import Aap.Proofs.Slices

/-!
# Checkpoints in the middle of a run

A machine that is stored and read back is the machine it was.  As a run keeps
nothing besides its machine but what was written, it can be taken up from a
document, by another simulator and on another console.
-/

namespace Aap

namespace Console

/-- What was written earlier, and then what was written later. -/
def append (earlier later : Console) : Console :=
  ⟨earlier.stdout ++ later.stdout, earlier.stderr ++ later.stderr⟩

instance : Append Console := ⟨append⟩

@[simp]
theorem append_empty (console : Console) : console ++ empty = console :=
  Console.ext Array.append_empty Array.append_empty

@[simp]
theorem empty_append (console : Console) : empty ++ console = console :=
  Console.ext Array.empty_append Array.empty_append

theorem put_append (earlier later : Console) (stream : Stream) (byte : Byte) :
    (earlier ++ later).put stream byte = earlier ++ later.put stream byte := by
  cases stream with
  | stdout => exact Console.ext Array.push_append rfl
  | stderr => exact Console.ext rfl Array.push_append

theorem commit_append (earlier later : Console) (effects : Effects) :
    (earlier ++ later).commit effects = earlier ++ later.commit effects := by
  unfold commit
  split
  · exact put_append earlier later _ _
  · rfl

end Console

/-- The run with another console in the end. -/
def Run.withConsole (run : Run) (console : Console) : Run :=
  { run with simulator := { run.simulator with console } }

namespace Simulator

/-- The simulator on a console to which something was written before. -/
def behind (simulator : Simulator) (earlier : Console) : Simulator :=
  { simulator with console := earlier ++ simulator.console }

theorem unnoticed_behind (earlier : Console) :
    Unnoticed fun simulator => simulator.behind earlier := by
  refine ⟨fun _ => rfl, fun _ => rfl, fun _ => rfl, ?_, fun _ _ => rfl⟩
  intro simulator effects
  exact Simulator.ext rfl rfl (Console.commit_append earlier simulator.console effects)

theorem run?_behind (simulator : Simulator) (earlier : Console) (fuel : Nat) :
    (simulator.behind earlier).run? fuel = (simulator.run? fuel).map fun run =>
      run.withConsole (earlier ++ run.simulator.console) := by
  have withinEq (budget : Nat) : (simulator.behind earlier).runWithin budget =
      (simulator.runWithin budget).withConsole
        (earlier ++ (simulator.runWithin budget).simulator.console) :=
    Run.continueFor_of_unnoticed (unnoticed_behind earlier) (Run.start simulator) budget
  have maxEq : (simulator.behind earlier).config.maxSteps = simulator.config.maxSteps := rfl
  unfold run?
  rw [maxEq]
  cases simulator.config.maxSteps with
  | some budget => simp only [withinEq, Option.map_some]
  | none =>
      simp only [withinEq]
      rw [apply_ite (Option.map _)]
      rfl

/-- Another simulator, on a console of its own, does what is left of a whole run. -/
structure Resumes (whole : Simulator) (run : Run) (resumed : Simulator) : Prop where
  ends : ∀ fuel ended, whole.run? fuel = some ended →
    ∃ fuel again, resumed.run? fuel = some again
  shows : ∀ fuel again, resumed.run? fuel = some again →
    ∃ added, again.simulator.console = resumed.console ++ added ∧
      whole.EndsLike ((run.followedBy again).withConsole (run.simulator.console ++ added))

variable (origin : Simulator)

/-- What is left of a run ends if the whole run does. -/
theorem exists_run?_of_going {first : Nat} (going : (origin.runWithin first).stop = none)
    {second : Option Nat} {fuel : Nat} {ended : Run}
    (ran : (origin.withBudget (second.map (first + ·))).run? fuel = some ended) :
    ∃ fuel again, ((origin.runWithin first).simulator.withBudget second).run? fuel =
      some again := by
  cases second with
  | some second => exact ⟨0, _, run?_withBudget_some _ second 0⟩
  | none =>
      rw [Option.map_none, run?_withBudget_none, Option.ite_none_right_eq_some] at ran
      obtain ⟨stopped, _⟩ := ran
      have firstLe : first ≤ fuel := by
        by_contra fuelLt
        rw [origin.runWithin_of_stopped stopped (Nat.le_of_not_le fuelLt)] at going
        rw [going] at stopped
        cases stopped
      obtain ⟨more, rfl⟩ := Nat.exists_eq_add_of_le firstLe
      rw [origin.runWithin_add going] at stopped
      have leftStopped : ((origin.runWithin first).simulator.runWithin more).stop.isSome := stopped
      have ranLeft := run?_withBudget_none (origin.runWithin first).simulator more
      rw [if_pos leftStopped] at ranLeft
      exact ⟨more, _, ranLeft⟩

/-- The resumed run differs from what is left of the whole one by what its console
showed before. -/
theorem resumes_of_going {first : Nat} (going : (origin.runWithin first).stop = none)
    (second : Option Nat) (console : Console) :
    Resumes (origin.withBudget (second.map (first + ·)))
      ((origin.runWithin first).withBudget (some first))
      { config := { origin.config with maxSteps := second }
        machine := (origin.runWithin first).simulator.machine
        console } := by
  let before := (origin.runWithin first).simulator
  let fresh : Simulator :=
    ⟨{ origin.config with maxSteps := second }, before.machine, .empty⟩
  have resumedEq : (⟨{ origin.config with maxSteps := second }, before.machine, console⟩ :
      Simulator) = fresh.behind console :=
    Simulator.ext rfl rfl console.append_empty.symm
  have leftEq : before.withBudget second = fresh.behind before.console := by
    refine Simulator.ext ?_ rfl before.console.append_empty.symm
    rw [withBudget, config_runWithin]
    rfl
  rw [resumedEq]
  constructor
  · intro fuel ended ran
    obtain ⟨fuel, left, ranLeft⟩ := origin.exists_run?_of_going going ran
    rw [leftEq, run?_behind, Option.map_eq_some_iff] at ranLeft
    obtain ⟨rest, ranRest, _⟩ := ranLeft
    exact ⟨fuel, _, by rw [run?_behind, ranRest, Option.map_some]⟩
  · intro fuel again ranAgain
    rw [run?_behind, Option.map_eq_some_iff] at ranAgain
    obtain ⟨rest, ranRest, rfl⟩ := ranAgain
    refine ⟨rest.simulator.console, ?_, ?_⟩
    · rw [← resumedEq]
      rfl
    · have ranLeft : (before.withBudget second).run? fuel =
          some (rest.withConsole (before.console ++ rest.simulator.console)) := by
        rw [leftEq, run?_behind, ranRest, Option.map_some]
      exact endsLike_followedBy origin going ranLeft

end Simulator

namespace Machine

/-- Exactly the documents of valid images are read back, of others the first fault
is reported, and a run goes on from a document as if nothing had happened. -/
theorem checkpoints_are_lossless :
    (∀ (image : MachineImage) (document : Document), image.IsStored document →
      ((∃ machine, Machine.ofDocument document = .ok machine) ↔ image.Valid) ∧
      (∀ machine, Machine.ofDocument document = .ok machine → machine.image = image) ∧
      (¬ image.Valid → ∃ fault, image.faults.head? = some fault ∧
        Machine.ofDocument document = .error (.invalid fault))) ∧
    (∀ document machine, Machine.ofDocument document = .ok machine →
      machine.image.IsStored document) ∧
    (∀ machine : Machine, Machine.ofDocument machine.toDocument = .ok machine) ∧
    ∀ (origin : Simulator) (first fuel : Nat) (run : Run),
      (origin.withBudget (some first)).run? fuel = some run → run.stop = none →
        ∃ machine, Machine.ofDocument run.simulator.machine.toDocument = .ok machine ∧
          ∀ (second : Option Nat) (console : Console),
            (origin.withBudget (second.map (first + ·))).Resumes run
              { config := { origin.config with maxSteps := second }, machine, console } := by
  have roundTrip (machine : Machine) : Machine.ofDocument machine.toDocument = .ok machine :=
    (reads_ofDocument _ _).mpr machine.isStored_toDocument
  refine ⟨?_, ?_, roundTrip, ?_⟩
  · intro image document stored
    have reports := image.reports_restore
    rw [ofDocument_of_isStored stored, ← image.faults_eq_nil_iff]
    cases restored : image.restore with
    | ok machine =>
        rw [restored] at reports
        refine ⟨?_, ?_, ?_⟩
        · exact iff_of_true ⟨machine, rfl⟩ reports
        · rintro other ⟨⟩
          exact MachineImage.image_of_restore restored
        · intro faulty
          exact absurd reports faulty
    | error fault =>
        rw [restored] at reports
        have faulty : image.faults ≠ [] := by
          intro faultless
          rw [Reports, faultless] at reports
          cases reports
        refine ⟨?_, ?_, ?_⟩
        · exact iff_of_false (by simp [Read.checked]) faulty
        · rintro other ⟨⟩
        · intro _
          exact ⟨fault, reports, rfl⟩
  · intro document machine restored
    exact (reads_ofDocument document machine).mp restored
  · intro origin first fuel run ran going
    rw [Simulator.run?_withBudget_some, Option.some.injEq] at ran
    subst ran
    exact ⟨_, roundTrip _, origin.resumes_of_going going⟩

/-- Memories in each other's slots, and a run stored after its first step. -/
theorem checkpoints_are_lossless_if_swapped_and_resumed :
    let swapped := Document.record
      [("arch", Processor.zero.toDocument),
        ("code", (AnyMemory.mk .data (.zero .data)).toDocument),
        ("data", (AnyMemory.mk .code (.zero .code)).toDocument)]
    let origin := (Simulator.create {}).writeCode 0 0x01
    (¬ (∃ machine, Machine.ofDocument swapped = .ok machine) ∧
      Machine.ofDocument swapped = .error (.invalid (.misplaced .code .data))) ∧
    Machine.zero.image.IsStored Machine.zero.toDocument ∧
    ∃ run machine, (origin.withBudget (some 1)).run? 0 = some run ∧ run.steps = 1 ∧
      Machine.ofDocument run.simulator.machine.toDocument = .ok machine ∧
      (origin.withBudget (some 5)).Resumes run ⟨{ maxSteps := some 4 }, machine, .empty⟩ := by
  intro swapped origin
  let image : MachineImage :=
    ⟨Processor.zero.image, (AnyMemory.mk .data (.zero .data)).image,
      (AnyMemory.mk .code (.zero .code)).image⟩
  have stored : image.IsStored swapped :=
    ⟨⟨_, .named rfl, Processor.zero.isStored_toDocument⟩,
      ⟨_, .named rfl, AnyMemory.isStored_toDocument _⟩,
      ⟨_, .named rfl, AnyMemory.isStored_toDocument _⟩⟩
  have faulty : ¬ image.Valid := by
    intro valid
    cases valid.codeSpace
  have faultsEq : image.faults = [.misplaced .code .data, .misplaced .data .code] := by
    simp [image, MachineImage.faults, ProcessorImage.faults, MemoryImage.faults, Space.faultsIn,
      Processor.image, AnyMemory.image]
  obtain ⟨acceptedIff, _, rejected⟩ := checkpoints_are_lossless.1 image swapped stored
  obtain ⟨fault, firstEq, rejectedEq⟩ := rejected faulty
  rw [faultsEq] at firstEq
  cases firstEq
  have zeroStored := checkpoints_are_lossless.2.1 _ _ (checkpoints_are_lossless.2.2.1 zero)
  refine ⟨⟨fun accepted => faulty (acceptedIff.mp accepted), rejectedEq⟩, zeroStored, ?_⟩
  have fetchedEq : origin.fetched = .ok ⟨⟨.short, .nop, rfl⟩, .nop 0 1⟩ := by
    change origin.machine.code.fetch 0 = _
    rw [Memory.fetch_eq_decode _ (by decide)]
    simp [origin, Simulator.writeCode, Simulator.create, Machine.zero, Memory.read_write,
      Space.size]
    decide +kernel
  have goesOn : ¬ origin.Terminal := by
    obtain ⟨_, _, _, executeEq, stepEq⟩ :=
      Simulator.step_of_meaningful fetchedEq (by simp [Operation.IsConditionalJump])
    cases executeEq
    rw [Simulator.terminal_iff_of_executed (congrArg Step.result stepEq)]
    exact fun statusNe => statusNe rfl
  have runEq := Simulator.runWithin_one goesOn
  have ran := Simulator.run?_withBudget_some origin 1 0
  rw [runEq] at ran
  obtain ⟨machine, restored, resumes⟩ :=
    checkpoints_are_lossless.2.2.2 origin 1 0 _ ran rfl
  exact ⟨_, machine, ran, rfl, restored, resumes (some 4) .empty⟩

end Machine

end Aap
