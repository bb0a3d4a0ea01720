import Aap.Proofs.Failure
import Aap.Proofs.Run
import Mathlib.Data.Nat.Find

/-!
# Resynchronization makes progress

Bytes that do not decode can be skipped everywhere but at the last word of code
memory, because only there less than a long word is left to look at.  A run
that skips therefore moves on by one word at a time, never past the end, and
the distance to the last word is the measure that ends every chain of skips.
-/

namespace Aap

namespace Instruction

/-- With two bytes at hand decoding fails exactly if they are no short word, and
then there is nothing to skip. -/
theorem decode_two (first second : Byte) (address : Nat) :
    (∃ instruction, decode [first, second] address = .ok instruction) ∧
        Encoding.shortOpcode? (Word.ofBytes first second) ≠ none ∨
      decode [first, second] address = .error ⟨.truncated, 0, address⟩ ∧
        Encoding.shortOpcode? (Word.ofBytes first second) = none := by
  have listedIff : ListedShort [first, second] ↔
      Encoding.shortOpcode? (Word.ofBytes first second) ≠ none :=
    listedShort_iff [first, second]
  by_cases listed : ListedShort [first, second]
  · refine .inl ⟨?_, listedIff.mp listed⟩
    cases decodeEq : decode [first, second] address with
    | ok instruction => exact ⟨instruction, rfl⟩
    | error failure =>
        have reason := (decode_eq_error_iff _ _ failure).mp decodeEq
        simp [listed] at reason
  · have unlisted := not_not.mp (mt listedIff.mpr listed)
    refine .inr ⟨(decode_eq_error_iff _ _ _).mpr (.inl ⟨rfl, .inr ⟨?_, listed⟩⟩), unlisted⟩
    simp

end Instruction

namespace Memory

/-- The last word of code. -/
def lastWord (code : Memory .code) : Word :=
  Word.ofBytes (code.read 0x1FFFE) (code.read 0x1FFFF)

theorem slice_of_size_le {space : Space} (memory : Memory space) {first last : Nat}
    (sizeLe : space.size ≤ last) : memory.slice first last = memory.slice first space.size := by
  apply List.ext_getElem?
  intro index
  rw [getElem?_slice, getElem?_slice, Nat.min_eq_right sizeLe, Nat.min_self]

/-- At the last word of code, a fetch sees two bytes. -/
theorem fetch_last (code : Memory .code) :
    code.fetch 0xFFFF =
      Instruction.decode [code.read 0x1FFFE, code.read 0x1FFFF] 0x1FFFE := by
  have addressEq : 2 * (0xFFFF : Word).toNat = 0x1FFFE := by decide
  have sliceEq : code.slice 0x1FFFE (0x1FFFE + 4) =
      [code.read 0x1FFFE, code.read (0x1FFFE + 1)] := by
    have sizeEq : Space.code.size = 0x1FFFE + 2 := by decide
    rw [code.slice_of_size_le (by decide), sizeEq, code.slice_eq_map (Nat.le_of_eq sizeEq.symm)]
    rfl
  rw [fetch, addressEq, sliceEq]

/-- A fetch succeeds, or fails before the last word with a word to skip, or
fails at the last word with nothing to skip. -/
theorem fetch_cases (code : Memory .code) (pc : Word) :
    ((∃ instruction, code.fetch pc = .ok instruction) ∧
      (pc = 0xFFFF → Encoding.shortOpcode? code.lastWord ≠ none)) ∨
    (∃ failure, code.fetch pc = .error failure ∧ failure.skip = 2 ∧ pc.toNat ≤ 0xFFFE) ∨
    ∃ failure, code.fetch pc = .error failure ∧ failure.skip = 0 ∧ pc = 0xFFFF ∧
      Encoding.shortOpcode? code.lastWord = none := by
  by_cases last : pc = 0xFFFF
  · subst last
    rw [fetch_last, lastWord]
    rcases Instruction.decode_two (code.read 0x1FFFE) (code.read 0x1FFFF) 0x1FFFE with
      ⟨decoded, listed⟩ | ⟨failed, unlisted⟩
    · exact .inl ⟨decoded, fun _ => listed⟩
    · exact .inr (.inr ⟨_, failed, rfl, rfl, unlisted⟩)
  · have pcLe : pc.toNat ≤ 0xFFFE := by
      have pcNe : pc.toNat ≠ 0xFFFF := fun toNatEq => last (BitVec.eq_of_toNat_eq toNatEq)
      omega
    cases fetchEq : code.fetch pc with
    | ok instruction => exact .inl ⟨⟨instruction, rfl⟩, fun atLast => absurd atLast last⟩
    | error failure =>
        refine .inr (.inl ⟨failure, rfl, ?_, pcLe⟩)
        rw [fetch_eq_decode code (by omega)] at fetchEq
        exact Instruction.skip_of_decode fetchEq (by simp)

theorem fetch_fails_without_skip_iff (code : Memory .code) (pc : Word) :
    (∃ failure, code.fetch pc = .error failure ∧ failure.skip = 0) ↔
      pc = 0xFFFF ∧ Encoding.shortOpcode? code.lastWord = none := by
  rcases code.fetch_cases pc with ⟨⟨instruction, fetchEq⟩, listed⟩ |
    ⟨failure, fetchEq, skipEq, pcLe⟩ | ⟨failure, fetchEq, skipEq, last, unlisted⟩
  · simpa [fetchEq] using listed
  · refine iff_of_false (by simp [fetchEq, skipEq]) ?_
    rintro ⟨rfl, _⟩
    exact absurd pcLe (by decide)
  · exact iff_of_true ⟨failure, fetchEq, skipEq⟩ ⟨last, unlisted⟩

theorem skip_of_fetch (code : Memory .code) {pc : Word} {failure : DecodeFailure}
    (failed : code.fetch pc = .error failure) (skips : failure.skip ≠ 0) :
    failure.skip = 2 ∧ pc.toNat ≤ 0xFFFE := by
  rcases code.fetch_cases pc with ⟨⟨instruction, fetchEq⟩, _⟩ |
    ⟨found, fetchEq, skipEq, pcLe⟩ | ⟨found, fetchEq, skipEq, _, _⟩
  · cases fetchEq.symm.trans failed
  · cases fetchEq.symm.trans failed
    exact ⟨skipEq, pcLe⟩
  · cases fetchEq.symm.trans failed
    exact absurd skipEq skips

end Memory

namespace Simulator

variable {simulator : Simulator}

/-- The bytes at the program counter do not decode. -/
def Undecodable (simulator : Simulator) : Prop :=
  ∃ failure, simulator.fetched = .error failure

@[simp]
theorem pc_setPc (simulator : Simulator) (pc : Word) : (simulator.setPc pc).pc = pc := rfl

@[simp]
theorem setPc_setPc (simulator : Simulator) (first second : Word) :
    (simulator.setPc first).setPc second = simulator.setPc second := rfl

@[simp]
theorem setPc_pc (simulator : Simulator) : simulator.setPc simulator.pc = simulator := rfl

/-- Under the resynchronizing policy a failing step at the last word ends a
run where it is, and any other one moves it on by a word. -/
theorem iteration_of_undecodable (policyEq : simulator.config.invalidInstruction = .resync)
    (fails : simulator.Undecodable) :
    (simulator.pc = 0xFFFF ∧ simulator.Terminal ∧ simulator.iteration = simulator) ∨
      (simulator.pc.toNat ≤ 0xFFFE ∧ ¬ simulator.Terminal ∧
        simulator.iteration = simulator.setPc (simulator.pc + 1)) := by
  obtain ⟨failure, fetchedEq⟩ := fails
  have stepEq := step_of_failure fetchedEq
  by_cases skips : failure.skip = 0
  · have last := ((simulator.machine.code.fetch_fails_without_skip_iff simulator.pc).mp
      ⟨failure, fetchedEq, skips⟩).1
    have skippedEq : simulator.skipped? = none := by
      simp [skipped?, stepEq, skips]
    refine .inl ⟨last, ⟨skippedEq, ?_⟩, ?_⟩
    · simp [stepEq, StepResult.status]
    · simp [iteration, skippedEq, stepEq]
  · obtain ⟨skipEq, pcLe⟩ := simulator.machine.code.skip_of_fetch fetchedEq skips
    have skippedEq : simulator.skipped? = some 2 := by
      simp [skipped?, stepEq, policyEq, skipEq]
    refine .inr ⟨pcLe, ?_, ?_⟩
    · rintro ⟨noSkip, _⟩
      cases noSkip.symm.trans skippedEq
    · simp only [iteration, skippedEq, stepEq]
      congr 1

theorem toNat_pc_add {pc : Word} {count : Nat} (inside : pc.toNat + count ≤ 0xFFFF) :
    (pc + BitVec.ofNat 16 count).toNat = pc.toNat + count := by
  rw [BitVec.toNat_add, BitVec.toNat_ofNat]
  omega

section Chains

variable {origin : Simulator} (policyEq : origin.config.invalidInstruction = .resync)

include policyEq

/-- A chain of skips is a walk along code memory. -/
theorem iterate_of_undecodable {count : Nat}
    (fails : ∀ index < count, (iteration^[index] origin).Undecodable)
    (goesOn : ∀ index < count, ¬ (iteration^[index] origin).Terminal) :
    origin.pc.toNat + count ≤ 0xFFFF ∧
      iteration^[count] origin = origin.setPc (origin.pc + BitVec.ofNat 16 count) := by
  -- The bound belongs to the induction: it keeps the program counter from wrapping.
  induction count with
  | zero =>
      have pcLt := origin.pc.isLt
      refine ⟨by omega, ?_⟩
      simp
  | succ count induction =>
      obtain ⟨inside, iterateEq⟩ := induction
        (fun index indexLt => fails index (Nat.lt_succ_of_lt indexLt))
        (fun index indexLt => goesOn index (Nat.lt_succ_of_lt indexLt))
      have lastPolicy : (iteration^[count] origin).config.invalidInstruction = .resync := by
        rw [config_iterate, policyEq]
      rcases iteration_of_undecodable lastPolicy (fails count (Nat.lt_succ_self count)) with
        ⟨_, terminal, _⟩ | ⟨pcLe, _, nextEq⟩
      · exact absurd terminal (goesOn count (Nat.lt_succ_self count))
      · rw [iterateEq, pc_setPc, toNat_pc_add inside] at pcLe
        refine ⟨by omega, ?_⟩
        rw [Function.iterate_succ_apply', nextEq, iterateEq, pc_setPc, setPc_setPc,
          BitVec.ofNat_add, ← BitVec.add_assoc]
        rfl

/-- The distance to the last word bounds a chain of failing steps. -/
theorem length_of_chain {count : Nat}
    (fails : ∀ index < count, (iteration^[index] origin).Undecodable)
    (goesOn : ∀ index, index + 1 < count → ¬ (iteration^[index] origin).Terminal) :
    count ≤ 65536 - origin.pc.toNat := by
  cases count with
  | zero => exact Nat.zero_le _
  | succ count =>
      -- The last step may be the one that ends the run, so it is left out.
      have inside := (iterate_of_undecodable policyEq
        (fun index indexLt => fails index (Nat.lt_succ_of_lt indexLt))
        (fun index indexLt => goesOn index (Nat.succ_lt_succ indexLt))).1
      omega

/-- A chain of skips leads to an instruction or to a last word that ends it. -/
theorem exists_end_of_chain :
    ∃ count, origin.pc.toNat + count ≤ 0xFFFF ∧
      (∀ index < count, (iteration^[index] origin).Undecodable ∧
        ¬ (iteration^[index] origin).Terminal) ∧
      ((∃ instruction, (iteration^[count] origin).fetched = .ok instruction) ∨
        (iteration^[count] origin).pc = 0xFFFF ∧ (iteration^[count] origin).Undecodable ∧
          (iteration^[count] origin).Terminal) := by
  have stops : ∃ index, ¬ ((iteration^[index] origin).Undecodable ∧
      ¬ (iteration^[index] origin).Terminal) := by
    -- Otherwise the chain would be longer than code memory.
    by_contra never
    push Not at never
    have inside := (iterate_of_undecodable policyEq
      (fun index (_ : index < 65536) => (never index).1) (fun index _ => (never index).2)).1
    omega
  classical
  let count := Nat.find stops
  have skips : ∀ index < count, (iteration^[index] origin).Undecodable ∧
      ¬ (iteration^[index] origin).Terminal := by
    intro index indexLt
    exact not_not.mp (Nat.find_min stops indexLt)
  have inside := (iterate_of_undecodable policyEq
    (fun index indexLt => (skips index indexLt).1)
    (fun index indexLt => (skips index indexLt).2)).1
  refine ⟨count, inside, skips, ?_⟩
  have ends := Nat.find_spec stops
  cases fetchedEq : (iteration^[count] origin).fetched with
  | ok instruction => exact .inl ⟨instruction, rfl⟩
  | error failure =>
      have lastPolicy : (iteration^[count] origin).config.invalidInstruction = .resync := by
        rw [config_iterate, policyEq]
      have lastFails : (iteration^[count] origin).Undecodable := ⟨failure, fetchedEq⟩
      rcases iteration_of_undecodable lastPolicy lastFails with
        ⟨last, terminal, _⟩ | ⟨_, goesOn, _⟩
      · exact .inr ⟨last, lastFails, terminal⟩
      · exact absurd ⟨lastFails, goesOn⟩ ends

/-- In a run only the last step of a chain of failing steps can end it, so the
distance to the last word bounds the chain. -/
theorem length_of_chain_in_run {fuel : Nat} {run : Run}
    (ran : origin.run? fuel = some run) {first count : Nat} (inside : first + count ≤ run.steps)
    (fails : ∀ index < count, (iteration^[first + index] origin).Undecodable) :
    count ≤ 65536 - (iteration^[first] origin).pc.toNat := by
  have shift (index : Nat) :
      iteration^[index] (iteration^[first] origin) = iteration^[first + index] origin := by
    rw [← Function.iterate_add_apply, Nat.add_comm]
  have firstPolicy : (iteration^[first] origin).config.invalidInstruction = .resync := by
    rw [config_iterate, policyEq]
  apply length_of_chain firstPolicy
  · intro index indexLt
    rw [shift]
    exact fails index indexLt
  · intro index indexLt
    rw [shift]
    exact goesOn_of_run? ran (first + index) (by omega)

/-- A run that reports bytes that do not decode has come to the last word. -/
theorem pc_of_invalidInstruction {fuel : Nat} {run : Run} {outcome : RunOutcome}
    (ran : origin.run? fuel = some run) (outcomeEq : run.outcome = .ok outcome)
    (invalid : outcome.status = .invalidInstruction) : run.simulator.pc = 0xFFFF := by
  have accounts := accounts_of_run? ran outcomeEq
  obtain ⟨positive, terminal, statusEq⟩ := accounts.reported (by simp [invalid])
  rw [invalid] at statusEq
  have lastPolicy :
      (iteration^[outcome.steps - 1] origin).config.invalidInstruction = .resync := by
    rw [config_iterate, policyEq]
  have stepsEq : outcome.steps = outcome.steps - 1 + 1 := by omega
  rw [accounts.simulator, stepsEq, Function.iterate_succ_apply']
  rcases iteration_of_undecodable lastPolicy (status_step_eq_invalidInstruction_iff.mp statusEq)
    with ⟨last, _, stays⟩ | ⟨_, goesOn, _⟩
  · rw [stays, last]
  · exact absurd terminal goesOn

end Chains

/-- Where nothing decodes any more, a run walks to the last word and stops. -/
theorem run?_of_undecodable {origin : Simulator}
    (policyEq : origin.config.invalidInstruction = .resync)
    (maxEq : origin.config.maxSteps = none)
    (barren : ∀ pc : Word, origin.pc.toNat ≤ pc.toNat →
      ∃ failure, origin.machine.code.fetch pc = .error failure)
    {fuel : Nat} (fuelLe : 65536 - origin.pc.toNat ≤ fuel) :
    ∃ run, origin.run? fuel = some run ∧
      run.outcome = .ok ⟨65536 - origin.pc.toNat, .invalidInstruction⟩ ∧
      run.simulator = origin.setPc 0xFFFF := by
  obtain ⟨count, inside, skips, ends⟩ := exists_end_of_chain policyEq
  have iterateEq := (iterate_of_undecodable policyEq
    (fun index indexLt => (skips index indexLt).1)
    (fun index indexLt => (skips index indexLt).2)).2
  have fails : (iteration^[count] origin).Undecodable := by
    rw [iterateEq]
    apply barren
    rw [pc_setPc, toNat_pc_add inside]
    omega
  rcases ends with ⟨instruction, fetchedEq⟩ | ⟨last, _, terminal⟩
  · obtain ⟨failure, failedEq⟩ := fails
    cases fetchedEq.symm.trans failedEq
  · have countEq : 65536 - origin.pc.toNat = count + 1 := by
      have lastEq := congrArg BitVec.toNat last
      rw [iterateEq, pc_setPc, toNat_pc_add inside] at lastEq
      change _ = 0xFFFF at lastEq
      omega
    have statusEq := status_step_eq_invalidInstruction_iff.mpr fails
    have countLt : count < fuel := by omega
    obtain ⟨run, ran, outcomeEq, simulatorEq⟩ :=
      run?_of_first_terminal maxEq (fun index indexLt => (skips index indexLt).2) terminal
        statusEq countLt
    refine ⟨run, ran, countEq ▸ outcomeEq, ?_⟩
    have stays := iteration_eq_self terminal (.inr statusEq)
    rw [simulatorEq, Function.iterate_succ_apply', stays, iterateEq]
    rw [iterateEq, pc_setPc] at last
    rw [last]

/-- How a run that skips moves on. -/
structure Resynchronizes (origin : Simulator) : Prop where
  skips : ∀ failure, origin.fetched = .error failure → failure.skip ≠ 0 →
    origin.iteration = origin.setPc (origin.pc + 1) ∧
      (origin.pc + 1).toNat = origin.pc.toNat + 1
  ends : ∃ count, origin.pc.toNat + count ≤ 0xFFFF ∧
    (∀ index < count, (iteration^[index] origin).Undecodable ∧
      ¬ (iteration^[index] origin).Terminal) ∧
    ((∃ instruction, (iteration^[count] origin).fetched = .ok instruction) ∨
      (iteration^[count] origin).pc = 0xFFFF ∧ (iteration^[count] origin).Undecodable ∧
        (iteration^[count] origin).Terminal)
  bounded : ∀ fuel run, origin.run? fuel = some run →
    ∀ first count, first + count ≤ run.steps →
      (∀ index < count, (iteration^[first + index] origin).Undecodable) →
      count ≤ 65536 - (iteration^[first] origin).pc.toNat
  invalid : ∀ fuel run outcome, origin.run? fuel = some run → run.outcome = .ok outcome →
    outcome.status = .invalidInstruction → run.simulator.pc = 0xFFFF
  barren : origin.config.maxSteps = none →
    (∀ pc : Word, origin.pc.toNat ≤ pc.toNat →
      ∃ failure, origin.machine.code.fetch pc = .error failure) →
    ∀ fuel, 65536 - origin.pc.toNat ≤ fuel →
      ∃ run, origin.run? fuel = some run ∧
        run.outcome = .ok ⟨65536 - origin.pc.toNat, .invalidInstruction⟩ ∧
        run.simulator = origin.setPc 0xFFFF

/-- A fetch leaves nothing to skip only at the end of code memory, so runs that
skip always move on and stop at that end only. -/
theorem resync_reaches_end :
    (∀ (code : Memory .code) (pc : Word),
      ((∃ failure, code.fetch pc = .error failure ∧ failure.skip = 0) ↔
        pc = 0xFFFF ∧ Encoding.shortOpcode? code.lastWord = none) ∧
      ∀ failure, code.fetch pc = .error failure → failure.skip ≠ 0 →
        failure.skip = 2 ∧ pc.toNat ≤ 0xFFFE) ∧
    ∀ origin : Simulator, origin.config.invalidInstruction = .resync →
      Resynchronizes origin := by
  constructor
  · intro code pc
    exact ⟨code.fetch_fails_without_skip_iff pc, fun failure => code.skip_of_fetch⟩
  · intro origin policyEq
    constructor
    · intro failure fetchedEq skips
      have pcLe := (origin.machine.code.skip_of_fetch fetchedEq skips).2
      rcases iteration_of_undecodable policyEq ⟨failure, fetchedEq⟩ with
        ⟨last, _, _⟩ | ⟨_, _, nextEq⟩
      · change origin.pc.toNat ≤ _ at pcLe
        rw [last] at pcLe
        exact absurd pcLe (by decide)
      · have inside : origin.pc.toNat + 1 ≤ 0xFFFF := Nat.succ_le_succ pcLe
        exact ⟨nextEq, toNat_pc_add inside⟩
    · exact exists_end_of_chain policyEq
    · intro fuel run ran first count inside fails
      exact length_of_chain_in_run policyEq ran inside fails
    · intro fuel run outcome ran outcomeEq invalid
      exact pc_of_invalidInstruction policyEq ran outcomeEq invalid
    · intro maxEq barren fuel fuelLe
      exact run?_of_undecodable policyEq maxEq barren fuelLe

/-- Two words of the class without instructions at the end of code memory. -/
theorem resync_reaches_end_from_last_words :
    let origin := (((create { invalidInstruction := .resync }).writeCode 0x1FFFD 0xE0).writeCode
      0x1FFFF 0xE0).setPc 0xFFFE
    (origin.config.invalidInstruction = .resync ∧ Resynchronizes origin) ∧
    (∃ failure, origin.fetched = .error failure ∧ failure.skip = 2 ∧ origin.pc.toNat ≤ 0xFFFE) ∧
    origin.iteration = origin.setPc 0xFFFF ∧
    ∃ run, origin.run? 2 = some run ∧ run.outcome = .ok ⟨2, .invalidInstruction⟩ ∧
      run.simulator.pc = 0xFFFF := by
  intro origin
  have beforeEq : origin.fetched = .error ⟨.noMatchingEncoding, 2, 0x1FFFC⟩ := by
    change origin.machine.code.fetch 0xFFFE = _
    rw [Memory.fetch_eq_decode _ (by decide)]
    simp [origin, setPc, writeCode, create, Machine.zero, Memory.read_write, Space.size]
    decide +kernel
  have lastEq : origin.machine.code.fetch 0xFFFF = .error ⟨.truncated, 0, 0x1FFFE⟩ := by
    rw [Memory.fetch_last]
    simp [origin, setPc, writeCode, create, Machine.zero, Memory.read_write, Space.size]
    decide +kernel
  have barren (pc : Word) (pcLe : origin.pc.toNat ≤ pc.toNat) :
      ∃ failure, origin.machine.code.fetch pc = .error failure := by
    change 0xFFFE ≤ pc.toNat at pcLe
    have pcCases : pc = 0xFFFE ∨ pc = 0xFFFF := by
      simp only [← BitVec.toNat_inj]
      change pc.toNat = 0xFFFE ∨ pc.toNat = 0xFFFF
      omega
    rcases pcCases with rfl | rfl
    · exact ⟨_, beforeEq⟩
    · exact ⟨_, lastEq⟩
  have resynchronizes := resync_reaches_end.2 origin rfl
  refine ⟨⟨rfl, resynchronizes⟩, ⟨_, beforeEq, ?_⟩, ?_, ?_⟩
  · exact (resync_reaches_end.1 origin.machine.code origin.pc).2 _ beforeEq (by decide)
  · exact (resynchronizes.skips _ beforeEq (by decide)).1
  · have pcEq : origin.pc.toNat = 0xFFFE := rfl
    obtain ⟨run, ran, outcomeEq, _⟩ := resynchronizes.barren rfl barren 2 (by omega)
    rw [pcEq] at outcomeEq
    exact ⟨run, ran, outcomeEq, resynchronizes.invalid 2 run _ ran outcomeEq rfl⟩

end Simulator

end Aap
