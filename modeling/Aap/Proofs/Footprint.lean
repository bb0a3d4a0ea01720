import Aap.Proofs.Encode
import Aap.Proofs.Layout
import Aap.Proofs.Lockstep
import Aap.Proofs.Trace

/-!
# What a run reads of its code

A fetch that decodes looks at the bytes of the instruction only, and a fetch
that fails at no more than four bytes.  Data accesses never reach code.  So two
code images that agree on these bytes at every step of one of them are the same
to the program: it takes the same steps from either.
-/

namespace Aap

namespace Memory

theorem slice_congr {space : Space} {left right : Memory space} {first count : Nat}
    (readEq : ∀ offset < count, first + offset < space.size →
      right.read (first + offset) = left.read (first + offset)) :
    right.slice first (first + count) = left.slice first (first + count) := by
  apply List.ext_getElem?
  intro index
  rw [getElem?_slice, getElem?_slice]
  by_cases inside : first + index < min (first + count) space.size
  · rw [if_pos inside, if_pos inside, readEq index (by omega) (by omega)]
  · rw [if_neg inside, if_neg inside]

/-- Two code images hold the same bytes where a fetch from the first looks: the
bytes of the instruction, or all bytes in reach if there is none. -/
def AgreeAt (left right : Memory .code) (pc : Word) : Prop :=
  let address := 2 * pc.toNat
  match left.fetch pc with
  | .ok instruction =>
      ∀ offset < instruction.size, right.read (address + offset) = left.read (address + offset)
  | .error _ =>
      ∀ offset < 4, address + offset < Space.code.size →
        right.read (address + offset) = left.read (address + offset)

variable {left right : Memory .code} {pc : Word}

/-- The bytes of an instruction decide that it is fetched. -/
theorem fetch_of_take_size {instruction : Instruction} (fetchEq : left.fetch pc = .ok instruction)
    (readEq : ∀ offset < instruction.size,
      right.read (2 * pc.toNat + offset) = left.read (2 * pc.toNat + offset)) :
    right.fetch pc = .ok instruction := by
  have sizeLe : instruction.size ≤ 4 := by
    rw [instruction.size_eq]
    rcases instruction.words_cases with wordsEq | wordsEq <;> omega
  have takeEq (code : Memory .code) :
      (code.slice (2 * pc.toNat) (2 * pc.toNat + 4)).take instruction.size =
        code.slice (2 * pc.toNat) (2 * pc.toNat + instruction.size) := by
    rw [slice_eq_take_tail, slice_eq_take_tail, List.take_take, Nat.min_eq_left sizeLe]
  have same : right.slice (2 * pc.toNat) (2 * pc.toNat + instruction.size) =
      left.slice (2 * pc.toNat) (2 * pc.toNat + instruction.size) :=
    slice_congr fun offset offsetLt _ => readEq offset offsetLt
  have begins := (Instruction.begins_of_decode fetchEq).take_size
  rw [takeEq, ← same, ← takeEq] at begins
  have decoded := Instruction.decode_of_begins begins (2 * pc.toNat)
  exact Instruction.decode_of_prefix decoded (List.take_prefix _ _) _

theorem fetch_of_agreeAt (agree : left.AgreeAt right pc) : right.fetch pc = left.fetch pc := by
  unfold AgreeAt at agree
  cases fetchEq : left.fetch pc with
  | ok instruction =>
      rw [fetchEq] at agree
      exact fetch_of_take_size fetchEq agree
  | error failure =>
      rw [fetchEq] at agree
      rw [← fetchEq, fetch, fetch, slice_congr agree]

end Memory

namespace Simulator

/-- The simulators differ in code at most. -/
structure SameButCode (left right : Simulator) : Prop where
  config : right.config = left.config
  processor : right.machine.processor = left.machine.processor
  data : right.machine.data = left.machine.data
  console : right.console = left.console

variable {left right : Simulator}

theorem sameButCode_writeCode (simulator : Simulator) (address : Nat) (byte : Byte) :
    SameButCode simulator (simulator.writeCode address byte) :=
  ⟨rfl, rfl, rfl, rfl⟩

namespace SameButCode

theorem pc (same : SameButCode left right) : right.pc = left.pc :=
  congrArg Processor.pc same.processor

theorem stepsLike (same : SameButCode left right)
    (agree : left.machine.code.AgreeAt right.machine.code left.pc) : StepsLike left right := by
  apply stepsLike_of_fetched same.pc (congrArg Config.unknownOpcode same.config)
  · rw [fetched, same.pc]
    exact Memory.fetch_of_agreeAt agree
  · intro operation fallThrough
    exact operation.execute_congr (congrArg Processor.registers same.processor)
      (congrArg Processor.overflow same.processor) same.data left.pc fallThrough

theorem setPc (same : SameButCode left right) (pc : Word) :
    SameButCode (left.setPc pc) (right.setPc pc) := by
  refine ⟨same.config, ?_, same.data, same.console⟩
  simp only [Simulator.setPc, same.processor]

theorem commit (same : SameButCode left right) (effects : Effects) :
    SameButCode (left.commit effects) (right.commit effects) := by
  refine ⟨same.config, ?_, ?_, ?_⟩
  · simp only [Simulator.commit, Machine.commit, same.processor]
  · simp only [Simulator.commit, Machine.commit, same.data]
  · simp only [Simulator.commit, same.console]

theorem iteration (same : SameButCode left right) (like : StepsLike left right) :
    SameButCode left.iteration right.iteration := by
  have policyEq := congrArg Config.invalidInstruction same.config
  rcases like.iteration_cases same.pc policyEq with
    ⟨_, pc, leftEq, rightEq⟩ | ⟨effects, _, leftEq, rightEq⟩
  · rw [leftEq, rightEq]
    exact same.setPc pc
  · rw [leftEq, rightEq]
    exact same.commit effects

end SameButCode

/-- The two code images agree wherever the first simulator looks in so many iterations. -/
def CodeAgrees (left right : Simulator) (count : Nat) : Prop :=
  ∀ index < count,
    left.machine.code.AgreeAt right.machine.code (iteration^[index] left).pc

theorem CodeAgrees.stepsLike {count : Nat} (agrees : CodeAgrees left right count) {index : Nat}
    (indexLt : index < count)
    (same : SameButCode (iteration^[index] left) (iteration^[index] right)) :
    StepsLike (iteration^[index] left) (iteration^[index] right) := by
  apply same.stepsLike
  rw [code_iterate, code_iterate]
  exact agrees index indexLt

theorem sameButCode_iterate (same : SameButCode left right) {count : Nat}
    (agrees : CodeAgrees left right count) {index : Nat} (indexLe : index ≤ count) :
    SameButCode (iteration^[index] left) (iteration^[index] right) := by
  induction index with
  | zero => exact same
  | succ index induction =>
      have indexLt : index < count := indexLe
      have before := induction (Nat.le_of_lt indexLt)
      rw [Function.iterate_succ_apply', Function.iterate_succ_apply']
      exact before.iteration (agrees.stepsLike indexLt before)

/-- A run depends on code only through the bytes at which it looks. -/
theorem run_reads_fetched_code (left right : Simulator) (same : SameButCode left right)
    (count : Nat) (agrees : CodeAgrees left right count) :
    (∀ index ≤ count,
      SameButCode (iteration^[index] left) (iteration^[index] right) ∧
      (iteration^[index] left).machine.code = left.machine.code ∧
      (iteration^[index] right).machine.code = right.machine.code) ∧
    (∀ index < count,
      (iteration^[index] right).step.result = (iteration^[index] left).step.result ∧
      (iteration^[index] right).step.events = (iteration^[index] left).step.events) ∧
    (∀ budget, (left.runWithin budget).steps ≤ count →
      Run.Mirrors (left.runWithin budget) (right.runWithin budget) ∧
      SameButCode (left.runWithin budget).simulator (right.runWithin budget).simulator) ∧
    ∀ fuel run, left.run? fuel = some run → run.steps ≤ count →
      ∃ other, right.run? fuel = some other ∧ other.outcome = run.outcome ∧
        Run.Mirrors run other ∧ SameButCode run.simulator other.simulator := by
  have like (index : Nat) (indexLt : index < count) :
      StepsLike (iteration^[index] left) (iteration^[index] right) :=
    agrees.stepsLike indexLt (sameButCode_iterate same agrees (Nat.le_of_lt indexLt))
  refine ⟨?_, ?_, ?_, ?_⟩
  · intro index indexLe
    exact ⟨sameButCode_iterate same agrees indexLe, code_iterate left index,
      code_iterate right index⟩
  · intro index indexLt
    exact ⟨(like index indexLt).result, (like index indexLt).events⟩
  · intro budget stepsLe
    have mirrors := mirrors_runWithin (congrArg Config.invalidInstruction same.config) budget
      fun index indexLt => like index (Nat.lt_of_lt_of_le indexLt stepsLe)
    refine ⟨mirrors, ?_⟩
    rw [simulator_runWithin, simulator_runWithin, mirrors.steps]
    exact sameButCode_iterate same agrees stepsLe
  · intro fuel run ran stepsLe
    obtain ⟨other, otherRan, mirrors⟩ := mirrors_run? same.config ran
      fun index indexLt => like index (Nat.lt_of_lt_of_le indexLt stepsLe)
    refine ⟨other, otherRan, mirrors.outcome, mirrors, ?_⟩
    rw [simulator_of_run? ran, simulator_of_run? otherRan, mirrors.steps]
    exact sameButCode_iterate same agrees stepsLe

/-- A breakpoint in front of a word that is another breakpoint, or does not decode. -/
theorem run_reads_fetched_code_before_other_words :
    let left := create {}
    let right := left.writeCode 3 0x60
    right.machine.code ≠ left.machine.code ∧
    ∃ run other, left.run? 1 = some run ∧ right.run? 1 = some other ∧
      other.outcome = .ok ⟨1, .breakpoint⟩ ∧ SameButCode run.simulator other.simulator := by
  intro left right
  have readEq (address : Nat) (addressNe : address ≠ 3) :
      right.machine.code.read address = left.machine.code.read address := by
    have otherNe : 3 ≠ address := Ne.symm addressNe
    simp [right, left, writeCode, create, Machine.zero, Memory.read_write, otherNe]
  have fetchedEq : left.fetched = .ok ⟨⟨.short, .nop, rfl⟩, .nop 0 0⟩ := by
    change left.machine.code.fetch 0 = _
    rw [Memory.fetch_eq_decode _ (by decide)]
    simp [left, create, Machine.zero]
    decide +kernel
  have same : SameButCode left right := sameButCode_writeCode left 3 0x60
  have agrees : CodeAgrees left right 1 := by
    intro index indexLt
    obtain rfl := Nat.lt_one_iff.mp indexLt
    change left.machine.code.AgreeAt right.machine.code left.pc
    rw [Memory.AgreeAt, show left.machine.code.fetch left.pc = _ from fetchedEq]
    intro offset offsetLt
    have offsetLt : offset < 2 := offsetLt
    have pcEq : 2 * left.pc.toNat = 0 := rfl
    exact readEq _ (by omega)
  obtain ⟨run, ran, outcomeEq, _⟩ := run?_of_breakpoint fetchedEq rfl (by decide) Nat.one_pos
  have stepsEq := ((traces_of_run? ran).outcome_cases outcomeEq).1
  obtain ⟨other, otherRan, otherEq, _, sameEnd⟩ :=
    (run_reads_fetched_code left right same 1 agrees).2.2.2 1 run ran (Nat.le_of_eq stepsEq)
  refine ⟨?_, run, other, ran, otherRan, otherEq.trans outcomeEq, sameEnd⟩
  intro codeEq
  have readsAlike := congrArg (fun code => code.read 3) codeEq
  simp [right, left, writeCode, create, Machine.zero, Memory.read_write, Space.size] at readsAlike

end Simulator

end Aap
