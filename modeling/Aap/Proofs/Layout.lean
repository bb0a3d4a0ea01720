import Aap.Proofs.Failure
import Aap.Proofs.Step
import Mathlib.Algebra.GroupWithZero.Nat
import Mathlib.Data.List.Forall2

/-!
# Where a program lies

A program is a list of instructions, each encoded in bytes of its own.  Loaded
as one section at an even address, every instruction is found again at the word
address that the sizes of the instructions before it add up to, whatever else
code memory holds and up to its last byte.  Falling through an instruction
leads to the next one.
-/

namespace Aap

/-- Bytes that are one instruction, with nothing behind it. -/
structure Encodes (bytes : List Byte) (instruction : Instruction) : Prop where
  decodes : ∃ address, Instruction.decode bytes address = .ok instruction
  length : bytes.length = instruction.size

namespace Memory

variable {space : Space}

theorem slice_eq_take_tail (memory : Memory space) (first count : Nat) :
    memory.slice first (first + count) = (memory.tail first).take count := by
  apply List.ext_getElem?
  intro index
  rw [tail, List.getElem?_take, getElem?_slice, getElem?_slice, Nat.min_self]
  by_cases indexLt : index < count
  · simp only [indexLt, if_true, Nat.lt_min, Nat.add_lt_add_iff_left, true_and]
  · rw [if_neg (by omega), if_neg indexLt]

theorem tail_add (memory : Memory space) (first count : Nat) :
    memory.tail (first + count) = (memory.tail first).drop count := by
  apply List.ext_getElem?
  intro index
  rw [tail, tail, List.getElem?_drop, getElem?_slice, getElem?_slice, Nat.add_assoc]

theorem length_tail (memory : Memory space) (first : Nat) :
    (memory.tail first).length = space.size - first := by
  rw [tail, length_slice, Nat.min_self]

/-- A section that fits is found where it was loaded. -/
theorem prefix_tail_writeAll (memory : Memory space) {first : Nat} {contents : List Byte}
    (fits : first + contents.length ≤ space.size) :
    contents <+: (memory.writeAll first contents).tail first := by
  rw [List.prefix_iff_getElem?]
  intro index inside
  rw [tail, getElem?_slice, Nat.min_self, if_pos (by omega), read_writeAll memory first contents fits,
    if_pos (Nat.le_add_right first index), Nat.add_sub_cancel_left]
  simp [inside]

/-- An instruction whose bytes lie at a program counter is fetched there, up to
the last byte of code. -/
theorem fetch_of_prefix {code : Memory .code} {pc : Word} {bytes : List Byte}
    {instruction : Instruction} (encodes : Encodes bytes instruction)
    (lies : bytes <+: code.tail (2 * pc.toNat)) : code.fetch pc = .ok instruction := by
  obtain ⟨address, decoded⟩ := encodes.decodes
  have lengthLe : bytes.length ≤ 4 := by
    rw [encodes.length, instruction.size_eq]
    rcases instruction.words_cases with wordsEq | wordsEq <;> omega
  have begins : bytes <+: (code.tail (2 * pc.toNat)).take 4 :=
    List.prefix_take_iff.mpr ⟨lies, lengthLe⟩
  rw [fetch, slice_eq_take_tail]
  exact Instruction.decode_of_prefix decoded begins _

end Memory

/-- The word address of an instruction of a program that begins at a byte
address: behind the sizes of the instructions before it. -/
def wordAddress (address : Nat) (program : List Instruction) (index : Nat) : Nat :=
  address / 2 + ((program.take index).map Instruction.size).sum / 2

theorem wordAddress_zero (address : Nat) (program : List Instruction) :
    wordAddress address program 0 = address / 2 := by
  simp [wordAddress]

theorem wordAddress_cons_succ (address : Nat) (instruction : Instruction)
    (program : List Instruction) (index : Nat) :
    wordAddress address (instruction :: program) (index + 1) =
      wordAddress (address + instruction.size) program index := by
  simp only [wordAddress, List.take_succ_cons, List.map_cons, List.sum_cons, instruction.size_eq]
  omega

theorem wordAddress_succ (address : Nat) {program : List Instruction} {index : Nat}
    (inside : index < program.length) :
    wordAddress address program (index + 1) =
      wordAddress address program index + program[index].words := by
  rw [wordAddress, wordAddress, List.take_succ_eq_append_getElem inside, List.map_append,
    List.sum_append, List.map_singleton, List.sum_singleton, Instruction.size_eq]
  omega

/-- An instruction lies at a word address, and a step at that address is the
instruction's with another word address behind it. -/
structure FoundAt (code : Memory .code) (instruction : Instruction) (here next : Nat) :
    Prop where
  inside : here < 2 ^ 16
  fetch : code.fetch (BitVec.ofNat 16 here) = .ok instruction
  step : ∀ running : Simulator, running.machine.code = code →
    running.pc = BitVec.ofNat 16 here →
      running.step.simulator.observe =
        instruction.operation.interpret running.pc (BitVec.ofNat 16 next) running.observe

theorem foundAt_of_fetch {code : Memory .code} {instruction : Instruction} {here : Nat}
    (inside : here < 2 ^ 16) (fetchEq : code.fetch (BitVec.ofNat 16 here) = .ok instruction) :
    FoundAt code instruction here (here + instruction.words) := by
  refine ⟨inside, fetchEq, ?_⟩
  intro running codeEq pcEq
  have fetchedEq : running.fetched = .ok instruction := by
    rw [Simulator.fetched, codeEq, pcEq, fetchEq]
  rw [Simulator.observe_step fetchedEq, BitVec.ofNat_add, pcEq]

/-- The encodings of a program, one behind the other, are fetched as its
instructions. -/
theorem foundAt_of_prefix {code : Memory .code} {encodings : List (List Byte)}
    {program : List Instruction} (encodes : List.Forall₂ Encodes encodings program)
    {address : Nat} (even : address % 2 = 0) (lies : encodings.flatten <+: code.tail address)
    (index : Nat) (inside : index < program.length) :
    FoundAt code program[index] (wordAddress address program index)
      (wordAddress address program (index + 1)) := by
  rw [wordAddress_succ address inside]
  -- The program shrinks from the front, and the address moves behind what is left out.
  induction encodes generalizing address index with
  | nil => exact absurd inside (Nat.not_lt_zero index)
  | @cons bytes instruction encodings program encodesFirst encodesRest induction =>
      rw [List.flatten_cons] at lies
      have firstLies : bytes <+: code.tail address := (List.prefix_append _ _).trans lies
      cases index with
      | zero =>
          have lengthLe := firstLies.length_le
          rw [Memory.length_tail, encodesFirst.length, instruction.size_eq] at lengthLe
          change _ ≤ 131072 - address at lengthLe
          have wordsPos := instruction.words_cases
          have hereLt : address / 2 < 2 ^ 16 := by omega
          have addressEq : address = 2 * (BitVec.ofNat 16 (address / 2)).toNat := by
            rw [BitVec.toNat_ofNat, Nat.mod_eq_of_lt hereLt]
            omega
          rw [wordAddress_zero]
          apply foundAt_of_fetch hereLt
          rw [addressEq] at firstLies
          exact Memory.fetch_of_prefix encodesFirst firstLies
      | succ index =>
          have restLies : encodings.flatten <+: code.tail (address + instruction.size) := by
            obtain ⟨behind, tailEq⟩ := lies
            rw [Memory.tail_add, ← tailEq, List.append_assoc, ← encodesFirst.length,
              List.drop_left]
            exact List.prefix_append _ _
          have sizeEven : (address + instruction.size) % 2 = 0 := by
            rw [instruction.size_eq]
            omega
          rw [wordAddress_cons_succ]
          exact induction sizeEven restLies index (Nat.lt_of_succ_lt_succ inside)

namespace Simulator

/-- Instructions that are loaded one behind the other are found where their
sizes say, and each falls through to the next. -/
theorem loaded_program_is_found (simulator : Simulator) {encodings : List (List Byte)}
    {program : List Instruction} (encodes : List.Forall₂ Encodes encodings program)
    {address : Nat} (even : address % 2 = 0)
    (fits : address + encodings.flatten.length ≤ Space.code.size) :
    ∃ loaded, simulator.loadCode encodings.flatten address = .ok loaded ∧
      ∀ index (inside : index < program.length),
        FoundAt loaded.machine.code program[index] (wordAddress address program index)
          (wordAddress address program (index + 1)) := by
  refine ⟨{ simulator with
    machine := { simulator.machine with
      code := simulator.machine.code.writeAll address encodings.flatten } }, ?_, ?_⟩
  · rw [loadCode, Memory.load, if_pos fits]
    rfl
  · intro index inside
    exact foundAt_of_prefix encodes even (Memory.prefix_tail_writeAll _ fits) index inside

/-- A long subtraction and an output of one byte in the last three words of code:
behind the output the program counter wraps around. -/
theorem loaded_program_is_found_at_last_words :
    let subtract : Instruction := ⟨⟨.long, .aluImmediate .sub, rfl⟩, .aluImmediate .sub 1 2 1023⟩
    let put : Instruction := ⟨⟨.short, .nop, rfl⟩, .nop 1 3⟩
    ∃ loaded, (create {}).loadCode [0x57, 0x96, 0x07, 0x1E, 0x43, 0x00] 0x1FFFA = .ok loaded ∧
      FoundAt loaded.machine.code subtract 0xFFFD 0xFFFF ∧
      FoundAt loaded.machine.code put 0xFFFF 0x10000 ∧
      (loaded.setPc 0xFFFF).step.simulator.pc = 0 := by
  intro subtract put
  have encodes : List.Forall₂ Encodes [[0x57, 0x96, 0x07, 0x1E], [0x43, 0x00]] [subtract, put] := by
    refine .cons ⟨⟨0, ?_⟩, rfl⟩ (.cons ⟨⟨0, ?_⟩, rfl⟩ .nil)
    · decide +kernel
    · decide +kernel
  have even : 0x1FFFA % 2 = 0 := by decide
  obtain ⟨loaded, loadedEq, found⟩ :=
    loaded_program_is_found (create {}) encodes even (by decide)
  have places : wordAddress 0x1FFFA [subtract, put] 0 = 0xFFFD ∧
      wordAddress 0x1FFFA [subtract, put] 1 = 0xFFFF ∧
      wordAddress 0x1FFFA [subtract, put] 2 = 0x10000 := by decide
  have first := found 0 (by decide)
  have last := found 1 (by decide)
  rw [places.1, places.2.1] at first
  rw [places.2.1, places.2.2] at last
  refine ⟨loaded, loadedEq, first, last, ?_⟩
  have observed := last.step (loaded.setPc 0xFFFF) rfl rfl
  rw [← pc_observe, observed]
  rfl

end Simulator

end Aap
