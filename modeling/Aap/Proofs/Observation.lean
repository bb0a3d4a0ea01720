import Aap.Simulator
import Mathlib.Logic.Function.Basic

/-!
# Observations of a simulator

An observation gives every register, every byte of both memories, the program
counter, the flag, the exit code and the output so far as plain functions and
values.  A simulator is determined by its settings and its observation, and
committing the effects of an instruction can be followed on the observation
alone: later writes to a cell replace earlier ones.
-/

namespace Aap

/-- Everything that can be read of a machine and its console. -/
@[ext]
structure Observation where
  registers : Reg → Word
  pc : Word
  overflow : Bool
  exitCode : Word
  code : Nat → Byte
  data : Word → Byte
  output : Stream → List Byte

/-- The contents of cells after a list of writes, the last of which stands. -/
def overwrite {Cell Value : Type} [DecidableEq Cell] (cells : Cell → Value) :
    List (Cell × Value) → Cell → Value
  | [] => cells
  | (cell, value) :: writes => overwrite (Function.update cells cell value) writes

/-- The observation after the changes of an instruction. -/
def Observation.commit (before : Observation) (effects : Effects) : Observation where
  registers := overwrite before.registers effects.registerWrites
  pc := effects.nextPc
  overflow := effects.overflow.getD before.overflow
  exitCode := effects.exitCode.getD before.exitCode
  code := before.code
  data := overwrite before.data effects.memoryWrites
  output := fun stream =>
    before.output stream ++
      match effects.output with
      | some (written, byte) => if written = stream then [byte] else []
      | none => []

theorem Processor.ext_read {left right : Processor}
    (readEq : ∀ register, left.read register = right.read register)
    (pcEq : left.pc = right.pc) (overflowEq : left.overflow = right.overflow)
    (exitCodeEq : left.exitCode = right.exitCode) : left = right := by
  refine Processor.ext ?_ pcEq overflowEq exitCodeEq
  apply Vector.ext
  intro index indexLt
  exact readEq ⟨index, indexLt⟩

theorem Memory.ext_read_word {left right : Memory .data}
    (readEq : ∀ address : Word, left.read address.toNat = right.read address.toNat) :
    left = right := by
  apply Memory.ext_read
  intro address
  by_cases inside : address < Space.data.size
  · have sameAddress : (BitVec.ofNat 16 address).toNat = address := by
      rw [BitVec.toNat_ofNat]
      exact Nat.mod_eq_of_lt inside
    have equality := readEq (BitVec.ofNat 16 address)
    rwa [sameAddress] at equality
  · rw [left.read_eq_zero_of_size_le (by omega), right.read_eq_zero_of_size_le (by omega)]

theorem Console.ext_bytes {left right : Console}
    (bytesEq : ∀ stream, left.bytes stream = right.bytes stream) : left = right := by
  apply Console.ext
  · exact Array.toList_inj.mp (bytesEq .stdout)
  · exact Array.toList_inj.mp (bytesEq .stderr)

theorem Processor.read_writeAll (processor : Processor) (writes : List (Reg × Word)) :
    (processor.writeAll writes).read = overwrite processor.read writes := by
  induction writes generalizing processor with
  | nil => rfl
  | cons entry writes induction =>
      obtain ⟨written, value⟩ := entry
      have readWrite : (processor.write written value).read =
          Function.update processor.read written value := by
        funext register
        rw [Processor.read_write, Function.update_apply]
        simp only [eq_comm]
      rw [Processor.writeAll_cons, induction, readWrite, overwrite]

/-- A committed list of byte writes replaces the bytes at the written
addresses; every sixteen-bit address is inside data memory. -/
theorem Memory.read_foldl_write (data : Memory .data) (writes : List (Word × Byte)) :
    (fun address : Word =>
        (writes.foldl (fun written entry => written.write entry.1.toNat entry.2) data).read
          address.toNat) =
      overwrite (fun address : Word => data.read address.toNat) writes := by
  induction writes generalizing data with
  | nil => rfl
  | cons entry writes induction =>
      obtain ⟨written, byte⟩ := entry
      have readWrite :
          (fun address : Word => (data.write written.toNat byte).read address.toNat) =
            Function.update (fun address : Word => data.read address.toNat) written byte := by
        funext address
        have inside : address.toNat < Space.data.size := address.isLt
        rw [Memory.read_write, Function.update_apply]
        simp only [inside, and_true, BitVec.toNat_inj, eq_comm]
      rw [List.foldl_cons, induction, readWrite, overwrite]

namespace Simulator

/-- What can be read of a simulator. -/
def observe (simulator : Simulator) : Observation where
  registers := simulator.machine.read
  pc := simulator.pc
  overflow := simulator.machine.processor.overflow
  exitCode := simulator.machine.processor.exitCode
  code := simulator.machine.code.read
  data := simulator.machine.dataByte
  output := simulator.console.bytes

theorem pc_observe (simulator : Simulator) : simulator.observe.pc = simulator.pc :=
  rfl

theorem ext_observe {left right : Simulator} (configEq : left.config = right.config)
    (observeEq : left.observe = right.observe) : left = right := by
  have registersEq := congrArg Observation.registers observeEq
  have codeEq := congrArg Observation.code observeEq
  have dataEq := congrArg Observation.data observeEq
  have outputEq := congrArg Observation.output observeEq
  refine Simulator.ext configEq (Machine.ext ?_ ?_ ?_) ?_
  · exact Processor.ext_read (congrFun registersEq) (congrArg Observation.pc observeEq)
      (congrArg Observation.overflow observeEq) (congrArg Observation.exitCode observeEq)
  · exact Memory.ext_read (congrFun codeEq)
  · exact Memory.ext_read_word (congrFun dataEq)
  · exact Console.ext_bytes (congrFun outputEq)

theorem bytes_commit (console : Console) (effects : Effects) (stream : Stream) :
    (console.commit effects).bytes stream =
      console.bytes stream ++
        match effects.output with
        | some (written, byte) => if written = stream then [byte] else []
        | none => [] := by
  unfold Console.commit
  cases effects.output with
  | none => simp
  | some entry =>
      obtain ⟨written, byte⟩ := entry
      exact Console.bytes_put console written stream byte

/-- Committing and observing may be done in either order. -/
theorem observe_commit (simulator : Simulator) (effects : Effects) :
    (simulator.commit effects).observe = simulator.observe.commit effects := by
  apply Observation.ext
  · exact Processor.read_writeAll simulator.machine.processor effects.registerWrites
  · rfl
  · exact congrArg effects.overflow.getD
      (Processor.overflow_writeAll simulator.machine.processor effects.registerWrites)
  · exact congrArg effects.exitCode.getD
      (Processor.exitCode_writeAll simulator.machine.processor effects.registerWrites)
  · rfl
  · exact Memory.read_foldl_write simulator.machine.data effects.memoryWrites
  · funext stream
    exact bytes_commit simulator.console effects stream

end Simulator

end Aap
