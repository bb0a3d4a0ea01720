import Aap.Console
import Aap.Machine

/-!
# Effects of an instruction

An instruction first only reads the machine and lists what it will change.
Committing the list changes the machine and the console: registers and memory
bytes in the order of the list, then the exit code, the flag and the program
counter.  Of two writes to one register the later one stands.
-/

namespace Aap

/-- The changes that one instruction makes. -/
structure Effects where
  /-- Register writes, in order. -/
  registerWrites : List (Reg × Word) := []
  /-- Writes of data bytes, in order. -/
  memoryWrites : List (Word × Byte) := []
  output : Option (Stream × Byte) := none
  exitCode : Option Word := none
  overflow : Option Bool := none
  nextPc : Word
  deriving DecidableEq

namespace Processor

def writeAll (processor : Processor) (writes : List (Reg × Word)) : Processor :=
  writes.foldl (fun written entry => written.write entry.1 entry.2) processor

def commit (processor : Processor) (effects : Effects) : Processor :=
  let written := processor.writeAll effects.registerWrites
  { written with
    pc := effects.nextPc
    overflow := effects.overflow.getD written.overflow
    exitCode := effects.exitCode.getD written.exitCode }

@[simp]
theorem writeAll_nil (processor : Processor) : processor.writeAll [] = processor := rfl

@[simp]
theorem writeAll_cons (processor : Processor) (register : Reg) (value : Word)
    (writes : List (Reg × Word)) :
    processor.writeAll ((register, value) :: writes) =
      (processor.write register value).writeAll writes := rfl

@[simp]
theorem overflow_writeAll (processor : Processor) (writes : List (Reg × Word)) :
    (processor.writeAll writes).overflow = processor.overflow := by
  induction writes generalizing processor with
  | nil => rfl
  | cons entry writes induction =>
      obtain ⟨register, value⟩ := entry
      simp [induction]

@[simp]
theorem exitCode_writeAll (processor : Processor) (writes : List (Reg × Word)) :
    (processor.writeAll writes).exitCode = processor.exitCode := by
  induction writes generalizing processor with
  | nil => rfl
  | cons entry writes induction =>
      obtain ⟨register, value⟩ := entry
      simp [induction]

@[simp]
theorem pc_commit (processor : Processor) (effects : Effects) :
    (processor.commit effects).pc = effects.nextPc := rfl

end Processor

def Memory.commit (data : Memory .data) (effects : Effects) : Memory .data :=
  effects.memoryWrites.foldl (fun written entry => written.write entry.1.toNat entry.2) data

/-- The machine after the changes of an instruction; code memory has none. -/
def Machine.commit (machine : Machine) (effects : Effects) : Machine :=
  { machine with
    processor := machine.processor.commit effects
    data := machine.data.commit effects }

def Console.commit (console : Console) (effects : Effects) : Console :=
  match effects.output with
  | some (stream, byte) => console.put stream byte
  | none => console

@[simp]
theorem Machine.code_commit (machine : Machine) (effects : Effects) :
    (machine.commit effects).code = machine.code := rfl

end Aap
