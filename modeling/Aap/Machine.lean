import Aap.Memory
import Aap.Register

/-!
# Machine state

The processor holds the registers, the program counter, the overflow flag and
the exit code of the last quit.  The machine adds the two memories.
-/

namespace Aap

/-- Registers, program counter, overflow flag and exit-code latch. -/
@[ext]
structure Processor where
  registers : Vector Word 64
  /-- The word address of the next instruction. -/
  pc : Word
  overflow : Bool
  /-- The exit code latched by the last quit. -/
  exitCode : Word
  deriving DecidableEq

namespace Processor

def zero : Processor :=
  ⟨Vector.replicate 64 0, 0, false, 0⟩

instance : Inhabited Processor := ⟨zero⟩

def read (processor : Processor) (register : Reg) : Word :=
  processor.registers[register.val]

def write (processor : Processor) (register : Reg) (value : Word) : Processor :=
  { processor with registers := processor.registers.set register.val value }

theorem read_write (processor : Processor) (written register : Reg) (value : Word) :
    (processor.write written value).read register =
      if written = register then value else processor.read register := by
  simp [read, write, Vector.getElem_set, Fin.ext_iff]

@[simp]
theorem pc_write (processor : Processor) (register : Reg) (value : Word) :
    (processor.write register value).pc = processor.pc := rfl

@[simp]
theorem overflow_write (processor : Processor) (register : Reg) (value : Word) :
    (processor.write register value).overflow = processor.overflow := rfl

@[simp]
theorem exitCode_write (processor : Processor) (register : Reg) (value : Word) :
    (processor.write register value).exitCode = processor.exitCode := rfl

end Processor

/-- The whole state of the simulated machine. -/
@[ext]
structure Machine where
  processor : Processor
  code : Memory .code
  data : Memory .data
  deriving DecidableEq

namespace Machine

/-- A new machine: everything is zero. -/
def zero : Machine :=
  ⟨Processor.zero, Memory.zero .code, Memory.zero .data⟩

instance : Inhabited Machine := ⟨zero⟩

def read (machine : Machine) (register : Reg) : Word :=
  machine.processor.read register

/-- The byte of data memory at a sixteen-bit address. -/
def dataByte (machine : Machine) (address : Word) : Byte :=
  machine.data.read address.toNat

/-- The machine that starts over with the memories it has. -/
def reset (machine : Machine) : Machine :=
  { machine with processor := Processor.zero }

end Machine

end Aap
