import Aap.Checkpoint.Document
import Aap.Simulator

/-!
# Checkpoints

How registers, processors, memories, machines and settings are written as
documents and read back.  Parts of a machine are read and checked in the order
processor, code, data; only then is each memory put into its slot.
-/

namespace Aap

def Document.ofBits {width : Nat} (value : BitVec width) : Document :=
  .integer value.toNat

namespace Reg

/-- A register is stored as its index. -/
def toDocument (register : Reg) : Document :=
  .integer register.val

def ofDocument (document : Document) : Read Reg := do
  let index ← document.natural (1 <<< 8)
  Read.checked <| match Reg.ofIndex index with
    | .ok register => .ok register
    | .error error => .error (.registerIndex error)

end Reg

namespace Space

def names : List (String × Space) :=
  [(name code, code), (name data, data)]

/-- A space is stored as its name. -/
def toDocument (space : Space) : Document :=
  .text space.name

def ofDocument (document : Document) : Read Space :=
  document.variant names

end Space

namespace RegisterClass

def names : List (String × RegisterClass) :=
  [(name narrow, narrow), (name full, full)]

def toDocument (registerClass : RegisterClass) : Document :=
  .text registerClass.name

def ofDocument (document : Document) : Read RegisterClass :=
  document.variant names

end RegisterClass

namespace UnknownOpcodePolicy

def name : UnknownOpcodePolicy → String
  | trap => "Trap"
  | abort => "Abort"

def names : List (String × UnknownOpcodePolicy) :=
  [(name trap, trap), (name abort, abort)]

def toDocument (policy : UnknownOpcodePolicy) : Document :=
  .text policy.name

def ofDocument (document : Document) : Read UnknownOpcodePolicy :=
  document.variant names

end UnknownOpcodePolicy

namespace InvalidInstructionPolicy

def name : InvalidInstructionPolicy → String
  | stop => "Stop"
  | resync => "Resync"

def names : List (String × InvalidInstructionPolicy) :=
  [(name stop, stop), (name resync, resync)]

def toDocument (policy : InvalidInstructionPolicy) : Document :=
  .text policy.name

def ofDocument (document : Document) : Read InvalidInstructionPolicy :=
  document.variant names

end InvalidInstructionPolicy

namespace Status

def name : Status → String
  | ok => "Ok"
  | trap => "Trap"
  | breakpoint => "Breakpoint"
  | quit => "Quit"
  | invalidInstruction => "InvalidInstruction"

def names : List (String × Status) :=
  [ok, trap, breakpoint, quit, invalidInstruction].map fun status => (status.name, status)

def toDocument (status : Status) : Document :=
  .text status.name

def ofDocument (document : Document) : Read Status :=
  document.variant names

end Status

namespace Config

/-- Settings are stored as a record. -/
def toDocument (config : Config) : Document :=
  .record
    [ ("unknown_opcode", config.unknownOpcode.toDocument),
      ("invalid_instruction", config.invalidInstruction.toDocument),
      ("max_steps", match config.maxSteps with
        | some steps => .integer steps
        | none => .null) ]

/-- The settings stored in a document; a record may leave out the budget. -/
def ofDocument (document : Document) : Read Config := do
  let parts ← document.parts ["unknown_opcode", "invalid_instruction", "max_steps"]
  let unknownOpcode ← parts.optional "unknown_opcode" UnknownOpcodePolicy.ofDocument
  let invalidInstruction ←
    parts.optional "invalid_instruction" InvalidInstructionPolicy.ofDocument
  let maxSteps ← parts.optional "max_steps" (Document.nullable (Document.natural (1 <<< 64)))
  parts.close
  return {
    unknownOpcode := ← Read.required unknownOpcode
    invalidInstruction := ← Read.required invalidInstruction
    maxSteps := maxSteps.join }

end Config

namespace Processor

def toDocument (processor : Processor) : Document :=
  .record
    [ ("gpr", .list (processor.image.registers.map Document.ofBits)),
      ("pc", .ofBits processor.pc),
      ("overflow", .flag processor.overflow),
      ("exit_code", .ofBits processor.exitCode) ]

def ofDocument (document : Document) : Read Processor := do
  let parts ← document.parts ["gpr", "pc", "overflow", "exit_code"]
  let registers ← parts.optional "gpr" (Document.listOf (Document.bits 16))
  let pc ← parts.optional "pc" (Document.bits 16)
  let overflow ← parts.optional "overflow" Document.truth
  let exitCode ← parts.optional "exit_code" (Document.bits 16)
  parts.close
  let image : ProcessorImage := {
    registers := ← Read.required registers
    pc := ← Read.required pc
    overflow := ← Read.required overflow
    exitCode := ← Read.required exitCode }
  Read.checked image.restore

end Processor

namespace AnyMemory

/-- A memory is stored as a record of its space and its bytes. -/
def toDocument (stored : AnyMemory) : Document :=
  .record
    [ ("space", stored.space.toDocument),
      ("bytes", .list (stored.image.bytes.map Document.ofBits)) ]

def ofDocument (document : Document) : Read AnyMemory := do
  let parts ← document.parts ["space", "bytes"]
  let space ← parts.optional "space" Space.ofDocument
  let bytes ← parts.optional "bytes" (Document.listOf (Document.bits 8))
  parts.close
  let image : MemoryImage := {
    space := ← Read.required space
    bytes := ← Read.required bytes }
  Read.checked image.restore

end AnyMemory

namespace Machine

/-- A machine is stored as a record of its parts. -/
def toDocument (machine : Machine) : Document :=
  .record
    [ ("arch", machine.processor.toDocument),
      ("code", (AnyMemory.mk .code machine.code).toDocument),
      ("data", (AnyMemory.mk .data machine.data).toDocument) ]

def ofDocument (document : Document) : Read Machine := do
  let parts ← document.parts ["arch", "code", "data"]
  let processor ← parts.optional "arch" Processor.ofDocument
  let code ← parts.optional "code" AnyMemory.ofDocument
  let data ← parts.optional "data" AnyMemory.ofDocument
  parts.close
  Read.checked <| Machine.assemble
    (← Read.required processor) (← Read.required code) (← Read.required data)

end Machine

end Aap
