import Aap.Decode
import Aap.Execute

/-!
# Single steps

A simulator is a machine with its console and a configuration.  A step fetches,
decodes, executes and commits one instruction, and tells what happened as a
list of events.  A step that cannot be decoded, or whose instruction has no
meaning, leaves machine and console as they are.
-/

namespace Aap

/-- What a run does with bytes that do not decode. -/
inductive InvalidInstructionPolicy where
  | stop
  /-- Skip them if decoding can resume behind them. -/
  | resync
  deriving DecidableEq

structure Config where
  unknownOpcode : UnknownOpcodePolicy := .trap
  invalidInstruction : InvalidInstructionPolicy := .stop
  /-- The number of steps after which a run stops, if it is bounded. -/
  maxSteps : Option Nat := none
  deriving DecidableEq

inductive Status where
  | ok
  /-- The instruction has no meaning; the program counter still names it. -/
  | trap
  | breakpoint
  | quit
  | invalidInstruction
  deriving DecidableEq

namespace Status

/-- Whether a run ends with this status. -/
def isTerminal : Status → Bool
  | ok => false
  | _ => true

def text : Status → String
  | ok => "ok"
  | trap => "trap"
  | breakpoint => "breakpoint"
  | quit => "quit"
  | invalidInstruction => "invalid instruction"

end Status

/-- The status of a step that executed an instruction. -/
def Outcome.status : Outcome → Status
  | retired => .ok
  | breakpoint => .breakpoint
  | quit => .quit
  | unimplemented => .trap

/-- What can be observed of a step. -/
inductive Event where
  | start (pc : Word) (opcode : Opcode) (size : Nat)
  | retired (pc nextPc : Word) (status : Status)
  /-- The bytes at `pc` do not decode; `skip` bytes may be skipped. -/
  | failed (pc : Word) (error : DecodeError) (skip : Nat)
  deriving DecidableEq

/-- A machine with its console and settings. -/
@[ext]
structure Simulator where
  config : Config
  machine : Machine
  console : Console
  deriving DecidableEq

/-- How a step ends. -/
inductive StepResult where
  | executed (status : Status)
  | undecodable (failure : DecodeFailure)
  | aborted (error : Unsupported)
  deriving DecidableEq

structure Step where
  simulator : Simulator
  events : List Event
  result : StepResult
  deriving DecidableEq

/-- The status of a step, unless the simulation was abandoned. -/
def StepResult.status : StepResult → Except Unsupported Status
  | executed status => .ok status
  | undecodable _ => .ok .invalidInstruction
  | aborted error => .error error

namespace Simulator

def create (config : Config) : Simulator :=
  ⟨config, .zero, .empty⟩

def pc (simulator : Simulator) : Word :=
  simulator.machine.processor.pc

def setPc (simulator : Simulator) (pc : Word) : Simulator :=
  { simulator with
    machine := { simulator.machine with
      processor := { simulator.machine.processor with pc } } }

def setOverflow (simulator : Simulator) (overflow : Bool) : Simulator :=
  { simulator with
    machine := { simulator.machine with
      processor := { simulator.machine.processor with overflow } } }

def setExitCode (simulator : Simulator) (exitCode : Word) : Simulator :=
  { simulator with
    machine := { simulator.machine with
      processor := { simulator.machine.processor with exitCode } } }

def readRegister (simulator : Simulator) (index : Nat) : Except RegisterIndexError Word := do
  let register ← Reg.ofIndex index
  return simulator.machine.read register

def writeRegister (simulator : Simulator) (index : Nat) (value : Word) :
    Except RegisterIndexError Simulator := do
  let register ← Reg.ofIndex index
  return { simulator with
    machine := { simulator.machine with
      processor := simulator.machine.processor.write register value } }

def writeCode (simulator : Simulator) (address : Nat) (byte : Byte) : Simulator :=
  { simulator with
    machine := { simulator.machine with code := simulator.machine.code.write address byte } }

def writeData (simulator : Simulator) (address : Word) (byte : Byte) : Simulator :=
  { simulator with
    machine := { simulator.machine with
      data := simulator.machine.data.write address.toNat byte } }

def loadCode (simulator : Simulator) (contents : List Byte) (address : Nat) :
    Except LoadError Simulator := do
  let code ← simulator.machine.code.load contents address
  return { simulator with machine := { simulator.machine with code } }

def loadData (simulator : Simulator) (contents : List Byte) (address : Nat) :
    Except LoadError Simulator := do
  let data ← simulator.machine.data.load contents address
  return { simulator with machine := { simulator.machine with data } }

/-- The simulator that starts over with the memories it has. -/
def reset (simulator : Simulator) : Simulator :=
  { simulator with machine := simulator.machine.reset }

def commit (simulator : Simulator) (effects : Effects) : Simulator :=
  { simulator with
    machine := simulator.machine.commit effects
    console := simulator.console.commit effects }

/-- The simulator after one executed instruction: an instruction without a
meaning commits nothing. -/
def conclude (simulator : Simulator) (outcome : Outcome) (effects : Effects) : Simulator :=
  match outcome with
  | .unimplemented => simulator
  | _ => simulator.commit effects

/-- The step taken at the program counter. -/
def step (simulator : Simulator) : Step :=
  let pc := simulator.pc
  match simulator.machine.code.fetch pc with
  | .error failure =>
      { simulator
        events := [.failed pc failure.error failure.skip]
        result := .undecodable failure }
  | .ok instruction =>
      let start := Event.start pc instruction.opcode instruction.size
      let fallThrough := pc + BitVec.ofNat 16 instruction.words
      match instruction.execute simulator.config.unknownOpcode simulator.machine pc
          fallThrough with
      | .error error => { simulator, events := [start], result := .aborted error }
      | .ok (outcome, effects) =>
          let next := simulator.conclude outcome effects
          { simulator := next
            events := [start, .retired pc next.pc outcome.status]
            result := .executed outcome.status }

end Simulator

end Aap
