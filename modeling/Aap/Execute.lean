import Aap.Effects
import Aap.Instruction.Opcode

/-!
# Execution

Executing an operation reads the machine and yields an outcome with the effects
to commit.  Sums are computed exactly; the flag records whether the result left
the signed range.  Conditional jumps have no meaning: what becomes of them is a
matter of policy, and they have no effect.
-/

namespace Aap

/-- How an executed instruction ends. -/
inductive Outcome where
  | retired
  | breakpoint
  | quit
  /-- The instruction has no meaning, and nothing may be committed. -/
  | unimplemented
  deriving DecidableEq

/-- What a command asks of the host. -/
inductive Request where
  | breakpoint
  | quit
  | put (stream : Stream)
  | ignore
  deriving DecidableEq

/-- The request that a command number stands for. -/
def Request.ofCommand : Nat → Request
  | 0 => breakpoint
  | 2 => quit
  | 3 => put .stdout
  | 4 => put .stderr
  | _ => ignore

inductive Operand where
  | register (value : Word)
  | immediate (value : Nat)
  deriving DecidableEq

namespace Operand

/-- The operand as a summand: registers are signed, and immediates are taken
from thirty-two bits. -/
def summand : Operand → Int
  | register value => value.toInt
  | immediate value => (BitVec.ofNat 32 value).toInt

def bits : Operand → Word
  | register value => value
  | immediate value => BitVec.ofNat 16 value

/-- The operand as a shift amount, modulo sixteen. -/
def amount (operand : Operand) : Nat :=
  operand.bits.toNat % 16

end Operand

/-- The result of a computation, and the flag if it sets one. -/
def AluOp.compute (op : AluOp) (left : Word) (right : Operand) (flag : Bool) :
    Word × Option Bool :=
  match op with
  | add => settled (left.toInt + right.summand)
  | addWithCarry => settled (left.toInt + right.summand + flag.toInt)
  | sub => settled (left.toInt - right.summand)
  | subWithBorrow => settled (left.toInt - right.summand - flag.toInt)
  | and => (left &&& right.bits, none)
  | or => (left ||| right.bits, none)
  | xor => (left ^^^ right.bits, none)
  | asr => (left.sshiftRight right.amount, none)
  | lsl => (left <<< right.amount, none)
  | lsr => (left >>> right.amount, none)
where
  settled (exact : Int) : Word × Option Bool :=
    let (word, overflow) := Word.settle exact
    (word, some overflow)

namespace Machine

def loaded (machine : Machine) (width : Width) (address : Word) : Word :=
  match width with
  | .byte => (machine.dataByte address).setWidth 16
  | .word => machine.data.readWord address

end Machine

namespace Width

def storedBytes (width : Width) (address value : Word) : List (Word × Byte) :=
  match width with
  | byte => [(address, Word.lowByte value)]
  | word => [(address, Word.lowByte value), (address + 1, Word.highByte value)]

end Width

namespace Mode

/-- The write of the pointer register that precedes an access. -/
def writesBefore (mode : Mode) (base : Reg) (pointer : Word) : List (Reg × Word) :=
  match mode with
  | preDecrement => [(base, pointer)]
  | plain | postIncrement => []

/-- The write of the pointer register that follows an access. -/
def writesAfter (mode : Mode) (width : Width) (base : Reg) (pointer : Word) :
    List (Reg × Word) :=
  match mode.pointerAfter? width pointer with
  | some advanced => [(base, advanced)]
  | none => []

end Mode

namespace Operation

/-- The outcome of an operation found at `pc`, with `fallThrough` as the program
counter after it, and the effects that it has on a machine. -/
def execute (operation : Operation) (machine : Machine) (pc fallThrough : Word) :
    Outcome × Effects :=
  match operation with
  | nop reg command =>
      let value := machine.read reg
      match Request.ofCommand command with
      | .breakpoint => (.breakpoint, { nextPc := fallThrough })
      | .quit => (.quit, { exitCode := some value, nextPc := fallThrough })
      | .put stream =>
          (.retired, { output := some (stream, Word.lowByte value), nextPc := fallThrough })
      | .ignore => (.retired, { nextPc := fallThrough })
  | move rd rs =>
      (.retired, { registerWrites := [(rd, machine.read rs)], nextPc := fallThrough })
  | moveImmediate rd imm =>
      (.retired, { registerWrites := [(rd, BitVec.ofNat 16 imm)], nextPc := fallThrough })
  | alu op rd ra rb =>
      let (result, overflow) :=
        op.compute (machine.read ra) (.register (machine.read rb)) machine.processor.overflow
      (.retired, { registerWrites := [(rd, result)], overflow, nextPc := fallThrough })
  | aluImmediate op rd ra imm =>
      let (result, overflow) :=
        op.compute (machine.read ra) (.immediate imm) machine.processor.overflow
      (.retired, { registerWrites := [(rd, result)], overflow, nextPc := fallThrough })
  | load width mode rd base offset =>
      let pointer := mode.pointerBefore width (machine.read base)
      let value := machine.loaded width (Word.displace pointer offset)
      (.retired,
        { registerWrites :=
            mode.writesBefore base pointer ++ (rd, value) :: mode.writesAfter width base pointer
          nextPc := fallThrough })
  | store width mode base offset rs =>
      let pointer := mode.pointerBefore width (machine.read base)
      (.retired,
        { registerWrites :=
            mode.writesBefore base pointer ++ mode.writesAfter width base pointer
          memoryWrites := width.storedBytes (Word.displace pointer offset) (machine.read rs)
          nextPc := fallThrough })
  | branchAndLink offset link =>
      (.retired,
        { registerWrites := [(link, fallThrough)], nextPc := Word.displace pc offset })
  | jumpAndLink target link =>
      (.retired,
        { registerWrites := [(link, fallThrough)], nextPc := machine.read target })
  | branch condition offset ra rb =>
      if condition.holds (machine.read ra) (machine.read rb) then
        (.retired, { nextPc := Word.displace pc offset })
      else
        (.retired, { nextPc := fallThrough })
  | branchAlways offset => (.retired, { nextPc := Word.displace pc offset })
  | jump target => (.retired, { nextPc := machine.read target })
  | jumpConditional _ _ _ _ => (.unimplemented, { nextPc := pc })

end Operation

/-- What to do with an instruction that has no meaning. -/
inductive UnknownOpcodePolicy where
  /-- Leave the machine as it is and report a trap. -/
  | trap
  /-- Abandon the simulation with an error. -/
  | abort
  deriving DecidableEq

/-- The error that abandons a simulation. -/
structure Unsupported where
  opcode : Opcode
  pc : Word
  deriving DecidableEq

def Unsupported.message (error : Unsupported) : String :=
  s!"no simulator support for {error.opcode.name} at pc " ++
    Text.hexadecimal 4 error.pc.toNat

/-- The outcome and effects of an instruction under a policy. -/
def Instruction.execute (instruction : Instruction) (policy : UnknownOpcodePolicy)
    (machine : Machine) (pc fallThrough : Word) : Except Unsupported (Outcome × Effects) :=
  match instruction.operation.execute machine pc fallThrough, policy with
  | (.unimplemented, _), .abort => .error ⟨instruction.opcode, pc⟩
  | executed, _ => .ok executed

end Aap
