import Aap.Register
import Aap.Word

/-!
# Operations

An operation is what an instruction does, with its operands taken apart: two
encodings of one instruction have the same operation.  Immediates and commands
are unsigned, offsets are signed and count words of code or bytes of data.
-/

namespace Aap

inductive AluOp where
  | add
  | addWithCarry
  | sub
  | subWithBorrow
  | and
  | or
  | xor
  | asr
  | lsl
  | lsr
  deriving DecidableEq

/-- How much a load or store moves. -/
inductive Width where
  | byte
  | word
  deriving DecidableEq

/-- The number of bytes of an access, by which the pointer steps as well. -/
def Width.bytes : Width → Nat
  | .byte => 1
  | .word => 2

/-- How a load or store treats its pointer register. -/
inductive Mode where
  | plain
  | postIncrement
  | preDecrement
  deriving DecidableEq

namespace Mode

/-- The pointer with which the access is made. -/
def pointerBefore (mode : Mode) (width : Width) (pointer : Word) : Word :=
  match mode with
  | plain | postIncrement => pointer
  | preDecrement => pointer - BitVec.ofNat 16 width.bytes

/-- The pointer written back after an access made with `pointer`, if any. -/
def pointerAfter? (mode : Mode) (width : Width) (pointer : Word) : Option Word :=
  match mode with
  | plain | preDecrement => none
  | postIncrement => some (pointer + BitVec.ofNat 16 width.bytes)

end Mode

/-- The comparisons of two registers that a transfer of control can ask for. -/
inductive Condition where
  | equal
  | notEqual
  | lessSigned
  | greaterSigned
  | lessUnsigned
  | greaterUnsigned
  deriving DecidableEq

def Condition.holds (condition : Condition) (left right : Word) : Bool :=
  match condition with
  | .equal => left == right
  | .notEqual => left != right
  | .lessSigned => left.slt right
  | .greaterSigned => right.slt left
  | .lessUnsigned => left.ult right
  | .greaterUnsigned => right.ult left

/-- What an instruction does, with its operands. -/
inductive Operation where
  /-- A request to the host, chosen by `command`; most commands do nothing. -/
  | nop (reg : Reg) (command : Nat)
  | move (rd rs : Reg)
  /-- Set a register to the low sixteen bits of an immediate. -/
  | moveImmediate (rd : Reg) (imm : Nat)
  | alu (op : AluOp) (rd ra rb : Reg)
  | aluImmediate (op : AluOp) (rd ra : Reg) (imm : Nat)
  | load (width : Width) (mode : Mode) (rd base : Reg) (offset : Int)
  | store (width : Width) (mode : Mode) (base : Reg) (offset : Int) (rs : Reg)
  | branchAndLink (offset : Int) (link : Reg)
  | jumpAndLink (target link : Reg)
  | branch (condition : Condition) (offset : Int) (ra rb : Reg)
  | branchAlways (offset : Int)
  | jump (target : Reg)
  /-- Transfer control to a register's value if a condition holds.  The
  encoding exists, but the machine gives it no meaning. -/
  | jumpConditional (condition : Condition) (target ra rb : Reg)
  deriving DecidableEq

end Aap
