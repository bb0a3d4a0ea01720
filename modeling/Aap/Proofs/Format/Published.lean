import Aap.Decode
import Mathlib.Algebra.Group.Int.Defs
import Mathlib.Algebra.Group.Nat.Defs
import Mathlib.Tactic.Common

/-!
# The published instruction format

The format as the tables of the instruction set give it, in divisions and
remainders of whole words: which words belong to an instruction, and which
operands they hold.  Nothing here looks at masks or at the order of a table.

A short word has the fields `0, class, number, A, B, C` from bit 15 down.  A
long word begins with bit 15 set in its low half, and its high half has the
fields `000, X, A_hi, B_hi, C_hi` from bit 31 down.
-/

namespace Aap

namespace Published

/-- Bits `high` down to `low` of a word. -/
def bits (word high low : Nat) : Nat :=
  word / 2 ^ low % 2 ^ (high + 1 - low)

/-- A number of `width` bits in two's complement. -/
def signed (width value : Nat) : Int :=
  if value < 2 ^ (width - 1) then value else value - 2 ^ width

/-- The register that a field names. -/
def register (field : Nat) : Reg :=
  Fin.ofNat 64 field

/-- The instructions of class 0 by number. -/
def computations : List Mnemonic :=
  [ .nop, .alu .add, .alu .sub, .alu .and, .alu .or, .alu .xor, .alu .asr, .alu .lsl,
    .alu .lsr, .move, .aluImmediate .add, .aluImmediate .sub, .aluImmediate .asr,
    .aluImmediate .lsl, .aluImmediate .lsr, .moveImmediate ]

/-- The addressing modes by number. -/
def modes : List Mode :=
  [.plain, .postIncrement, .preDecrement]

/-- The instruction of class 1 with a number: bit 3 tells stores from loads,
bit 2 words from bytes, and the low bits give the mode. -/
def access? (number : Nat) : Option Mnemonic :=
  let width : Width := if bits number 2 2 = 1 then .word else .byte
  modes[bits number 1 0]?.map fun mode =>
    if bits number 3 3 = 1 then .store width mode else .load width mode

/-- The instructions of class 2 by number. -/
def transfers : List Mnemonic :=
  [ .branchAlways, .branchAndLink, .branch .equal, .branch .notEqual, .branch .lessSigned,
    .branch .greaterSigned, .branch .lessUnsigned, .branch .greaterUnsigned, .jump,
    .jumpAndLink, .jumpConditional .equal, .jumpConditional .notEqual,
    .jumpConditional .lessSigned, .jumpConditional .greaterSigned,
    .jumpConditional .lessUnsigned, .jumpConditional .greaterUnsigned ]

/-- The instruction of a class with a number; class 3 has none. -/
def numbered? (group number : Nat) : Option Mnemonic :=
  match group with
  | 0 => computations[number]?
  | 1 => access? number
  | 2 => transfers[number]?
  | _ => none

/-- The instruction whose number another one shares, told apart by `X`. -/
def sharing : Mnemonic → Mnemonic
  | .alu .addWithCarry => .alu .add
  | .alu .subWithBorrow => .alu .sub
  | .aluImmediate .and => .alu .and
  | .aluImmediate .or => .alu .or
  | .aluImmediate .xor => .alu .xor
  | mnemonic => mnemonic

/-- The values of `X` in the long words of an instruction. -/
def Extends (mnemonic : Mnemonic) (x : Nat) : Prop :=
  match mnemonic with
  | .alu .addWithCarry | .alu .subWithBorrow => x = 1
  | .aluImmediate .and | .aluImmediate .or | .aluImmediate .xor => bits x 3 3 = 1
  | .aluImmediate .add | .aluImmediate .sub | .moveImmediate => True
  | .load _ _ | .store _ _ | .branchAndLink | .branch _ => True
  | .nop | .alu _ | .aluImmediate _ | .move | .branchAlways => x = 0
  | .jump | .jumpAndLink | .jumpConditional _ => x = 0

/-- The operand fields that an instruction leaves unused are zero. -/
def Vacant (mnemonic : Mnemonic) (b c : Nat) : Prop :=
  match mnemonic with
  | .move => c = 0
  | .jump => b = 0 ∧ c = 0
  | .jumpAndLink => b = 0
  | _ => True

/-- The numbers that the operand fields of a word make together: commands and
immediates are unsigned, the offsets of memory accesses and of the three kinds
of branches are signed in their own widths. -/
structure Numbers where
  command : Nat
  immediate : ImmediateOp → Nat
  wideImmediate : Nat
  memoryOffset : Int
  conditionalOffset : Int
  linkOffset : Int
  branchOffset : Int

/-- The numbers of a short word with the fields `A`, `B` and `C`. -/
def shortNumbers (a b c : Nat) : Numbers where
  command := 2 ^ 3 * b + c
  immediate
    | .add | .sub | .and | .or | .xor => c
    | .asr | .lsl | .lsr => c + 1
  wideImmediate := 2 ^ 3 * b + c
  memoryOffset := signed 3 c
  conditionalOffset := signed 3 a
  linkOffset := signed 6 (2 ^ 3 * a + b)
  branchOffset := signed 9 (2 ^ 6 * a + 2 ^ 3 * b + c)

/-- The numbers of a long word with the six-bit fields `A`, `B` and `C` and the
extension `X`. -/
def longNumbers (a b c x : Nat) : Numbers where
  command := 2 ^ 6 * b + c
  immediate
    | .add | .sub => 2 ^ 6 * x + c
    | .and | .or | .xor => 2 ^ 6 * bits x 2 0 + c
    | .asr | .lsl | .lsr => c + 1
  wideImmediate := 2 ^ 12 * x + 2 ^ 6 * b + c
  memoryOffset := signed 10 (2 ^ 6 * x + c)
  conditionalOffset := signed 10 (2 ^ 6 * x + a)
  linkOffset := signed 16 (2 ^ 12 * x + 2 ^ 6 * a + b)
  branchOffset := signed 18 (2 ^ 12 * a + 2 ^ 6 * b + c)

/-- The operation of an instruction with the fields `A`, `B` and `C`. -/
def operation (mnemonic : Mnemonic) (a b c : Nat) (numbers : Numbers) : Operation :=
  match mnemonic with
  | .nop => .nop (register a) numbers.command
  | .alu op => .alu op (register a) (register b) (register c)
  | .aluImmediate op =>
      .aluImmediate op.aluOp (register a) (register b) (numbers.immediate op)
  | .move => .move (register a) (register b)
  | .moveImmediate => .moveImmediate (register a) numbers.wideImmediate
  | .load width mode => .load width mode (register a) (register b) numbers.memoryOffset
  | .store width mode => .store width mode (register a) numbers.memoryOffset (register b)
  | .branchAlways => .branchAlways numbers.branchOffset
  | .branchAndLink => .branchAndLink numbers.linkOffset (register c)
  | .branch condition =>
      .branch condition numbers.conditionalOffset (register b) (register c)
  | .jump => .jump (register a)
  | .jumpAndLink => .jumpAndLink (register a) (register c)
  | .jumpConditional condition =>
      .jumpConditional condition (register a) (register b) (register c)

/-- A sixteen-bit word that is listed as an instruction. -/
structure IsShort (word : Nat) (instruction : Instruction) : Prop where
  form : instruction.opcode.form = .short
  length : bits word 15 15 = 0
  number : numbered? (bits word 14 13) (bits word 12 9) = some instruction.opcode.mnemonic
  vacant : Vacant instruction.opcode.mnemonic (bits word 5 3) (bits word 2 0)
  operation : instruction.operation =
    operation instruction.opcode.mnemonic (bits word 8 6) (bits word 5 3) (bits word 2 0)
      (shortNumbers (bits word 8 6) (bits word 5 3) (bits word 2 0))

/-- The six-bit field whose halves lie at `high` and at `low`. -/
def split (word high low : Nat) : Nat :=
  2 ^ 3 * bits word (high + 2) high + bits word (low + 2) low

/-- A thirty-two-bit word that is listed as an instruction. -/
structure IsLong (word : Nat) (instruction : Instruction) : Prop where
  form : instruction.opcode.form = .long
  length : bits word 15 15 = 1
  reserved : bits word 31 29 = 0
  number : numbered? (bits word 14 13) (bits word 12 9) =
    some (sharing instruction.opcode.mnemonic)
  extend : Extends instruction.opcode.mnemonic (bits word 28 25)
  vacant : Vacant instruction.opcode.mnemonic (split word 19 3) (split word 16 0)
  operation : instruction.operation =
    operation instruction.opcode.mnemonic (split word 22 6) (split word 19 3) (split word 16 0)
      (longNumbers (split word 22 6) (split word 19 3) (split word 16 0) (bits word 28 25))

/-- The bytes begin with a word that is listed as the instruction, low bytes
first. -/
def Begins (bytes : List Byte) (instruction : Instruction) : Prop :=
  (∃ first second rest, bytes = first :: second :: rest ∧
    IsShort (first.toNat + 2 ^ 8 * second.toNat) instruction) ∨
  ∃ first second third fourth rest, bytes = first :: second :: third :: fourth :: rest ∧
    IsLong
      (first.toNat + 2 ^ 8 * second.toNat + 2 ^ 16 * third.toNat + 2 ^ 24 * fourth.toNat)
      instruction

end Published

end Aap
