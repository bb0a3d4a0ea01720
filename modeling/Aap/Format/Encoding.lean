import Aap.Format.Field
import Aap.Instruction.Opcode

/-!
# Encoding tables

Every opcode fixes some fields of its words.  A table lists the opcodes of one
form with the bits they fix, and a word is looked up by the first row that
accepts it.
-/

namespace Aap

/-- A set of instruction words: those with given values in the masked bits. -/
structure Pattern where
  mask : BitVec 32
  bits : BitVec 32
  deriving DecidableEq

namespace Pattern

/-- Whether a word belongs to the pattern. -/
def accepts (pattern : Pattern) (word : BitVec 32) : Bool :=
  word &&& pattern.mask == pattern.bits

/-- Whether the patterns agree on the bits that matter to both. -/
def overlaps (left right : Pattern) : Bool :=
  (left.bits ^^^ right.bits) &&& (left.mask &&& right.mask) == 0

/-- The words with given values in given fields. -/
def ofFields (fixed : List (Field × Nat)) : Pattern where
  mask := fixed.foldr (fun entry mask => entry.1.mask ||| mask) 0
  bits := fixed.foldr (fun entry bits => entry.1.place entry.2 ||| bits) 0

end Pattern

namespace AluOp

/-- The number that encodes a computation; the variants with the flag share the
number of their plain forms. -/
def number : AluOp → Nat
  | add | addWithCarry => 0x1
  | sub | subWithBorrow => 0x2
  | and => 0x3
  | or => 0x4
  | xor => 0x5
  | asr => 0x6
  | lsl => 0x7
  | lsr => 0x8

/-- The extension that tells the variants with the flag apart. -/
def selector : AluOp → Nat
  | addWithCarry | subWithBorrow => 1
  | _ => 0

end AluOp

def ImmediateOp.number : ImmediateOp → Nat
  | add => 0xA
  | sub => 0xB
  | and => 0x3
  | or => 0x4
  | xor => 0x5
  | asr => 0xC
  | lsl => 0xD
  | lsr => 0xE

def Width.number : Width → Nat
  | byte => 0x0
  | word => 0x4

def Mode.number : Mode → Nat
  | plain => 0x0
  | postIncrement => 0x1
  | preDecrement => 0x2

def Condition.number : Condition → Nat
  | equal => 0x0
  | notEqual => 0x1
  | lessSigned => 0x2
  | greaterSigned => 0x3
  | lessUnsigned => 0x4
  | greaterUnsigned => 0x5

namespace Mnemonic

/-- The class field: zero for computations, one for memory accesses, two for
transfers of control. -/
def group : Mnemonic → Nat
  | nop | alu _ | aluImmediate _ | move | moveImmediate => 0
  | load _ _ | store _ _ => 1
  | branchAlways | branchAndLink | branch _ => 2
  | jump | jumpAndLink | jumpConditional _ => 2

/-- The number field within the class. -/
def number : Mnemonic → Nat
  | nop => 0x0
  | alu op => op.number
  | aluImmediate op => op.number
  | move => 0x9
  | moveImmediate => 0xF
  | load width mode => 0x0 + width.number + mode.number
  | store width mode => 0x8 + width.number + mode.number
  | branchAlways => 0x0
  | branchAndLink => 0x1
  | branch condition => 0x2 + condition.number
  | jump => 0x8
  | jumpAndLink => 0x9
  | jumpConditional condition => 0xA + condition.number

/-- The operand fields of a short word that hold no operand. -/
def shortFixed : Mnemonic → List (Field × Nat)
  | move => [(.c, 0)]
  | jump => [(.b, 0), (.c, 0)]
  | jumpAndLink => [(.b, 0)]
  | _ => []

/-- The operand and extension fields of a long word that hold no operand. -/
def longFixed : Mnemonic → List (Field × Nat)
  | nop => [(.x, 0)]
  | alu op => [(.x, op.selector)]
  | aluImmediate .add | aluImmediate .sub => []
  | aluImmediate .and | aluImmediate .or | aluImmediate .xor => [(.xTop, 1)]
  | aluImmediate .asr | aluImmediate .lsl | aluImmediate .lsr => [(.x, 0)]
  | move => [(.x, 0), (.c, 0), (.cHigh, 0)]
  | moveImmediate | load _ _ | store _ _ => []
  | branchAlways => [(.x, 0)]
  | branchAndLink | branch _ => []
  | jump => [(.x, 0), (.b, 0), (.c, 0), (.bHigh, 0), (.cHigh, 0)]
  | jumpAndLink => [(.x, 0), (.b, 0), (.bHigh, 0)]
  | jumpConditional _ => [(.x, 0)]

end Mnemonic

namespace Opcode

/-- The fields that every word of an opcode shares. -/
def fixedFields (opcode : Opcode) : List (Field × Nat) :=
  match opcode.form with
  | .short =>
      [(.length, 0), (.group, opcode.mnemonic.group), (.number, opcode.mnemonic.number)] ++
        opcode.mnemonic.shortFixed
  | .long =>
      [(.length, 1), (.group, opcode.mnemonic.group), (.number, opcode.mnemonic.number),
        (.reserved, 0)] ++ opcode.mnemonic.longFixed

def pattern (opcode : Opcode) : Pattern :=
  .ofFields opcode.fixedFields

end Opcode

structure Encoding where
  opcode : Opcode
  pattern : Pattern
  deriving DecidableEq

namespace Encoding

def rowsOf (form : Form) : List Encoding :=
  (Opcode.ofForm form).map fun opcode => ⟨opcode, opcode.pattern⟩

def shortTable : List Encoding :=
  rowsOf .short

def longTable : List Encoding :=
  rowsOf .long

def table : Form → List Encoding
  | .short => shortTable
  | .long => longTable

/-- The opcode of the first row that accepts a word. -/
def lookup? (rows : List Encoding) (word : BitVec 32) : Option Opcode :=
  (rows.find? fun row => row.pattern.accepts word).map Encoding.opcode

def shortOpcode? (word : Word) : Option Opcode :=
  lookup? shortTable (word.setWidth 32)

def longOpcode? (word : BitVec 32) : Option Opcode :=
  lookup? longTable word

end Encoding

end Aap
