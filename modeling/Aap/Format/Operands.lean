import Aap.Format.Field
import Aap.Instruction.DecodeError
import Aap.Instruction.Opcode

/-!
# Operand fields

The operand fields of a word, joined where a long word splits them, and the
operation that they make with a mnemonic.  Registers, immediates and shift
amounts are unsigned, offsets are signed; a shift by `n` is encoded as `n - 1`.
-/

namespace Aap

/-- The operand fields of an instruction word. -/
structure OperandFields where
  form : Form
  a : Nat
  b : Nat
  c : Nat
  /-- The extension, zero in a short word. -/
  x : Nat
  deriving DecidableEq

/-- The shift amount that a field encodes. -/
def shiftAmount (field : Nat) : Nat :=
  field + 1

/-- The register and offset packed into a memory operand: the offset is the low
sixteen bits, the register the bits above. -/
def Form.memoryOperand (form : Form) (packed : Nat) : Except DecodeError (Reg × Int) := do
  let register ← form.registerClass.lookup ((packed >>> 16) % (1 <<< form.fieldWidth))
  return (register, signedField form.offsetWidth (packed % (1 <<< 16)))

namespace OperandFields

def ofShort (word : Word) : OperandFields :=
  let wide := word.setWidth 32
  { form := .short
    a := Field.a.read wide
    b := Field.b.read wide
    c := Field.c.read wide
    x := 0 }

def ofLong (word : BitVec 32) : OperandFields :=
  { form := .long
    a := 8 * Field.aHigh.read word + Field.a.read word
    b := 8 * Field.bHigh.read word + Field.b.read word
    c := 8 * Field.cHigh.read word + Field.c.read word
    x := Field.x.read word }

def register (fields : OperandFields) (field : Nat) : Except DecodeError Reg :=
  fields.form.registerClass.lookup field

/-- One operand field followed by another of the same form. -/
def joined (fields : OperandFields) (upper lower : Nat) : Nat :=
  (upper <<< fields.form.fieldWidth) + lower

/-- The pointer register named by a field, and the offset of the access. -/
def memoryOperand (fields : OperandFields) (field : Nat) : Except DecodeError (Reg × Int) :=
  fields.form.memoryOperand ((field <<< 16) + ((fields.x <<< 6) + fields.c))

def immediate (fields : OperandFields) : ImmediateOp → Nat
  | .add | .sub => (fields.x <<< 6) + fields.c
  | .and | .or | .xor => ((fields.x % 8) <<< 6) + fields.c
  | .asr | .lsl | .lsr => shiftAmount fields.c

def wideImmediate (fields : OperandFields) : Nat :=
  (fields.x <<< 12) + fields.joined fields.b fields.c

def conditionalOffset (fields : OperandFields) : Int :=
  signedField fields.form.offsetWidth ((fields.x <<< 6) + fields.a)

/-- The offset of a branch that keeps its return address. -/
def linkOffset (fields : OperandFields) : Int :=
  match fields.form with
  | .short => signedField 6 (fields.joined fields.a fields.b)
  | .long => signedField 16 ((fields.x <<< 12) + fields.joined fields.a fields.b)

def branchOffset (fields : OperandFields) : Int :=
  signedField (3 * fields.form.fieldWidth)
    (fields.joined (fields.joined fields.a fields.b) fields.c)

end OperandFields

/-- The operation of a mnemonic with the operands in given fields. -/
def Mnemonic.operation (mnemonic : Mnemonic) (fields : OperandFields) :
    Except DecodeError Operation :=
  match mnemonic with
  | nop => do
      let reg ← fields.register fields.a
      return .nop reg (fields.joined fields.b fields.c)
  | alu op => do
      let rd ← fields.register fields.a
      let ra ← fields.register fields.b
      let rb ← fields.register fields.c
      return .alu op rd ra rb
  | aluImmediate op => do
      let rd ← fields.register fields.a
      let ra ← fields.register fields.b
      return .aluImmediate op.aluOp rd ra (fields.immediate op)
  | move => do
      let rd ← fields.register fields.a
      let rs ← fields.register fields.b
      return .move rd rs
  | moveImmediate => do
      let rd ← fields.register fields.a
      return .moveImmediate rd fields.wideImmediate
  | load width mode => do
      let (base, offset) ← fields.memoryOperand fields.b
      let rd ← fields.register fields.a
      return .load width mode rd base offset
  | store width mode => do
      let (base, offset) ← fields.memoryOperand fields.a
      let rs ← fields.register fields.b
      return .store width mode base offset rs
  | branchAlways => return .branchAlways fields.branchOffset
  | branchAndLink => do
      let link ← fields.register fields.c
      return .branchAndLink fields.linkOffset link
  | branch condition => do
      let ra ← fields.register fields.b
      let rb ← fields.register fields.c
      return .branch condition fields.conditionalOffset ra rb
  | jump => do
      let target ← fields.register fields.a
      return .jump target
  | jumpAndLink => do
      let target ← fields.register fields.a
      let link ← fields.register fields.c
      return .jumpAndLink target link
  | jumpConditional condition => do
      let target ← fields.register fields.a
      let ra ← fields.register fields.b
      let rb ← fields.register fields.c
      return .jumpConditional condition target ra rb

end Aap
