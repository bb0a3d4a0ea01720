import Aap.Instruction.Operation

/-!
# Opcodes

A mnemonic fixes everything about an operation except its operands.  An opcode
is a mnemonic together with the form in which it is encoded; the short form
offers only some of the mnemonics.
-/

namespace Aap

/-- The length of an encoded instruction. -/
inductive Form where
  | short
  | long
  deriving DecidableEq

namespace Form

/-- The number of code words that an instruction of this form takes. -/
def words : Form → Nat
  | short => 1
  | long => 2

def size (form : Form) : Nat :=
  2 * form.words

def fieldWidth : Form → Nat
  | short => 3
  | long => 6

/-- The number of bits in the offset of a load, a store or a conditional
branch. -/
def offsetWidth : Form → Nat
  | short => 3
  | long => 10

def registerClass : Form → RegisterClass
  | short => .narrow
  | long => .full

end Form

/-- The computations that take an encoded immediate. -/
inductive ImmediateOp where
  | add
  | sub
  | and
  | or
  | xor
  | asr
  | lsl
  | lsr
  deriving DecidableEq

def ImmediateOp.aluOp : ImmediateOp → AluOp
  | .add => .add
  | .sub => .sub
  | .and => .and
  | .or => .or
  | .xor => .xor
  | .asr => .asr
  | .lsl => .lsl
  | .lsr => .lsr

/-- The operation of an instruction without its operands. -/
inductive Mnemonic where
  | nop
  | alu (op : AluOp)
  | aluImmediate (op : ImmediateOp)
  | move
  | moveImmediate
  | load (width : Width) (mode : Mode)
  | store (width : Width) (mode : Mode)
  | branchAlways
  | branchAndLink
  | branch (condition : Condition)
  | jump
  | jumpAndLink
  | jumpConditional (condition : Condition)
  deriving DecidableEq

namespace Mnemonic

def aluName : AluOp → String
  | .add => "Add"
  | .addWithCarry => "Addc"
  | .sub => "Sub"
  | .subWithBorrow => "Subc"
  | .and => "And"
  | .or => "Or"
  | .xor => "Xor"
  | .asr => "Asr"
  | .lsl => "Lsl"
  | .lsr => "Lsr"

def widthName : Width → String
  | .byte => "b"
  | .word => "w"

def modeName : Mode → String
  | .plain => ""
  | .postIncrement => "Postinc"
  | .preDecrement => "Predec"

def conditionName : Condition → String
  | .equal => "eq"
  | .notEqual => "ne"
  | .lessSigned => "lts"
  | .greaterSigned => "gts"
  | .lessUnsigned => "ltu"
  | .greaterUnsigned => "gtu"

def name : Mnemonic → String
  | nop => "Nop"
  | alu op => aluName op
  | aluImmediate op => aluName op.aluOp ++ "i"
  | move => "Mov"
  | moveImmediate => "Movi"
  | load width mode => "Ld" ++ widthName width ++ modeName mode
  | store width mode => "St" ++ widthName width ++ modeName mode
  | branchAlways => "Bra"
  | branchAndLink => "Bal"
  | branch condition => "B" ++ conditionName condition
  | jump => "Jmp"
  | jumpAndLink => "Jal"
  | jumpConditional condition => "J" ++ conditionName condition

/-- All mnemonics, by class and then by the number they are encoded with. -/
def all : List Mnemonic :=
  [ nop,
    alu .add, alu .addWithCarry, alu .sub, alu .subWithBorrow,
    alu .and, aluImmediate .and, alu .or, aluImmediate .or,
    alu .xor, aluImmediate .xor, alu .asr, alu .lsl, alu .lsr,
    move,
    aluImmediate .add, aluImmediate .sub,
    aluImmediate .asr, aluImmediate .lsl, aluImmediate .lsr,
    moveImmediate,
    load .byte .plain, load .byte .postIncrement, load .byte .preDecrement,
    load .word .plain, load .word .postIncrement, load .word .preDecrement,
    store .byte .plain, store .byte .postIncrement, store .byte .preDecrement,
    store .word .plain, store .word .postIncrement, store .word .preDecrement,
    branchAlways, branchAndLink,
    branch .equal, branch .notEqual, branch .lessSigned, branch .greaterSigned,
    branch .lessUnsigned, branch .greaterUnsigned,
    jump, jumpAndLink,
    jumpConditional .equal, jumpConditional .notEqual,
    jumpConditional .lessSigned, jumpConditional .greaterSigned,
    jumpConditional .lessUnsigned, jumpConditional .greaterUnsigned ]

theorem mem_all (mnemonic : Mnemonic) : mnemonic ∈ all := by
  cases mnemonic with
  | alu op => cases op <;> decide
  | aluImmediate op => cases op <;> decide
  | load width mode => cases width <;> cases mode <;> decide
  | store width mode => cases width <;> cases mode <;> decide
  | branch condition => cases condition <;> decide
  | jumpConditional condition => cases condition <;> decide
  | _ => decide

/-- Whether a form can encode a mnemonic: arithmetic with the flag and bitwise
immediates need the long form. -/
def hasForm (mnemonic : Mnemonic) : Form → Bool
  | .long => true
  | .short =>
      match mnemonic with
      | alu .addWithCarry | alu .subWithBorrow => false
      | aluImmediate .and | aluImmediate .or | aluImmediate .xor => false
      | _ => true

end Mnemonic

/-- A mnemonic in one of the forms that encode it. -/
structure Opcode where
  form : Form
  mnemonic : Mnemonic
  hasForm : mnemonic.hasForm form = true
  deriving DecidableEq

namespace Opcode

def ofForm (form : Form) : List Opcode :=
  Mnemonic.all.filterMap fun mnemonic =>
    if hasForm : mnemonic.hasForm form = true then some ⟨form, mnemonic, hasForm⟩ else none

/-- All opcodes, the short ones first. -/
def all : List Opcode :=
  ofForm .short ++ ofForm .long

def name (opcode : Opcode) : String :=
  match opcode.form with
  | .short => opcode.mnemonic.name ++ "Short"
  | .long => opcode.mnemonic.name

def size (opcode : Opcode) : Nat :=
  opcode.form.size

theorem mem_ofForm (opcode : Opcode) (form : Form) :
    opcode ∈ ofForm form ↔ opcode.form = form := by
  simp only [ofForm, List.mem_filterMap]
  constructor
  · rintro ⟨mnemonic, _, chosen⟩
    split at chosen
    · next hasForm =>
        cases chosen
        rfl
    · cases chosen
  · rintro rfl
    exact ⟨opcode.mnemonic, Mnemonic.mem_all _, by simp [opcode.hasForm]⟩

theorem mem_all (opcode : Opcode) : opcode ∈ all := by
  simp only [all, List.mem_append, mem_ofForm]
  cases opcode.form <;> simp

end Opcode

/-- A decoded instruction. -/
structure Instruction where
  opcode : Opcode
  operation : Operation
  deriving DecidableEq

namespace Instruction

def size (instruction : Instruction) : Nat :=
  instruction.opcode.size

def words (instruction : Instruction) : Nat :=
  instruction.opcode.form.words

end Instruction

end Aap
