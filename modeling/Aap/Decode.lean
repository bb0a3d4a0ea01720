import Aap.Format.Encoding
import Aap.Format.Operands
import Aap.Machine

/-!
# Decoding

Bytes are decoded as a short instruction if their first word is one, and as a
long instruction otherwise.  A failure tells whether more bytes would have been
needed or whether the next word may be tried.  If no long word is listed
either, what was wrong with the short word is reported.
-/

namespace Aap

namespace Instruction

/-- The instruction of an opcode with the operands in given fields. -/
def ofFields (opcode : Opcode) (fields : OperandFields) : Except DecodeError Instruction := do
  let operation ← opcode.mnemonic.operation fields
  return ⟨opcode, operation⟩

def ofShort (word : Word) : Except DecodeError Instruction :=
  match Encoding.shortOpcode? word with
  | some opcode => ofFields opcode (.ofShort word)
  | none => .error .noMatchingEncoding

def ofLong (word : BitVec 32) : Except DecodeError Instruction :=
  match Encoding.longOpcode? word with
  | some opcode => ofFields opcode (.ofLong word)
  | none => .error .noMatchingEncoding

/-- The instruction at the start of `bytes`, which are found at `address`. -/
def decode (bytes : List Byte) (address : Nat) : Except DecodeFailure Instruction :=
  match bytes with
  | first :: second :: rest =>
      let low := Word.ofBytes first second
      match ofShort low with
      | .ok instruction => .ok instruction
      | .error shortError =>
          match rest with
          | third :: fourth :: _ =>
              match ofLong (Word.ofBytes third fourth ++ low) with
              | .ok instruction => .ok instruction
              | .error .noMatchingEncoding => .error ⟨shortError, 2, address⟩
              | .error error => .error ⟨error, 2, address⟩
          | _ => .error ⟨.truncated, 0, address⟩
  | _ => .error ⟨.truncated, 0, address⟩

end Instruction

/-- The instruction that code memory holds at a program counter. -/
def Memory.fetch (code : Memory .code) (pc : Word) : Except DecodeFailure Instruction :=
  let address := 2 * pc.toNat
  Instruction.decode (code.slice address (address + 4)) address

end Aap
