import Aap.Register
import Aap.Text.Hexadecimal

/-!
# Decode errors

Why the bytes at an address are not an instruction, and how far a reader may
skip to look for the next one.
-/

namespace Aap

/-- Why bytes do not decode. -/
inductive DecodeError where
  | truncated
  | noMatchingEncoding
  | registerOutOfRange (registerClass : RegisterClass) (index : Nat)
  deriving DecidableEq

def DecodeError.message : DecodeError → String
  | .truncated => "instruction stream truncated"
  | .noMatchingEncoding => "no instruction encoding matches"
  | .registerOutOfRange registerClass index =>
      s!"register index {index} is outside the {registerClass.name} register class"

/-- A decode error with its place. -/
structure DecodeFailure where
  error : DecodeError
  /-- The bytes that may be skipped to resume decoding, zero if none follow. -/
  skip : Nat
  /-- The byte address at which decoding was tried. -/
  address : Nat
  deriving DecidableEq

def DecodeFailure.message (failure : DecodeFailure) : String :=
  s!"decode failed at byte address {Text.hexadecimal 4 failure.address}: " ++
    failure.error.message

/-- The register of a class that a field names. -/
def RegisterClass.lookup (registerClass : RegisterClass) (index : Nat) :
    Except DecodeError Reg :=
  match registerClass.register? index with
  | some register => .ok register
  | none => .error (.registerOutOfRange registerClass index)

end Aap
