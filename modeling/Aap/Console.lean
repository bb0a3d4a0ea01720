import Aap.Word

/-!
# Console

The program writes bytes to two output streams.  A console keeps what was
written to each, in order.
-/

namespace Aap

inductive Stream where
  | stdout
  | stderr
  deriving DecidableEq

/-- The bytes written to the output streams. -/
@[ext]
structure Console where
  stdout : Array Byte
  stderr : Array Byte
  deriving DecidableEq

namespace Console

/-- A console to which nothing was written. -/
def empty : Console := ⟨#[], #[]⟩

instance : Inhabited Console := ⟨empty⟩

def put (console : Console) (stream : Stream) (byte : Byte) : Console :=
  match stream with
  | .stdout => { console with stdout := console.stdout.push byte }
  | .stderr => { console with stderr := console.stderr.push byte }

def bytes (console : Console) : Stream → List Byte
  | .stdout => console.stdout.toList
  | .stderr => console.stderr.toList

@[simp]
theorem bytes_put (console : Console) (written stream : Stream) (byte : Byte) :
    (console.put written byte).bytes stream =
      console.bytes stream ++ if written = stream then [byte] else [] := by
  cases written <;> cases stream <;> simp [put, bytes]

end Console

end Aap
