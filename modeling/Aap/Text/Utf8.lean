import Aap.Word

/-!
# UTF-8 text of program output

Output bytes are shown as text by decoding them as UTF-8.  Bytes that are not
part of a well-formed sequence are shown as the replacement character, one for
each maximal run that could have begun a sequence.
-/

namespace Aap.Text

/-- The character shown for bytes that are not UTF-8. -/
def replacement : Char := '\uFFFD'

/-- What the decoder expects next. -/
inductive Utf8State where
  | idle
  /-- `missing + 1` more bytes of a sequence: the next one lies between `least`
  and `greatest`, and `value` holds the bits read so far. -/
  | inside (missing least greatest value : Nat)
  deriving DecidableEq

namespace Utf8State

/-- The characters shown and the state reached on a byte that begins a
sequence, or cannot. -/
def begin (byte : Nat) : List Char × Utf8State :=
  if byte < 0x80 then ([Char.ofNat byte], idle)
  else if byte < 0xC2 then ([replacement], idle)
  else if byte < 0xE0 then ([], inside 0 0x80 0xBF (byte - 0xC0))
  else if byte = 0xE0 then ([], inside 1 0xA0 0xBF 0)
  else if byte = 0xED then ([], inside 1 0x80 0x9F 0xD)
  else if byte < 0xF0 then ([], inside 1 0x80 0xBF (byte - 0xE0))
  else if byte = 0xF0 then ([], inside 2 0x90 0xBF 0)
  else if byte < 0xF4 then ([], inside 2 0x80 0xBF (byte - 0xF0))
  else if byte = 0xF4 then ([], inside 2 0x80 0x8F 4)
  else ([replacement], idle)

/-- The characters shown and the state reached on a byte. -/
def next (state : Utf8State) (byte : Nat) : List Char × Utf8State :=
  match state with
  | idle => begin byte
  | inside missing least greatest value =>
      if least ≤ byte ∧ byte ≤ greatest then
        let extended := 64 * value + byte % 64
        match missing with
        | 0 => ([Char.ofNat extended], idle)
        | missing + 1 => ([], inside missing 0x80 0xBF extended)
      else
        let (shown, state) := begin byte
        (replacement :: shown, state)

/-- The characters shown when the bytes end. -/
def finish : Utf8State → List Char
  | idle => []
  | inside _ _ _ _ => [replacement]

def decode (state : Utf8State) : List Byte → List Char
  | [] => state.finish
  | byte :: rest =>
      let (shown, reached) := state.next byte.toNat
      shown ++ decode reached rest

end Utf8State

def ofUtf8 (bytes : List Byte) : String :=
  String.ofList (Utf8State.idle.decode bytes)

def toUtf8 (text : String) : List Byte :=
  text.toUTF8.data.toList.map UInt8.toBitVec

end Aap.Text
