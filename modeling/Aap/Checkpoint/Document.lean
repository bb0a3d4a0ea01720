import Aap.Checkpoint.Image

/-!
# Stored documents

Images are exchanged as documents: trees of lists, records, texts and numbers.
This module reads values out of a document.  A value of the wrong shape is
malformed; a value of the right shape may still fail to be a machine state, and
then the reader tells why.
-/

namespace Aap

/-- A tree of stored values. -/
inductive Document where
  | null
  | flag (value : Bool)
  | integer (value : Int)
  /-- A number that is not an integer. -/
  | fraction
  | text (value : String)
  | list (items : List Document)
  | record (fields : List (String × Document))

inductive ReadError where
  | malformed
  | invalid (error : StateError)
  deriving DecidableEq

abbrev Read (α : Type) := Except ReadError α

namespace Read

/-- A part that has to be there. -/
def required {α : Type} : Option α → Read α
  | some value => .ok value
  | none => .error .malformed

/-- A value that was checked after it was read. -/
def checked {α : Type} : Except StateError α → Read α
  | .ok value => .ok value
  | .error error => .error (.invalid error)

end Read

namespace Document

/-- An unsigned number below a limit. -/
def natural (limit : Nat) : Document → Read Nat
  | integer value =>
      if 0 ≤ value ∧ value < limit then .ok value.toNat else .error .malformed
  | _ => .error .malformed

def bits (width : Nat) (document : Document) : Read (BitVec width) := do
  let value ← document.natural (1 <<< width)
  return BitVec.ofNat width value

def truth : Document → Read Bool
  | flag value => .ok value
  | _ => .error .malformed

def nullable {α : Type} (read : Document → Read α) : Document → Read (Option α)
  | null => .ok none
  | document => return some (← read document)

def listOf {α : Type} (read : Document → Read α) : Document → Read (List α)
  | list items => items.mapM read
  | _ => .error .malformed

/-- One of a few named values: its name alone, or a record that gives the name
no contents. -/
def variant {α : Type} (values : List (String × α)) : Document → Read α
  | text name | record [(name, null)] => Read.required (values.lookup name)
  | _ => .error .malformed

/-- The parts of a document that has named parts. -/
structure Parts where
  fields : List (String × Document)
  /-- Whether the number of parts is right, where names do not decide it. -/
  complete : Bool

/-- The named parts of a record.  The names may be left out: then the document
is the list of all parts in order. -/
def parts (names : List String) : Document → Read Parts
  | record fields => .ok ⟨fields, true⟩
  | list items => .ok ⟨names.zip items, names.length == items.length⟩
  | _ => .error .malformed

namespace Parts

def optional {α : Type} (parts : Parts) (name : String) (read : Document → Read α) :
    Read (Option α) :=
  match parts.fields.lookup name with
  | some document => return some (← read document)
  | none => .ok none

/-- Fails unless the number of parts is right. -/
def close (parts : Parts) : Read Unit :=
  if parts.complete then .ok () else .error .malformed

end Parts

end Document

end Aap
