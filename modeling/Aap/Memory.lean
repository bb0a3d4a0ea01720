import Aap.Text.Hexadecimal
import Aap.Word

/-!
# Address spaces

Code and data live in two separate byte-addressed memories of fixed size.  A
byte outside a space reads as zero and cannot be written.  A section is loaded
whole or not at all.
-/

namespace Aap

/-- The two memories of the machine. -/
inductive Space where
  /-- Instructions, which the program counter addresses by words. -/
  | code
  | data
  deriving DecidableEq

namespace Space

/-- The number of bytes in a space: every word of code has a program counter,
every byte of data a sixteen-bit address. -/
def size : Space → Nat
  | code => 131072
  | data => 65536

def name : Space → String
  | code => "Code"
  | data => "Data"

end Space

/-- A section that does not fit into the space it is meant for. -/
structure LoadError where
  space : Space
  address : Nat
  length : Nat
  deriving DecidableEq

def LoadError.message (error : LoadError) : String :=
  s!"{error.length}-byte section at {Text.hexadecimal 1 error.address} does not fit in " ++
    s!"{error.space.name} memory"

/-- The contents of one address space. -/
@[ext]
structure Memory (space : Space) where
  bytes : Vector Byte space.size
  deriving DecidableEq

namespace Memory

variable {space : Space}

def zero (space : Space) : Memory space :=
  ⟨Vector.replicate space.size 0⟩

instance : Inhabited (Memory space) := ⟨zero space⟩

/-- The byte at an address, zero outside the space. -/
def read (memory : Memory space) (address : Nat) : Byte :=
  memory.bytes[address]?.getD 0

/-- The memory after a byte is written; outside the space nothing changes. -/
def write (memory : Memory space) (address : Nat) (byte : Byte) : Memory space :=
  ⟨memory.bytes.setIfInBounds address byte⟩

/-- The word whose low byte is at `address` and whose high byte is at the next
sixteen-bit address. -/
def readWord (memory : Memory space) (address : Word) : Word :=
  Word.ofBytes (memory.read address.toNat) (memory.read (address + 1).toNat)

/-- The bytes of the space from `first` up to but not including `last`. -/
def slice (memory : Memory space) (first last : Nat) : List Byte :=
  (memory.bytes.toArray.extract first last).toList

/-- The bytes from an address to the end of the space. -/
def tail (memory : Memory space) (address : Nat) : List Byte :=
  memory.slice address space.size

/-- The memory after consecutive bytes are written from an address on. -/
def writeAll (memory : Memory space) : Nat → List Byte → Memory space
  | _, [] => memory
  | address, byte :: rest => (memory.write address byte).writeAll (address + 1) rest

/-- The memory after a section is loaded, unless a byte of the section would
fall outside the space. -/
def load (memory : Memory space) (contents : List Byte) (address : Nat) :
    Except LoadError (Memory space) :=
  if address + contents.length ≤ space.size then
    .ok (memory.writeAll address contents)
  else
    .error ⟨space, address, contents.length⟩

@[simp]
theorem read_zero (space : Space) (address : Nat) : (zero space).read address = 0 := by
  simp only [read, zero, Vector.getElem?_replicate]
  split <;> rfl

theorem read_write (memory : Memory space) (written address : Nat) (byte : Byte) :
    (memory.write written byte).read address =
      if written = address ∧ address < space.size then byte else memory.read address := by
  simp only [read, write, Vector.getElem?_setIfInBounds]
  by_cases same : written = address
  · subst same
    by_cases inside : written < space.size
    · simp [inside]
    · simp [inside]
  · simp [same]

theorem read_eq_zero_of_size_le (memory : Memory space) {address : Nat}
    (outside : space.size ≤ address) : memory.read address = 0 := by
  simp [read, Vector.getElem?_eq_none outside]

/-- Two memories of one space are equal when they read alike everywhere. -/
theorem ext_read {left right : Memory space}
    (readEq : ∀ address, left.read address = right.read address) : left = right := by
  apply Memory.ext
  apply Vector.ext
  intro address inside
  have equality := readEq address
  simpa [read, inside] using equality

/-- A byte of consecutively written memory comes from the list where the list
reaches, and from the old memory elsewhere. -/
theorem read_writeAll (memory : Memory space) (first : Nat) (contents : List Byte)
    (fits : first + contents.length ≤ space.size) (address : Nat) :
    (memory.writeAll first contents).read address =
      if first ≤ address then
        (contents[address - first]?).getD (memory.read address)
      else
        memory.read address := by
  induction contents generalizing memory first with
  | nil => simp [writeAll]
  | cons byte rest induction =>
      rw [List.length_cons] at fits
      rw [writeAll, induction (memory.write first byte) (first + 1) (by omega)]
      simp only [read_write]
      by_cases before : first ≤ address
      · by_cases here : first = address
        · subst here
          have inside : first < space.size := by omega
          have notAfter : ¬first + 1 ≤ first := by omega
          simp [inside, notAfter]
        · have after : first + 1 ≤ address := by omega
          have offset : address - first = (address - (first + 1)) + 1 := by omega
          simp [before, after, here, offset]
      · have notAfter : ¬first + 1 ≤ address := by omega
        have notHere : first ≠ address := by omega
        simp [before, notAfter, notHere]

theorem length_slice (memory : Memory space) (first last : Nat) :
    (memory.slice first last).length = min last space.size - first := by
  simp [slice]
  omega

theorem getElem?_slice (memory : Memory space) (first last index : Nat) :
    (memory.slice first last)[index]? =
      if first + index < min last space.size then
        some (memory.read (first + index))
      else
        none := by
  simp only [slice, Array.getElem?_toList, Array.getElem?_extract, Vector.size_toArray]
  by_cases inside : first + index < min last space.size
  · have indexLt : index < min last space.size - first := by omega
    have bound : first + index < space.size := by omega
    simp [inside, indexLt, read, bound]
  · have indexGe : ¬index < min last space.size - first := by omega
    simp [inside, indexGe]

end Memory

end Aap
