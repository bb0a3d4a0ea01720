/-!
# Fields of an instruction word

An instruction word is read in contiguous bit fields.  Short words use the low
half only; the high half of a long word holds the upper parts of the operand
fields and an extension field.
-/

namespace Aap

/-- A run of adjacent bits in an instruction word. -/
structure Field where
  low : Nat
  width : Nat
  deriving DecidableEq

namespace Field

/-- The bits of the field, at their place. -/
def mask (field : Field) : BitVec 32 :=
  BitVec.ofNat 32 (((1 <<< field.width) - 1) <<< field.low)

/-- The value that a word has in the field. -/
def read (field : Field) (word : BitVec 32) : Nat :=
  ((word &&& field.mask) >>> field.low).toNat

/-- A value moved to the place of the field. -/
def place (field : Field) (value : Nat) : BitVec 32 :=
  BitVec.ofNat 32 (value <<< field.low)

/-- One for a long word, zero for a short one. -/
def length : Field := ⟨15, 1⟩

/-- The class of the instruction. -/
def group : Field := ⟨13, 2⟩

/-- The number of the instruction in its class. -/
def number : Field := ⟨9, 4⟩

/-- The first operand, or its lower part. -/
def a : Field := ⟨6, 3⟩

/-- The second operand, or its lower part. -/
def b : Field := ⟨3, 3⟩

/-- The third operand, or its lower part. -/
def c : Field := ⟨0, 3⟩

/-- The bits of a long word that are always zero. -/
def reserved : Field := ⟨29, 3⟩

/-- The extension of a long word: more bits of an immediate or offset, or a
selector. -/
def x : Field := ⟨25, 4⟩

/-- The top bit of the extension, set in bitwise operations with immediates. -/
def xTop : Field := ⟨28, 1⟩

/-- The upper part of the first operand. -/
def aHigh : Field := ⟨22, 3⟩

/-- The upper part of the second operand. -/
def bHigh : Field := ⟨19, 3⟩

/-- The upper part of the third operand. -/
def cHigh : Field := ⟨16, 3⟩

end Field

end Aap
