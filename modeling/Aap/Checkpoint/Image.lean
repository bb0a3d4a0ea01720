import Aap.Machine

/-!
# Machine images

A machine is stored as plain lists: register values, and for each memory its
bytes with the name of its space.  Restoring an image checks what the lists
cannot promise: their lengths, and that each memory is stored in its own slot.
-/

namespace Aap

/-- Why stored values are not a machine state. -/
inductive StateError where
  | registerIndex (error : RegisterIndexError)
  | registerFileLength (length : Nat)
  | memoryLength (space : Space) (length expected : Nat)
  /-- The memory of one space is stored in the slot of another. -/
  | misplaced (expected found : Space)
  deriving DecidableEq

def StateError.message : StateError → String
  | .registerIndex error => error.message
  | .registerFileLength length => s!"register file holds {length} registers, expected 64"
  | .memoryLength space length expected =>
      s!"{space.name} image holds {length} bytes, expected {expected}"
  | .misplaced expected found =>
      s!"{found.name} image stored where {expected.name} memory belongs"

structure ProcessorImage where
  registers : List Word
  pc : Word
  overflow : Bool
  exitCode : Word
  deriving DecidableEq

structure MemoryImage where
  space : Space
  bytes : List Byte
  deriving DecidableEq

/-- A memory together with its space. -/
structure AnyMemory where
  space : Space
  memory : Memory space

namespace ProcessorImage

def restore (image : ProcessorImage) : Except StateError Processor :=
  if lengthEq : image.registers.length = 64 then
    .ok ⟨⟨image.registers.toArray, by simpa using lengthEq⟩, image.pc, image.overflow,
      image.exitCode⟩
  else
    .error (.registerFileLength image.registers.length)

end ProcessorImage

def Processor.image (processor : Processor) : ProcessorImage :=
  ⟨processor.registers.toList, processor.pc, processor.overflow, processor.exitCode⟩

@[simp]
theorem ProcessorImage.restore_image (processor : Processor) :
    processor.image.restore = .ok processor := by
  obtain ⟨⟨values, sizeEq⟩, pc, overflow, exitCode⟩ := processor
  simp [restore, Processor.image, Vector.toList, sizeEq]

namespace MemoryImage

def restore (image : MemoryImage) : Except StateError AnyMemory :=
  if lengthEq : image.bytes.length = image.space.size then
    .ok ⟨image.space, ⟨⟨image.bytes.toArray, by simpa using lengthEq⟩⟩⟩
  else
    .error (.memoryLength image.space image.bytes.length image.space.size)

end MemoryImage

namespace AnyMemory

/-- The memory as the contents of a given slot. -/
def place (stored : AnyMemory) (expected : Space) : Except StateError (Memory expected) :=
  if spaceEq : stored.space = expected then
    .ok (spaceEq ▸ stored.memory)
  else
    .error (.misplaced expected stored.space)

def image (stored : AnyMemory) : MemoryImage :=
  ⟨stored.space, stored.memory.bytes.toList⟩

@[simp]
theorem restore_image (stored : AnyMemory) : stored.image.restore = .ok stored := by
  obtain ⟨space, ⟨⟨bytes, sizeEq⟩⟩⟩ := stored
  simp [MemoryImage.restore, image, Vector.toList, sizeEq]

@[simp]
theorem place_self {space : Space} (memory : Memory space) :
    (AnyMemory.mk space memory).place space = .ok memory := by
  simp [place]

end AnyMemory

/-- The machine made of restored parts, each memory in its slot. -/
def Machine.assemble (processor : Processor) (code data : AnyMemory) :
    Except StateError Machine := do
  let code ← code.place .code
  let data ← data.place .data
  return ⟨processor, code, data⟩

end Aap
