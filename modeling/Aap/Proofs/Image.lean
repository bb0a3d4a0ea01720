import Aap.Checkpoint.State

/-!
# What documents store

Which image a document stores is said without the readers: a record gives its
parts by name, a list by their places, and numbers stand for themselves.  An
image may have any lengths and any spaces.  The readers accept exactly the
documents that store the image of a machine, and otherwise report the first
fault of the image.
-/

namespace Aap

/-- A stored machine, of which nothing was checked. -/
@[ext]
structure MachineImage where
  processor : ProcessorImage
  code : MemoryImage
  data : MemoryImage

/-- The image that stores a machine. -/
def Machine.image (machine : Machine) : MachineImage where
  processor := machine.processor.image
  code := (AnyMemory.mk .code machine.code).image
  data := (AnyMemory.mk .data machine.data).image

/-- The document has a part: by its name in a record, or in its place in the list
of all parts. -/
inductive Document.Part (names : List String) (name : String) : Document → Document → Prop where
  | named {fields : List (String × Document)} {part : Document}
      (found : fields.lookup name = some part) : Part names name (record fields) part
  | placed {items : List Document} {part : Document} (lengthEq : names.length = items.length)
      (found : (names.zip items).lookup name = some part) : Part names name (list items) part

/-- A space is stored as its name, or as a record that gives the name no contents. -/
def Space.IsStored (space : Space) (document : Document) : Prop :=
  document = .text space.name ∨ document = .record [(space.name, .null)]

structure ProcessorImage.IsStored (image : ProcessorImage) (document : Document) : Prop where
  registers : document.Part ["gpr", "pc", "overflow", "exit_code"] "gpr"
    (.list (image.registers.map .ofBits))
  pc : document.Part ["gpr", "pc", "overflow", "exit_code"] "pc" (.ofBits image.pc)
  overflow : document.Part ["gpr", "pc", "overflow", "exit_code"] "overflow"
    (.flag image.overflow)
  exitCode : document.Part ["gpr", "pc", "overflow", "exit_code"] "exit_code"
    (.ofBits image.exitCode)

structure MemoryImage.IsStored (image : MemoryImage) (document : Document) : Prop where
  space : ∃ part, document.Part ["space", "bytes"] "space" part ∧ image.space.IsStored part
  bytes : document.Part ["space", "bytes"] "bytes" (.list (image.bytes.map .ofBits))

structure MachineImage.IsStored (image : MachineImage) (document : Document) : Prop where
  processor : ∃ part, document.Part ["arch", "code", "data"] "arch" part ∧
    image.processor.IsStored part
  code : ∃ part, document.Part ["arch", "code", "data"] "code" part ∧ image.code.IsStored part
  data : ∃ part, document.Part ["arch", "code", "data"] "data" part ∧ image.data.IsStored part

/-- The lengths are those of a machine, and each memory is in its slot. -/
structure MachineImage.Valid (image : MachineImage) : Prop where
  registers : image.processor.registers.length = 64
  codeLength : image.code.bytes.length = image.code.space.size
  dataLength : image.data.bytes.length = image.data.space.size
  codeSpace : image.code.space = .code
  dataSpace : image.data.space = .data

def ProcessorImage.faults (image : ProcessorImage) : List StateError :=
  if image.registers.length = 64 then [] else [.registerFileLength image.registers.length]

def MemoryImage.faults (image : MemoryImage) : List StateError :=
  if image.bytes.length = image.space.size then
    []
  else
    [.memoryLength image.space image.bytes.length image.space.size]

/-- What is wrong with a space in the slot of another. -/
def Space.faultsIn (found expected : Space) : List StateError :=
  if found = expected then [] else [.misplaced expected found]

/-- All that is wrong with an image, in the order in which it is looked for. -/
def MachineImage.faults (image : MachineImage) : List StateError :=
  image.processor.faults ++ image.code.faults ++ image.data.faults ++
    image.code.space.faultsIn .code ++ image.data.space.faultsIn .data

theorem MachineImage.faults_eq_nil_iff (image : MachineImage) :
    image.faults = [] ↔ image.Valid := by
  have faultless {condition : Prop} [Decidable condition] (fault : StateError) :
      (if condition then [] else [fault]) = [] ↔ condition := by
    split <;> simp_all
  simp only [faults, ProcessorImage.faults, MemoryImage.faults, Space.faultsIn,
    List.append_eq_nil_iff, faultless]
  constructor
  · rintro ⟨⟨⟨⟨registers, codeLength⟩, dataLength⟩, codeSpace⟩, dataSpace⟩
    exact ⟨registers, codeLength, dataLength, codeSpace, dataSpace⟩
  · rintro ⟨registers, codeLength, dataLength, codeSpace, dataSpace⟩
    exact ⟨⟨⟨⟨registers, codeLength⟩, dataLength⟩, codeSpace⟩, dataSpace⟩

/-- A result that is there if there are no faults, and otherwise the first fault. -/
def Reports {Value : Type} (faults : List StateError) : Except StateError Value → Prop
  | .ok _ => faults = []
  | .error error => faults.head? = some error

theorem Reports.bind {Value Result : Type} {earlier later : List StateError}
    {first : Except StateError Value} {next : Value → Except StateError Result}
    (reports : Reports earlier first)
    (nextReports : ∀ value, first = .ok value → Reports later (next value)) :
    Reports (earlier ++ later) (first >>= next) := by
  cases first with
  | error error =>
      change (earlier ++ later).head? = some error
      rw [List.head?_append, show earlier.head? = some error from reports, Option.some_or]
  | ok value =>
      obtain rfl : earlier = [] := reports
      exact nextReports value rfl

theorem ProcessorImage.reports_restore (image : ProcessorImage) :
    Reports image.faults image.restore := by
  unfold restore faults
  split
  · exact rfl
  · exact rfl

theorem ProcessorImage.image_of_restore {image : ProcessorImage} {processor : Processor}
    (restored : image.restore = .ok processor) : processor.image = image := by
  unfold restore at restored
  split at restored
  · cases restored
    rfl
  · cases restored

theorem MemoryImage.reports_restore (image : MemoryImage) :
    Reports image.faults image.restore := by
  unfold restore faults
  split
  · exact rfl
  · exact rfl

theorem MemoryImage.image_of_restore {image : MemoryImage} {stored : AnyMemory}
    (restored : image.restore = .ok stored) : stored.image = image := by
  unfold restore at restored
  split at restored
  · cases restored
    rfl
  · cases restored

theorem AnyMemory.reports_place (stored : AnyMemory) (expected : Space) :
    Reports (stored.space.faultsIn expected) (stored.place expected) := by
  unfold place Space.faultsIn
  split
  · exact rfl
  · exact rfl

theorem AnyMemory.eq_of_place {stored : AnyMemory} {expected : Space}
    {memory : Memory expected} (placed : stored.place expected = .ok memory) :
    stored = ⟨expected, memory⟩ := by
  obtain ⟨space, contents⟩ := stored
  unfold place at placed
  split at placed
  · next spaceEq =>
      cases spaceEq
      cases placed
      rfl
  · cases placed

namespace MachineImage

/-- The machine stored in an image. -/
def restore (image : MachineImage) : Except StateError Machine := do
  let processor ← image.processor.restore
  let code ← image.code.restore
  let data ← image.data.restore
  Machine.assemble processor code data

/-- The checks of the parts find the faults of the whole in their order. -/
theorem reports_restore (image : MachineImage) : Reports image.faults image.restore := by
  rw [faults, List.append_assoc, List.append_assoc, List.append_assoc]
  refine image.processor.reports_restore.bind ?_
  intro processor _
  refine image.code.reports_restore.bind ?_
  intro code codeRestored
  refine image.data.reports_restore.bind ?_
  intro data dataRestored
  rw [← MemoryImage.image_of_restore codeRestored, ← MemoryImage.image_of_restore dataRestored]
  refine (code.reports_place .code).bind ?_
  intro placedCode _
  rw [← List.append_nil (Space.faultsIn _ _)]
  refine (data.reports_place .data).bind ?_
  intro placedData _
  exact rfl

theorem restore_image (machine : Machine) : machine.image.restore = .ok machine := by
  rw [restore, Machine.image, ProcessorImage.restore_image, AnyMemory.restore_image,
    AnyMemory.restore_image]
  rfl

end MachineImage

theorem bind_eq_ok_iff {Error Value Result : Type} {first : Except Error Value}
    {next : Value → Except Error Result} {result : Result} :
    first >>= next = .ok result ↔ ∃ value, first = .ok value ∧ next value = .ok result := by
  cases first with
  | error error => simp [bind, Except.bind]
  | ok value => simp [bind, Except.bind]

theorem pure_eq_ok_iff {Error Value : Type} {value result : Value} :
    (pure value : Except Error Value) = .ok result ↔ value = result :=
  Except.ok.injEq value result ▸ Iff.rfl

theorem MachineImage.image_of_restore {image : MachineImage} {machine : Machine}
    (restored : image.restore = .ok machine) : machine.image = image := by
  simp only [restore, Machine.assemble, bind_eq_ok_iff, pure_eq_ok_iff] at restored
  obtain ⟨processor, processorRestored, code, codeRestored, data, dataRestored, placedCode,
    codePlaced, placedData, dataPlaced, rfl⟩ := restored
  apply MachineImage.ext
  · exact ProcessorImage.image_of_restore processorRestored
  · rw [← MemoryImage.image_of_restore codeRestored, AnyMemory.eq_of_place codePlaced]
    rfl
  · rw [← MemoryImage.image_of_restore dataRestored, AnyMemory.eq_of_place dataPlaced]
    rfl

theorem Read.required_eq_ok_iff {Value : Type} {found : Option Value} {value : Value} :
    Read.required found = .ok value ↔ found = some value := by
  cases found <;> simp [Read.required]

theorem Read.checked_eq_ok_iff {Value : Type} {result : Except StateError Value} {value : Value} :
    Read.checked result = .ok value ↔ result = .ok value := by
  cases result <;> simp [Read.checked]

namespace Document

/-- The reader reads a value from exactly the documents that store it. -/
def Reads {Value : Type} (read : Document → Read Value) (stores : Value → Document → Prop) :
    Prop :=
  ∀ document value, read document = .ok value ↔ stores value document

theorem reads_natural (limit : Nat) :
    Reads (natural limit) fun number document => document = .integer number ∧ number < limit := by
  intro document number
  cases document with
  | integer stored =>
      simp only [natural]
      split
      · next inRange =>
          simp only [Except.ok.injEq, integer.injEq]
          omega
      · next outOfRange =>
          simp only [reduceCtorEq, integer.injEq, false_iff]
          omega
  | _ => simp [natural]

theorem reads_bits (width : Nat) :
    Reads (bits width) fun value document => document = .ofBits value := by
  intro document value
  have limitEq : 1 <<< width = 2 ^ width := by rw [Nat.shiftLeft_eq, Nat.one_mul]
  constructor
  · intro returned
    simp only [bits, bind_eq_ok_iff, pure_eq_ok_iff, reads_natural _ _ _, limitEq] at returned
    obtain ⟨number, ⟨rfl, numberLt⟩, rfl⟩ := returned
    rw [ofBits, BitVec.toNat_ofNat, Nat.mod_eq_of_lt numberLt]
  · rintro rfl
    have numberRead : natural (1 <<< width) (.ofBits value) = .ok value.toNat := by
      rw [reads_natural, limitEq]
      exact ⟨rfl, value.isLt⟩
    rw [bits, numberRead]
    exact congrArg Except.ok (BitVec.ofNat_toNat width value |>.trans (BitVec.setWidth_eq value))

theorem reads_truth : Reads truth fun value document => document = .flag value := by
  intro document value
  cases document <;> simp [truth]

theorem mapM_eq_ok_iff {Value : Type} {read : Document → Read Value} {write : Value → Document}
    (reads : Reads read fun value document => document = write value) (items : List Document)
    (values : List Value) : items.mapM read = .ok values ↔ items = values.map write := by
  induction items generalizing values with
  | nil =>
      cases values with
      | nil => simp [pure, Except.pure]
      | cons value values => simp [pure, Except.pure]
  | cons item items induction =>
      rw [List.mapM_cons]
      constructor
      · intro returned
        simp only [bind_eq_ok_iff, pure_eq_ok_iff] at returned
        obtain ⟨value, valueRead, rest, restRead, rfl⟩ := returned
        rw [(reads item value).mp valueRead, (induction rest).mp restRead, List.map_cons]
      · intro itemsEq
        cases values with
        | nil => cases itemsEq
        | cons value values =>
            obtain ⟨itemEq, restEq⟩ := List.cons.inj itemsEq
            rw [(reads item value).mpr itemEq, (induction values).mpr restEq]
            rfl

theorem reads_listOf {Value : Type} {read : Document → Read Value} {write : Value → Document}
    (reads : Reads read fun value document => document = write value) :
    Reads (listOf read) fun values document => document = .list (values.map write) := by
  intro document values
  cases document with
  | list items =>
      rw [listOf, mapM_eq_ok_iff reads]
      simp only [list.injEq]
  | _ => simp [listOf]

theorem reads_variant {Value : Type} (values : List (String × Value)) :
    Reads (variant values) fun value document => ∃ name, values.lookup name = some value ∧
      (document = .text name ∨ document = .record [(name, .null)]) := by
  intro document value
  unfold variant
  split
  · next name =>
      rw [Read.required_eq_ok_iff]
      simp
  · next name =>
      rw [Read.required_eq_ok_iff]
      simp
  · next notText notRecord =>
      constructor
      · intro returned
        cases returned
      · rintro ⟨name, _, rfl | rfl⟩
        · exact absurd rfl (notText name)
        · exact absurd rfl (notRecord name)

end Document

theorem Space.lookup_names (name : String) (space : Space) :
    names.lookup name = some space ↔ name = space.name := by
  by_cases isCode : name = Space.code.name
  · subst isCode
    cases space <;> decide
  · by_cases isData : name = Space.data.name
    · subst isData
      cases space <;> decide
    · have notCode : (name == Space.code.name) = false := beq_false_of_ne isCode
      have notData : (name == Space.data.name) = false := beq_false_of_ne isData
      simp only [names, List.lookup_cons, List.lookup_nil, notCode, notData]
      cases space <;> simp [isCode, isData]

theorem Space.reads_ofDocument : Document.Reads Space.ofDocument Space.IsStored := by
  intro document space
  rw [Space.ofDocument, Document.reads_variant, Space.IsStored]
  constructor
  · rintro ⟨name, found, stored⟩
    rw [Space.lookup_names] at found
    rwa [found] at stored
  · intro stored
    exact ⟨space.name, (Space.lookup_names _ _).mpr rfl, stored⟩

namespace Document

variable {names : List String} {document : Document}

theorem part_iff_lookup {parts : Parts} (partsEq : document.parts names = .ok parts)
    (complete : parts.complete = true) (name : String) (part : Document) :
    document.Part names name part ↔ parts.fields.lookup name = some part := by
  cases document with
  | record fields =>
      cases partsEq
      constructor
      · rintro (found | _)
        exact found
      · exact Part.named
  | list items =>
      cases partsEq
      constructor
      · rintro (_ | ⟨_, found⟩)
        exact found
      · exact Part.placed (by simpa using complete)
  | _ => cases partsEq

theorem Part.exists_parts {name : String} {part : Document} (has : document.Part names name part) :
    ∃ parts, document.parts names = .ok parts ∧ parts.complete = true := by
  cases has with
  | named found => exact ⟨_, rfl, rfl⟩
  | placed lengthEq found => exact ⟨_, rfl, by simpa using lengthEq⟩

namespace Parts

variable {parts : Parts} {name : String}

theorem optional_of_lookup {Value : Type} {part : Document}
    (found : parts.fields.lookup name = some part) (read : Document → Read Value) :
    parts.optional name read = (read part).map some := by
  rw [optional, found]
  rfl

/-- A required part is read if it is there and stores a value. -/
theorem optional_eq_ok_some_iff (partsEq : document.parts names = .ok parts)
    (complete : parts.complete = true) {Value : Type} {read : Document → Read Value}
    {stores : Value → Document → Prop} (reads : Reads read stores) {value : Value} :
    parts.optional name read = .ok (some value) ↔
      ∃ part, document.Part names name part ∧ stores value part := by
  simp only [part_iff_lookup partsEq complete]
  cases found : parts.fields.lookup name with
  | none => simp [optional, found]
  | some part =>
      rw [optional_of_lookup found]
      simp only [Option.some.injEq, exists_eq_left', ← reads part value]
      cases read part <;> simp [Except.map]

theorem close_eq_ok_iff : parts.close = .ok () ↔ parts.complete = true := by
  unfold close
  split <;> simp_all

end Parts

end Document

open Document Document.Parts

theorem Processor.ofDocument_of_isStored {image : ProcessorImage} {document : Document}
    (stored : image.IsStored document) :
    Processor.ofDocument document = Read.checked image.restore := by
  obtain ⟨parts, partsEq, complete⟩ := stored.registers.exists_parts
  have closed := close_eq_ok_iff.mpr complete
  have registersRead := (optional_eq_ok_some_iff partsEq complete
    (reads_listOf (reads_bits 16))).mpr ⟨_, stored.registers, rfl⟩
  have pcRead := (optional_eq_ok_some_iff partsEq complete (reads_bits 16)).mpr
    ⟨_, stored.pc, rfl⟩
  have overflowRead := (optional_eq_ok_some_iff partsEq complete reads_truth).mpr
    ⟨_, stored.overflow, rfl⟩
  have exitCodeRead := (optional_eq_ok_some_iff partsEq complete (reads_bits 16)).mpr
    ⟨_, stored.exitCode, rfl⟩
  simp only [ofDocument, partsEq, registersRead, pcRead, overflowRead, exitCodeRead, closed, bind,
    Except.bind]
  rfl

theorem Processor.reads_ofDocument :
    Reads Processor.ofDocument fun processor => processor.image.IsStored := by
  intro document processor
  constructor
  · intro returned
    simp only [ofDocument, bind_eq_ok_iff, Read.required_eq_ok_iff, Read.checked_eq_ok_iff]
      at returned
    obtain ⟨parts, partsEq, _, registersRead, _, pcRead, _, overflowRead, _, exitCodeRead, _,
      closed, registers, rfl, pc, rfl, overflow, rfl, exitCode, rfl, restored⟩ := returned
    have complete := close_eq_ok_iff.mp closed
    rw [optional_eq_ok_some_iff partsEq complete (reads_listOf (reads_bits 16))] at registersRead
    rw [optional_eq_ok_some_iff partsEq complete (reads_bits 16)] at pcRead exitCodeRead
    rw [optional_eq_ok_some_iff partsEq complete reads_truth] at overflowRead
    obtain ⟨_, hasRegisters, rfl⟩ := registersRead
    obtain ⟨_, hasPc, rfl⟩ := pcRead
    obtain ⟨_, hasOverflow, rfl⟩ := overflowRead
    obtain ⟨_, hasExitCode, rfl⟩ := exitCodeRead
    rw [ProcessorImage.image_of_restore restored]
    exact ⟨hasRegisters, hasPc, hasOverflow, hasExitCode⟩
  · intro stored
    rw [Processor.ofDocument_of_isStored stored, ProcessorImage.restore_image]
    rfl

theorem Processor.isStored_toDocument (processor : Processor) :
    processor.image.IsStored processor.toDocument :=
  ⟨.named rfl, .named rfl, .named rfl, .named rfl⟩

theorem AnyMemory.ofDocument_of_isStored {image : MemoryImage} {document : Document}
    (stored : image.IsStored document) :
    AnyMemory.ofDocument document = Read.checked image.restore := by
  obtain ⟨parts, partsEq, complete⟩ := stored.bytes.exists_parts
  have closed := close_eq_ok_iff.mpr complete
  have spaceRead := (optional_eq_ok_some_iff partsEq complete Space.reads_ofDocument).mpr
    stored.space
  have bytesRead := (optional_eq_ok_some_iff partsEq complete
    (reads_listOf (reads_bits 8))).mpr ⟨_, stored.bytes, rfl⟩
  simp only [ofDocument, partsEq, spaceRead, bytesRead, closed, bind, Except.bind]
  rfl

theorem AnyMemory.reads_ofDocument :
    Reads AnyMemory.ofDocument fun memory => memory.image.IsStored := by
  intro document memory
  constructor
  · intro returned
    simp only [ofDocument, bind_eq_ok_iff, Read.required_eq_ok_iff, Read.checked_eq_ok_iff]
      at returned
    obtain ⟨parts, partsEq, _, spaceRead, _, bytesRead, _, closed, space, rfl, bytes, rfl,
      restored⟩ := returned
    have complete := close_eq_ok_iff.mp closed
    rw [optional_eq_ok_some_iff partsEq complete Space.reads_ofDocument] at spaceRead
    rw [optional_eq_ok_some_iff partsEq complete (reads_listOf (reads_bits 8))] at bytesRead
    obtain ⟨_, hasBytes, rfl⟩ := bytesRead
    rw [MemoryImage.image_of_restore restored]
    exact ⟨spaceRead, hasBytes⟩
  · intro stored
    rw [AnyMemory.ofDocument_of_isStored stored, AnyMemory.restore_image]
    rfl

theorem AnyMemory.isStored_toDocument (memory : AnyMemory) :
    memory.image.IsStored memory.toDocument :=
  ⟨⟨_, .named rfl, .inl rfl⟩, .named rfl⟩

namespace Machine

/-- A stored image is read up to the first of its faults. -/
theorem ofDocument_of_isStored {image : MachineImage} {document : Document}
    (stored : image.IsStored document) :
    Machine.ofDocument document = Read.checked image.restore := by
  obtain ⟨processor, hasProcessor, processorStored⟩ := stored.processor
  obtain ⟨code, hasCode, codeStored⟩ := stored.code
  obtain ⟨data, hasData, dataStored⟩ := stored.data
  obtain ⟨parts, partsEq, complete⟩ := hasProcessor.exists_parts
  have closed := close_eq_ok_iff.mpr complete
  rw [part_iff_lookup partsEq complete] at hasProcessor hasCode hasData
  simp only [ofDocument, partsEq, optional_of_lookup hasProcessor, optional_of_lookup hasCode,
    optional_of_lookup hasData, Processor.ofDocument_of_isStored processorStored,
    AnyMemory.ofDocument_of_isStored codeStored, AnyMemory.ofDocument_of_isStored dataStored,
    closed, MachineImage.restore, bind, Except.bind]
  cases image.processor.restore with
  | error error => rfl
  | ok processor =>
      cases image.code.restore with
      | error error => rfl
      | ok code =>
          cases image.data.restore with
          | error error => rfl
          | ok data => rfl

theorem reads_ofDocument : Reads Machine.ofDocument fun machine => machine.image.IsStored := by
  intro document machine
  constructor
  · intro returned
    simp only [ofDocument, bind_eq_ok_iff, Read.required_eq_ok_iff, Read.checked_eq_ok_iff,
      assemble, pure_eq_ok_iff] at returned
    obtain ⟨parts, partsEq, _, processorRead, _, codeRead, _, dataRead, _, closed, processor, rfl,
      code, rfl, data, rfl, placedCode, codePlaced, placedData, dataPlaced, rfl⟩ := returned
    have complete := close_eq_ok_iff.mp closed
    rw [optional_eq_ok_some_iff partsEq complete Processor.reads_ofDocument] at processorRead
    rw [optional_eq_ok_some_iff partsEq complete AnyMemory.reads_ofDocument] at codeRead dataRead
    rw [AnyMemory.eq_of_place codePlaced] at codeRead
    rw [AnyMemory.eq_of_place dataPlaced] at dataRead
    exact ⟨processorRead, codeRead, dataRead⟩
  · intro stored
    rw [ofDocument_of_isStored stored, MachineImage.restore_image]
    rfl

theorem isStored_toDocument (machine : Machine) : machine.image.IsStored machine.toDocument :=
  ⟨⟨_, .named rfl, machine.processor.isStored_toDocument⟩,
    ⟨_, .named rfl, AnyMemory.isStored_toDocument _⟩,
    ⟨_, .named rfl, AnyMemory.isStored_toDocument _⟩⟩

end Machine

end Aap
