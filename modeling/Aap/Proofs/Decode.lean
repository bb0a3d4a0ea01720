import Aap.Proofs.Format.Encoding
import Aap.Proofs.Format.Published

/-!
# The decoder accepts the published format

A word is found in the encoding tables exactly if the published tables list it,
and the operands read from its fields are the published ones.  Hence bytes
decode to an instruction exactly if they begin with a word listed for it.
-/

namespace Aap

namespace Published

/-- A field at a known place is read as the bits of that place. -/
@[simp]
theorem read_mk_eq_bits {low width : Nat} (inside : low + width ≤ 32) (widthPos : 0 < width)
    (word : BitVec 32) :
    (Field.mk low width).read word = bits word.toNat (low + width - 1) low := by
  have widthEq : low + width - 1 + 1 - low = width := by omega
  rw [Field.read_eq_div_mod ⟨low, width⟩ inside, bits, widthEq]

theorem bits_lt (word high low : Nat) : bits word high low < 2 ^ (high + 1 - low) :=
  Nat.mod_lt _ (Nat.two_pow_pos _)

/-- The class and the number of an instruction are those which the tables give
to it or to the instruction that it shares them with. -/
theorem numbered?_eq_some_iff {group number : Nat} (groupLt : group < 2 ^ 2)
    (numberLt : number < 2 ^ 4) (mnemonic : Mnemonic) :
    numbered? group number = some (sharing mnemonic) ↔
      group = mnemonic.group ∧ number = mnemonic.number := by
  have table : ∀ mnemonic ∈ Mnemonic.all, ∀ group < 2 ^ 2, ∀ number < 2 ^ 4,
      (numbered? group number = some (sharing mnemonic) ↔
        group = mnemonic.group ∧ number = mnemonic.number) := by
    decide +kernel
  exact table mnemonic mnemonic.mem_all group groupLt number numberLt

theorem shortFixed_iff_vacant (mnemonic : Mnemonic) (word : BitVec 32) :
    (∀ entry ∈ mnemonic.shortFixed, entry.1.read word = entry.2) ↔
      Vacant mnemonic (bits word.toNat 5 3) (bits word.toNat 2 0) := by
  cases mnemonic <;> simp [Mnemonic.shortFixed, Vacant, Field.b, Field.c]

theorem sharing_of_hasForm_short {mnemonic : Mnemonic}
    (hasForm : mnemonic.hasForm .short = true) : sharing mnemonic = mnemonic := by
  unfold sharing
  split <;> first | rfl | cases hasForm

theorem fixedFields_short_iff {opcode : Opcode} (formEq : opcode.form = .short)
    (word : BitVec 32) :
    (∀ entry ∈ opcode.fixedFields, entry.1.read word = entry.2) ↔
      bits word.toNat 15 15 = 0 ∧
        numbered? (bits word.toNat 14 13) (bits word.toNat 12 9) = some opcode.mnemonic ∧
        Vacant opcode.mnemonic (bits word.toNat 5 3) (bits word.toNat 2 0) := by
  have numberIff := numbered?_eq_some_iff (bits_lt word.toNat 14 13) (bits_lt word.toNat 12 9)
    opcode.mnemonic
  rw [sharing_of_hasForm_short (formEq ▸ opcode.hasForm)] at numberIff
  rw [Opcode.fixedFields, formEq, List.forall_mem_append, shortFixed_iff_vacant, numberIff]
  simp [Field.length, Field.group, Field.number, and_assoc]

theorem longFixed_iff (mnemonic : Mnemonic) (word : BitVec 32) :
    (∀ entry ∈ mnemonic.longFixed, entry.1.read word = entry.2) ↔
      Extends mnemonic (bits word.toNat 28 25) ∧
        Vacant mnemonic (split word.toNat 19 3) (split word.toNat 16 0) := by
  have topEq : bits (bits word.toNat 28 25) 3 3 = bits word.toNat 28 28 := by
    simp only [bits]
    omega
  have splitEq (high low : Nat) : split word.toNat high low = 0 ↔
      bits word.toNat (low + 2) low = 0 ∧ bits word.toNat (high + 2) high = 0 := by
    unfold split
    omega
  cases mnemonic with
  | alu op =>
      cases op <;> simp [Mnemonic.longFixed, AluOp.selector, Extends, Vacant, Field.x]
  | aluImmediate op =>
      cases op <;> simp [Mnemonic.longFixed, Extends, Vacant, Field.x, Field.xTop, topEq]
  | move => simp [Mnemonic.longFixed, Extends, Vacant, Field.x, Field.c, Field.cHigh, splitEq]
  | jump =>
      simp [Mnemonic.longFixed, Extends, Vacant, Field.x, Field.b, Field.c, Field.bHigh,
        Field.cHigh, splitEq]
      tauto
  | jumpAndLink =>
      simp [Mnemonic.longFixed, Extends, Vacant, Field.x, Field.b, Field.bHigh, splitEq]
  | _ => simp [Mnemonic.longFixed, Extends, Vacant, Field.x]

theorem fixedFields_long_iff {opcode : Opcode} (formEq : opcode.form = .long)
    (word : BitVec 32) :
    (∀ entry ∈ opcode.fixedFields, entry.1.read word = entry.2) ↔
      bits word.toNat 15 15 = 1 ∧ bits word.toNat 31 29 = 0 ∧
        numbered? (bits word.toNat 14 13) (bits word.toNat 12 9) =
          some (sharing opcode.mnemonic) ∧
        Extends opcode.mnemonic (bits word.toNat 28 25) ∧
        Vacant opcode.mnemonic (split word.toNat 19 3) (split word.toNat 16 0) := by
  have numberIff := numbered?_eq_some_iff (bits_lt word.toNat 14 13) (bits_lt word.toNat 12 9)
    opcode.mnemonic
  rw [Opcode.fixedFields, formEq, List.forall_mem_append, longFixed_iff, numberIff]
  simp [Field.length, Field.group, Field.number, Field.reserved]
  tauto

theorem lookup_eq_ok {registerClass : RegisterClass} {field : Nat}
    (fieldLt : field < registerClass.size) :
    registerClass.lookup field = .ok (register field) := by
  have sizeLe : registerClass.size ≤ 64 := by cases registerClass <;> decide
  have valueEq : (register field).val = field := Nat.mod_eq_of_lt (by omega)
  have found := (registerClass.register?_eq_some_iff field (register field)).mpr
    ⟨valueEq, fieldLt⟩
  rw [RegisterClass.lookup, found]

theorem signedField_eq_signed {width value : Nat} (widthPos : 0 < width)
    (valueLt : value < 2 ^ width) : signedField width value = signed width value := by
  have doubled : 2 ^ width = 2 * 2 ^ (width - 1) := by
    rw [← Nat.pow_succ', Nat.succ_eq_add_one, Nat.sub_add_cancel widthPos]
  rw [signedField, signed, BitVec.toInt_eq_toNat_cond, BitVec.toNat_ofNat,
    Nat.mod_eq_of_lt valueLt]
  by_cases small : value < 2 ^ (width - 1)
  · rw [if_pos small, if_pos (by omega)]
  · rw [if_neg small, if_neg (by omega)]
    norm_cast

theorem shiftLeft_eq_mul (value width : Nat) : value <<< width = 2 ^ width * value := by
  rw [Nat.shiftLeft_eq, Nat.mul_comm]

section Operands

variable {fields : OperandFields}

theorem joined_eq (upper lower : Nat) :
    fields.joined upper lower = 2 ^ fields.form.fieldWidth * upper + lower := by
  rw [OperandFields.joined, shiftLeft_eq_mul]

theorem register_eq_ok {field : Nat} (fieldLt : field < 2 ^ fields.form.fieldWidth) :
    fields.register field = .ok (register field) := by
  have sizeEq : 2 ^ fields.form.fieldWidth = fields.form.registerClass.size := by
    cases fields.form <;> rfl
  exact lookup_eq_ok (sizeEq ▸ fieldLt)

/-- Fields of registers that make the given numbers. -/
structure Reads (fields : OperandFields) (numbers : Numbers) : Prop where
  aLt : fields.a < 2 ^ fields.form.fieldWidth
  bLt : fields.b < 2 ^ fields.form.fieldWidth
  cLt : fields.c < 2 ^ fields.form.fieldWidth
  command : fields.joined fields.b fields.c = numbers.command
  immediate : fields.immediate = numbers.immediate
  wideImmediate : fields.wideImmediate = numbers.wideImmediate
  offsetLt : 2 ^ 6 * fields.x + fields.c < 2 ^ fields.form.offsetWidth
  memoryOffset : signed fields.form.offsetWidth (2 ^ 6 * fields.x + fields.c) =
    numbers.memoryOffset
  conditionalOffset : fields.conditionalOffset = numbers.conditionalOffset
  linkOffset : fields.linkOffset = numbers.linkOffset
  branchOffset : fields.branchOffset = numbers.branchOffset

/-- The packed register and offset come apart again. -/
theorem memoryOperand_packed {form : Form} {field offset : Nat}
    (fieldLt : field < 2 ^ form.fieldWidth) (offsetLt : offset < 2 ^ 16) :
    form.memoryOperand (2 ^ 16 * field + offset) =
      .ok (register field, signedField form.offsetWidth offset) := by
  have sizeEq : 2 ^ form.fieldWidth = form.registerClass.size := by
    cases form <;> rfl
  have packedReg : (2 ^ 16 * field + offset) / 2 ^ 16 = field := by omega
  have packedOffset : (2 ^ 16 * field + offset) % 2 ^ 16 = offset := by omega
  rw [Form.memoryOperand, Nat.shiftRight_eq_div_pow, Nat.one_shiftLeft, Nat.one_shiftLeft,
    packedReg, packedOffset, Nat.mod_eq_of_lt fieldLt, lookup_eq_ok (sizeEq ▸ fieldLt)]
  rfl

theorem memoryOperand_eq_ok {numbers : Numbers} (reads : Reads fields numbers) {field : Nat}
    (fieldLt : field < 2 ^ fields.form.fieldWidth) :
    fields.memoryOperand field = .ok (register field, numbers.memoryOffset) := by
  have offsetLt := reads.offsetLt
  have widths : 0 < fields.form.offsetWidth ∧ 2 ^ fields.form.offsetWidth ≤ 2 ^ 10 := by
    cases fields.form <;> decide
  rw [OperandFields.memoryOperand, shiftLeft_eq_mul, shiftLeft_eq_mul,
    memoryOperand_packed fieldLt (by omega), signedField_eq_signed widths.1 offsetLt,
    reads.memoryOffset]

/-- Every field that names a register names one of its class, so a listed word
never fails to have an operation. -/
theorem operation_eq_ok {numbers : Numbers} (reads : Reads fields numbers)
    (mnemonic : Mnemonic) :
    mnemonic.operation fields =
      .ok (operation mnemonic fields.a fields.b fields.c numbers) := by
  have aEq := register_eq_ok reads.aLt
  have bEq := register_eq_ok reads.bLt
  have cEq := register_eq_ok reads.cLt
  cases mnemonic with
  | nop =>
      rw [Mnemonic.operation, aEq, reads.command]
      rfl
  | alu op =>
      rw [Mnemonic.operation, aEq, bEq, cEq]
      rfl
  | aluImmediate op =>
      rw [Mnemonic.operation, aEq, bEq, reads.immediate]
      rfl
  | move =>
      rw [Mnemonic.operation, aEq, bEq]
      rfl
  | moveImmediate =>
      rw [Mnemonic.operation, aEq, reads.wideImmediate]
      rfl
  | load width mode =>
      rw [Mnemonic.operation, aEq, memoryOperand_eq_ok reads reads.bLt]
      rfl
  | store width mode =>
      rw [Mnemonic.operation, bEq, memoryOperand_eq_ok reads reads.aLt]
      rfl
  | branchAlways =>
      rw [Mnemonic.operation, reads.branchOffset]
      rfl
  | branchAndLink =>
      rw [Mnemonic.operation, cEq, reads.linkOffset]
      rfl
  | branch condition =>
      rw [Mnemonic.operation, bEq, cEq, reads.conditionalOffset]
      rfl
  | jump =>
      rw [Mnemonic.operation, aEq]
      rfl
  | jumpAndLink =>
      rw [Mnemonic.operation, aEq, cEq]
      rfl
  | jumpConditional condition =>
      rw [Mnemonic.operation, aEq, bEq, cEq]
      rfl

end Operands

theorem reads_short {a b c : Nat} (aLt : a < 2 ^ 3) (bLt : b < 2 ^ 3) (cLt : c < 2 ^ 3) :
    Reads ⟨.short, a, b, c, 0⟩ (shortNumbers a b c) where
  aLt := aLt
  bLt := bLt
  cLt := cLt
  command := joined_eq b c
  immediate := by
    funext op
    cases op <;> simp [OperandFields.immediate, shortNumbers, shiftAmount]
  wideImmediate := by
    rw [OperandFields.wideImmediate, Nat.zero_shiftLeft, Nat.zero_add]
    exact joined_eq b c
  offsetLt := by
    change 2 ^ 6 * 0 + c < 2 ^ 3
    omega
  memoryOffset := by simp [Form.offsetWidth, shortNumbers]
  conditionalOffset := by
    rw [OperandFields.conditionalOffset, Nat.zero_shiftLeft, Nat.zero_add]
    change signedField 3 a = _
    exact signedField_eq_signed (by decide) aLt
  linkOffset := by
    have valueLt : 2 ^ 3 * a + b < 2 ^ 6 := by omega
    simp only [OperandFields.linkOffset, joined_eq]
    exact signedField_eq_signed (by decide) valueLt
  branchOffset := by
    have joinedEq : 2 ^ 3 * (2 ^ 3 * a + b) + c = 2 ^ 6 * a + 2 ^ 3 * b + c := by omega
    have valueLt : 2 ^ 6 * a + 2 ^ 3 * b + c < 2 ^ 9 := by omega
    simp only [OperandFields.branchOffset, joined_eq]
    change signedField 9 (2 ^ 3 * (2 ^ 3 * a + b) + c) = _
    rw [joinedEq]
    exact signedField_eq_signed (by decide) valueLt

theorem reads_long {a b c x : Nat} (aLt : a < 2 ^ 6) (bLt : b < 2 ^ 6) (cLt : c < 2 ^ 6)
    (xLt : x < 2 ^ 4) : Reads ⟨.long, a, b, c, x⟩ (longNumbers a b c x) where
  aLt := aLt
  bLt := bLt
  cLt := cLt
  command := joined_eq b c
  immediate := by
    funext op
    cases op <;>
      simp [OperandFields.immediate, longNumbers, shiftAmount, bits, shiftLeft_eq_mul]
  wideImmediate := by
    simp only [OperandFields.wideImmediate, joined_eq, shiftLeft_eq_mul]
    change 2 ^ 12 * x + (2 ^ 6 * b + c) = 2 ^ 12 * x + 2 ^ 6 * b + c
    omega
  offsetLt := by
    change 2 ^ 6 * x + c < 2 ^ 10
    omega
  memoryOffset := rfl
  conditionalOffset := by
    have valueLt : 2 ^ 6 * x + a < 2 ^ 10 := by omega
    rw [OperandFields.conditionalOffset, shiftLeft_eq_mul]
    change signedField 10 (2 ^ 6 * x + a) = _
    exact signedField_eq_signed (by decide) valueLt
  linkOffset := by
    have joinedEq : 2 ^ 12 * x + (2 ^ 6 * a + b) = 2 ^ 12 * x + 2 ^ 6 * a + b := by omega
    have valueLt : 2 ^ 12 * x + 2 ^ 6 * a + b < 2 ^ 16 := by omega
    simp only [OperandFields.linkOffset, joined_eq, shiftLeft_eq_mul]
    change signedField 16 (2 ^ 12 * x + (2 ^ 6 * a + b)) = _
    rw [joinedEq]
    exact signedField_eq_signed (by decide) valueLt
  branchOffset := by
    have joinedEq : 2 ^ 6 * (2 ^ 6 * a + b) + c = 2 ^ 12 * a + 2 ^ 6 * b + c := by omega
    have valueLt : 2 ^ 12 * a + 2 ^ 6 * b + c < 2 ^ 18 := by omega
    simp only [OperandFields.branchOffset, joined_eq]
    change signedField 18 (2 ^ 6 * (2 ^ 6 * a + b) + c) = _
    rw [joinedEq]
    exact signedField_eq_signed (by decide) valueLt

theorem ofFields_eq_ok_iff {fields : OperandFields} {numbers : Numbers}
    (reads : Reads fields numbers) (opcode : Opcode) (instruction : Instruction) :
    Instruction.ofFields opcode fields = .ok instruction ↔
      instruction.opcode = opcode ∧ instruction.operation =
        operation opcode.mnemonic fields.a fields.b fields.c numbers := by
  have fieldsEq : Instruction.ofFields opcode fields =
      .ok ⟨opcode, operation opcode.mnemonic fields.a fields.b fields.c numbers⟩ := by
    rw [Instruction.ofFields, operation_eq_ok reads]
    rfl
  rw [fieldsEq, Except.ok.injEq]
  constructor
  · rintro rfl
    exact ⟨rfl, rfl⟩
  · rintro ⟨rfl, operationEq⟩
    rw [← operationEq]

theorem ofShort_eq_fields (word : Word) :
    OperandFields.ofShort word =
      ⟨.short, bits word.toNat 8 6, bits word.toNat 5 3, bits word.toNat 2 0, 0⟩ := by
  have wideEq : (word.setWidth 32).toNat = word.toNat :=
    BitVec.toNat_setWidth_of_le (by decide)
  simp [OperandFields.ofShort, Field.a, Field.b, Field.c, wideEq]

theorem split_lt (word high low : Nat) : split word high low < 2 ^ 6 := by
  have upperLt := bits_lt word (high + 2) high
  have lowerLt := bits_lt word (low + 2) low
  rw [show high + 2 + 1 - high = 3 by omega] at upperLt
  rw [show low + 2 + 1 - low = 3 by omega] at lowerLt
  rw [split]
  omega

theorem ofLong_eq_fields (word : BitVec 32) :
    OperandFields.ofLong word =
      ⟨.long, split word.toNat 22 6, split word.toNat 19 3, split word.toNat 16 0,
        bits word.toNat 28 25⟩ := by
  simp [OperandFields.ofLong, Field.a, Field.b, Field.c, Field.x, Field.aHigh, Field.bHigh,
    Field.cHigh, split]

theorem ofShort_eq_ok_iff (word : Word) (instruction : Instruction) :
    Instruction.ofShort word = .ok instruction ↔ IsShort word.toNat instruction := by
  have wideEq : (word.setWidth 32).toNat = word.toNat :=
    BitVec.toNat_setWidth_of_le (by decide)
  have reads := reads_short (bits_lt word.toNat 8 6) (bits_lt word.toNat 5 3)
    (bits_lt word.toNat 2 0)
  have foundIff (opcode : Opcode) : Encoding.shortOpcode? word = some opcode ↔
      opcode.form = .short ∧
        ∀ entry ∈ opcode.fixedFields, entry.1.read (word.setWidth 32) = entry.2 :=
    Encoding.lookup?_rowsOf_eq_some_iff .short (word.setWidth 32) opcode
  constructor
  · intro decoded
    rw [Instruction.ofShort] at decoded
    split at decoded
    · next opcode found =>
        obtain ⟨formEq, fixed⟩ := (foundIff opcode).mp found
        rw [ofShort_eq_fields, ofFields_eq_ok_iff reads] at decoded
        obtain ⟨rfl, operationEq⟩ := decoded
        rw [fixedFields_short_iff formEq, wideEq] at fixed
        exact ⟨formEq, fixed.1, fixed.2.1, fixed.2.2, operationEq⟩
    · cases decoded
  · intro listed
    have fixed : ∀ entry ∈ instruction.opcode.fixedFields,
        entry.1.read (word.setWidth 32) = entry.2 := by
      rw [fixedFields_short_iff listed.form, wideEq]
      exact ⟨listed.length, listed.number, listed.vacant⟩
    have found := (foundIff instruction.opcode).mpr ⟨listed.form, fixed⟩
    rw [Instruction.ofShort, found]
    change Instruction.ofFields instruction.opcode (.ofShort word) = _
    rw [ofShort_eq_fields, ofFields_eq_ok_iff reads]
    exact ⟨rfl, listed.operation⟩

theorem ofLong_eq_ok_iff (word : BitVec 32) (instruction : Instruction) :
    Instruction.ofLong word = .ok instruction ↔ IsLong word.toNat instruction := by
  have reads := reads_long (split_lt word.toNat 22 6) (split_lt word.toNat 19 3)
    (split_lt word.toNat 16 0) (bits_lt word.toNat 28 25)
  have foundIff (opcode : Opcode) : Encoding.longOpcode? word = some opcode ↔
      opcode.form = .long ∧ ∀ entry ∈ opcode.fixedFields, entry.1.read word = entry.2 :=
    Encoding.lookup?_rowsOf_eq_some_iff .long word opcode
  constructor
  · intro decoded
    rw [Instruction.ofLong] at decoded
    split at decoded
    · next opcode found =>
        obtain ⟨formEq, fixed⟩ := (foundIff opcode).mp found
        rw [ofLong_eq_fields, ofFields_eq_ok_iff reads] at decoded
        obtain ⟨rfl, operationEq⟩ := decoded
        obtain ⟨length, reserved, number, extend, vacant⟩ :=
          (fixedFields_long_iff formEq word).mp fixed
        exact ⟨formEq, length, reserved, number, extend, vacant, operationEq⟩
    · cases decoded
  · intro listed
    have fixed : ∀ entry ∈ instruction.opcode.fixedFields, entry.1.read word = entry.2 := by
      rw [fixedFields_long_iff listed.form]
      exact ⟨listed.length, listed.reserved, listed.number, listed.extend, listed.vacant⟩
    have found := (foundIff instruction.opcode).mpr ⟨listed.form, fixed⟩
    rw [Instruction.ofLong, found]
    change Instruction.ofFields instruction.opcode (.ofLong word) = _
    rw [ofLong_eq_fields, ofFields_eq_ok_iff reads]
    exact ⟨rfl, listed.operation⟩

theorem toNat_low (first second : Byte) :
    (Word.ofBytes first second).toNat = first.toNat + 2 ^ 8 * second.toNat := by
  rw [Word.toNat_ofBytes]
  omega

theorem toNat_whole (first second third fourth : Byte) :
    (Word.ofBytes third fourth ++ Word.ofBytes first second).toNat =
      first.toNat + 2 ^ 8 * second.toNat + 2 ^ 16 * third.toNat +
        2 ^ 24 * fourth.toNat := by
  rw [BitVec.toNat_append, ← Nat.shiftLeft_add_eq_or_of_lt (Word.ofBytes first second).isLt,
    Nat.shiftLeft_eq, toNat_low, toNat_low]
  omega

/-- The length bit keeps the two kinds of words apart, so the decoder may try
the short ones first. -/
theorem not_isShort_of_isLong {first second third fourth : Byte}
    {short long : Instruction}
    (isLong : IsLong (first.toNat + 2 ^ 8 * second.toNat + 2 ^ 16 * third.toNat +
      2 ^ 24 * fourth.toNat) long) :
    ¬IsShort (first.toNat + 2 ^ 8 * second.toNat) short := by
  intro isShort
  have longBit := isLong.length
  have shortBit := isShort.length
  simp only [bits] at longBit shortBit
  omega

theorem shortNumbers_immediate_lt {a b c : Nat} (cLt : c < 2 ^ 3) (op : ImmediateOp) :
    (shortNumbers a b c).immediate op < 2 ^ 10 := by
  cases op <;> simp only [shortNumbers] <;> omega

theorem longNumbers_immediate_lt {a b c x : Nat} (cLt : c < 2 ^ 6) (xLt : x < 2 ^ 4)
    (op : ImmediateOp) : (longNumbers a b c x).immediate op < 2 ^ 10 := by
  have xLowLt := bits_lt x 2 0
  cases op <;> simp only [longNumbers] <;> omega

/-- Immediates have ten bits at most. -/
theorem Begins.immediate_lt {bytes : List Byte} {instruction : Instruction}
    (begins : Begins bytes instruction) {op : AluOp} {rd ra : Reg} {imm : Nat}
    (operationEq : instruction.operation = .aluImmediate op rd ra imm) : imm < 2 ^ 10 := by
  have numberOf {mnemonic : Mnemonic} {a b c : Nat} {numbers : Numbers}
      (made : instruction.operation = operation mnemonic a b c numbers) :
      ∃ op, imm = numbers.immediate op := by
    rw [operationEq] at made
    cases mnemonic <;> simp only [operation, reduceCtorEq, Operation.aluImmediate.injEq] at made
    exact ⟨_, made.2.2.2⟩
  rcases begins with ⟨_, _, _, _, isShort⟩ | ⟨_, _, _, _, _, _, isLong⟩
  · obtain ⟨op, rfl⟩ := numberOf isShort.operation
    exact shortNumbers_immediate_lt (bits_lt _ 2 0) op
  · obtain ⟨op, rfl⟩ := numberOf isLong.operation
    exact longNumbers_immediate_lt (split_lt _ 16 0) (bits_lt _ 28 25) op

end Published

namespace Instruction

theorem decode_of_short {first second : Byte} {found : Instruction}
    (shortEq : ofShort (Word.ofBytes first second) = .ok found) (rest : List Byte)
    (address : Nat) : decode (first :: second :: rest) address = .ok found := by
  unfold decode
  simp only [shortEq]

theorem decode_of_long {first second third fourth : Byte} {error : DecodeError}
    (shortEq : ofShort (Word.ofBytes first second) = .error error) (rest : List Byte)
    (address : Nat) (instruction : Instruction) :
    decode (first :: second :: third :: fourth :: rest) address = .ok instruction ↔
      ofLong (Word.ofBytes third fourth ++ Word.ofBytes first second) = .ok instruction := by
  simp only [decode, shortEq]
  cases ofLong (Word.ofBytes third fourth ++ Word.ofBytes first second) with
  | ok found => simp only [Except.ok.injEq]
  | error error => cases error <;> simp only [reduceCtorEq]

theorem ofShort_ofBytes_eq_ok_iff (first second : Byte) (instruction : Instruction) :
    ofShort (Word.ofBytes first second) = .ok instruction ↔
      Published.IsShort (first.toNat + 2 ^ 8 * second.toNat) instruction := by
  rw [Published.ofShort_eq_ok_iff, Published.toNat_low]

theorem ofLong_ofBytes_eq_ok_iff (first second third fourth : Byte) (instruction : Instruction) :
    ofLong (Word.ofBytes third fourth ++ Word.ofBytes first second) = .ok instruction ↔
      Published.IsLong (first.toNat + 2 ^ 8 * second.toNat + 2 ^ 16 * third.toNat +
        2 ^ 24 * fourth.toNat) instruction := by
  rw [Published.ofLong_eq_ok_iff, Published.toNat_whole]

theorem begins_of_decode {bytes : List Byte} {address : Nat} {instruction : Instruction}
    (decoded : decode bytes address = .ok instruction) :
    Published.Begins bytes instruction := by
  rcases bytes with _ | ⟨first, _ | ⟨second, rest⟩⟩
  · simp [decode] at decoded
  · simp [decode] at decoded
  cases shortEq : ofShort (Word.ofBytes first second) with
  | ok found =>
      rw [decode_of_short shortEq] at decoded
      cases decoded
      exact .inl ⟨first, second, rest, rfl, (ofShort_ofBytes_eq_ok_iff _ _ _).mp shortEq⟩
  | error error =>
      rcases rest with _ | ⟨third, _ | ⟨fourth, rest⟩⟩
      · simp [decode, shortEq] at decoded
      · simp [decode, shortEq] at decoded
      · rw [decode_of_long shortEq, ofLong_ofBytes_eq_ok_iff] at decoded
        exact .inr ⟨first, second, third, fourth, rest, rfl, decoded⟩

theorem decode_of_begins {bytes : List Byte} {instruction : Instruction}
    (begins : Published.Begins bytes instruction) (address : Nat) :
    decode bytes address = .ok instruction := by
  rcases begins with ⟨first, second, rest, rfl, isShort⟩ |
    ⟨first, second, third, fourth, rest, rfl, isLong⟩
  · exact decode_of_short ((ofShort_ofBytes_eq_ok_iff _ _ _).mpr isShort) rest address
  · cases shortEq : ofShort (Word.ofBytes first second) with
    | ok short =>
        have isShort := (ofShort_ofBytes_eq_ok_iff _ _ short).mp shortEq
        exact (Published.not_isShort_of_isLong isLong isShort).elim
    | error error =>
        rw [decode_of_long shortEq, ofLong_ofBytes_eq_ok_iff]
        exact isLong

/-- Bytes decode to an instruction exactly if they begin with a word that the
published tables list for it. -/
theorem decode_eq_ok_iff_begins (bytes : List Byte) (address : Nat)
    (instruction : Instruction) :
    decode bytes address = .ok instruction ↔ Published.Begins bytes instruction := by
  constructor
  · intro decoded
    exact begins_of_decode decoded
  · intro begins
    exact decode_of_begins begins address

end Instruction

namespace Memory

theorem slice_eq_map {space : Space} (memory : Memory space) {first count : Nat}
    (inside : first + count ≤ space.size) :
    memory.slice first (first + count) =
      (List.range count).map fun index => memory.read (first + index) := by
  apply List.ext_getElem?
  intro index
  rw [getElem?_slice, Nat.min_eq_left inside, List.getElem?_map]
  by_cases indexLt : index < count
  · rw [if_pos (by omega), List.getElem?_range indexLt]
    rfl
  · rw [if_neg (by omega), List.getElem?_eq_none (by simpa using indexLt)]
    rfl

/-- Before the last word of code, a fetch sees four bytes. -/
theorem fetch_eq_decode (code : Memory .code) {pc : Word} (notLast : pc.toNat < 65535) :
    code.fetch pc =
      Instruction.decode
        [code.read (2 * pc.toNat), code.read (2 * pc.toNat + 1), code.read (2 * pc.toNat + 2),
          code.read (2 * pc.toNat + 3)]
        (2 * pc.toNat) := by
  have inside : 2 * pc.toNat + 4 ≤ Space.code.size := by
    change 2 * pc.toNat + 4 ≤ 131072
    omega
  simp only [fetch, code.slice_eq_map inside]
  rfl

end Memory

end Aap
