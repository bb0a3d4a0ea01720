import Aap.Proofs.Decode

/-!
# The word of an operation

Decoding loses nothing: from an operation and the form it was decoded in, the
mnemonic, all operand fields and with them the bytes can be computed back.  The
fields that hold no operand are fixed by the tables, and every other field is a
digit of some operand.  Hence no two words of one form have the same operation.
-/

namespace Aap

/-- The computation with an immediate that is encoded, if the computation has
an immediate form at all. -/
def ImmediateOp.ofAluOp? : AluOp → Option ImmediateOp
  | .add => some .add
  | .sub => some .sub
  | .and => some .and
  | .or => some .or
  | .xor => some .xor
  | .asr => some .asr
  | .lsl => some .lsl
  | .lsr => some .lsr
  | .addWithCarry | .subWithBorrow => none

theorem ImmediateOp.ofAluOp?_aluOp (op : ImmediateOp) : ofAluOp? op.aluOp = some op := by
  cases op <;> rfl

namespace Operation

/-- The mnemonic that an operation is written with. -/
def mnemonic? : Operation → Option Mnemonic
  | nop _ _ => some .nop
  | move _ _ => some .move
  | moveImmediate _ _ => some .moveImmediate
  | alu op _ _ _ => some (.alu op)
  | aluImmediate op _ _ _ => (ImmediateOp.ofAluOp? op).map .aluImmediate
  | load width mode _ _ _ => some (.load width mode)
  | store width mode _ _ _ => some (.store width mode)
  | branchAndLink _ _ => some .branchAndLink
  | jumpAndLink _ _ => some .jumpAndLink
  | branch condition _ _ _ => some (.branch condition)
  | branchAlways _ => some .branchAlways
  | jump _ => some .jump
  | jumpConditional condition _ _ _ => some (.jumpConditional condition)

end Operation

namespace Published

/-- The bits of a number in two's complement. -/
def unsigned (width : Nat) (value : Int) : Nat :=
  (value % 2 ^ width).toNat

theorem unsigned_signed {width value : Nat} (valueLt : value < 2 ^ width) :
    unsigned width (signed width value) = value := by
  have congruent : signed width value % 2 ^ width = (value : Int) % 2 ^ width := by
    rw [signed]
    split
    · rfl
    · exact Int.sub_emod_right _ _
  rw [unsigned, congruent]
  norm_cast
  exact Nat.mod_eq_of_lt valueLt

theorem mnemonic?_operation (mnemonic : Mnemonic) (a b c : Nat) (numbers : Numbers) :
    (operation mnemonic a b c numbers).mnemonic? = some mnemonic := by
  cases mnemonic with
  | aluImmediate op =>
      rw [operation, Operation.mnemonic?, ImmediateOp.ofAluOp?_aluOp, Option.map_some]
  | _ => rfl

/-- The extension and the last field of a computation with an immediate. -/
def immediateDigits (op : AluOp) (imm : Nat) : Nat × Nat :=
  match op with
  | .and | .or | .xor => (2 ^ 3 + imm / 2 ^ 6, imm % 2 ^ 6)
  | .asr | .lsl | .lsr => (0, imm - 1)
  | .add | .sub | .addWithCarry | .subWithBorrow => (imm / 2 ^ 6, imm % 2 ^ 6)

/-- The number of bits in the offset of a branch that keeps its return address. -/
def linkWidth : Form → Nat
  | .short => 6
  | .long => 16

/-- The operand fields that an operation fills, and the extension. -/
def fieldsOf (form : Form) (operation : Operation) : OperandFields :=
  let base := 2 ^ form.fieldWidth
  match operation with
  | .nop reg command => ⟨form, reg, command / base, command % base, 0⟩
  | .move rd rs => ⟨form, rd, rs, 0, 0⟩
  | .moveImmediate rd imm => ⟨form, rd, imm / base % base, imm % base, imm / 2 ^ 12⟩
  | .alu op rd ra rb => ⟨form, rd, ra, rb, op.selector⟩
  | .aluImmediate op rd ra imm =>
      let (x, c) := immediateDigits op imm
      ⟨form, rd, ra, c, x⟩
  | .load _ _ rd pointer offset =>
      let bits := unsigned form.offsetWidth offset
      ⟨form, rd, pointer, bits % 2 ^ 6, bits / 2 ^ 6⟩
  | .store _ _ pointer offset rs =>
      let bits := unsigned form.offsetWidth offset
      ⟨form, pointer, rs, bits % 2 ^ 6, bits / 2 ^ 6⟩
  | .branchAndLink offset link =>
      let bits := unsigned (linkWidth form) offset
      ⟨form, bits / base % base, bits % base, link, bits / 2 ^ 12⟩
  | .jumpAndLink target link => ⟨form, target, 0, link, 0⟩
  | .branch _ offset ra rb =>
      let bits := unsigned form.offsetWidth offset
      ⟨form, bits % 2 ^ 6, ra, rb, bits / 2 ^ 6⟩
  | .branchAlways offset =>
      let bits := unsigned (3 * form.fieldWidth) offset
      ⟨form, bits / base / base, bits / base % base, bits % base, 0⟩
  | .jump target => ⟨form, target, 0, 0, 0⟩
  | .jumpConditional _ target ra rb => ⟨form, target, ra, rb, 0⟩

/-- Numbers whose digits are given fields. -/
structure Digits (form : Form) (a b c x : Nat) (numbers : Numbers) : Prop where
  aLt : a < 2 ^ form.fieldWidth
  bLt : b < 2 ^ form.fieldWidth
  cLt : c < 2 ^ form.fieldWidth
  command : numbers.command / 2 ^ form.fieldWidth = b ∧
    numbers.command % 2 ^ form.fieldWidth = c
  immediate : ∀ op, (Mnemonic.aluImmediate op).hasForm form = true →
    Extends (.aluImmediate op) x → immediateDigits op.aluOp (numbers.immediate op) = (x, c)
  wideImmediate : numbers.wideImmediate / 2 ^ form.fieldWidth % 2 ^ form.fieldWidth = b ∧
    numbers.wideImmediate % 2 ^ form.fieldWidth = c ∧ numbers.wideImmediate / 2 ^ 12 = x
  memoryOffset : unsigned form.offsetWidth numbers.memoryOffset = 2 ^ 6 * x + c
  conditionalOffset : unsigned form.offsetWidth numbers.conditionalOffset = 2 ^ 6 * x + a
  linkOffset : unsigned (linkWidth form) numbers.linkOffset =
    2 ^ 12 * x + 2 ^ form.fieldWidth * a + b
  branchOffset : unsigned (3 * form.fieldWidth) numbers.branchOffset =
    2 ^ form.fieldWidth * (2 ^ form.fieldWidth * a + b) + c

theorem digits_short {a b c : Nat} (aLt : a < 2 ^ 3) (bLt : b < 2 ^ 3) (cLt : c < 2 ^ 3) :
    Digits .short a b c 0 (shortNumbers a b c) where
  aLt := aLt
  bLt := bLt
  cLt := cLt
  command := by
    simp only [shortNumbers, Form.fieldWidth]
    omega
  immediate := by
    intro op hasForm _
    cases op with
    | and | or | xor => cases hasForm
    | _ =>
        simp only [ImmediateOp.aluOp, immediateDigits, shortNumbers, Prod.mk.injEq, true_and]
        omega
  wideImmediate := by
    simp only [shortNumbers, Form.fieldWidth]
    omega
  memoryOffset := by
    rw [shortNumbers, Form.offsetWidth, unsigned_signed cLt]
    omega
  conditionalOffset := by
    rw [shortNumbers, Form.offsetWidth, unsigned_signed aLt]
    omega
  linkOffset := by
    have bitsLt : 2 ^ 3 * a + b < 2 ^ 6 := by omega
    rw [shortNumbers, linkWidth, unsigned_signed bitsLt, Form.fieldWidth]
    omega
  branchOffset := by
    have bitsLt : 2 ^ 6 * a + 2 ^ 3 * b + c < 2 ^ 9 := by omega
    rw [shortNumbers, Form.fieldWidth, unsigned_signed bitsLt]
    omega

theorem digits_long {a b c x : Nat} (aLt : a < 2 ^ 6) (bLt : b < 2 ^ 6) (cLt : c < 2 ^ 6)
    (xLt : x < 2 ^ 4) : Digits .long a b c x (longNumbers a b c x) where
  aLt := aLt
  bLt := bLt
  cLt := cLt
  command := by
    simp only [longNumbers, Form.fieldWidth]
    omega
  immediate := by
    intro op _ extension
    cases op <;>
      simp only [Extends, bits, ImmediateOp.aluOp, immediateDigits, longNumbers,
        Prod.mk.injEq] at extension ⊢ <;>
      omega
  wideImmediate := by
    simp only [longNumbers, Form.fieldWidth]
    omega
  memoryOffset := by
    have bitsLt : 2 ^ 6 * x + c < 2 ^ 10 := by omega
    exact unsigned_signed bitsLt
  conditionalOffset := by
    have bitsLt : 2 ^ 6 * x + a < 2 ^ 10 := by omega
    exact unsigned_signed bitsLt
  linkOffset := by
    have bitsLt : 2 ^ 12 * x + 2 ^ 6 * a + b < 2 ^ 16 := by omega
    exact unsigned_signed bitsLt
  branchOffset := by
    have bitsLt : 2 ^ 12 * a + 2 ^ 6 * b + c < 2 ^ 18 := by omega
    rw [longNumbers, Form.fieldWidth, unsigned_signed bitsLt]
    omega

theorem three_digits {form : Form} (a : Nat) {b c : Nat} (bLt : b < 2 ^ form.fieldWidth)
    (cLt : c < 2 ^ form.fieldWidth) :
    let base := 2 ^ form.fieldWidth
    (base * (base * a + b) + c) / base / base = a ∧
      (base * (base * a + b) + c) / base % base = b ∧ (base * (base * a + b) + c) % base = c := by
  cases form <;> simp only [Form.fieldWidth] at bLt cLt ⊢ <;> omega

theorem link_digits {form : Form} (x : Nat) {a b : Nat} (aLt : a < 2 ^ form.fieldWidth)
    (bLt : b < 2 ^ form.fieldWidth) :
    let base := 2 ^ form.fieldWidth
    (2 ^ 12 * x + base * a + b) / base % base = a ∧ (2 ^ 12 * x + base * a + b) % base = b ∧
      (2 ^ 12 * x + base * a + b) / 2 ^ 12 = x := by
  cases form <;> simp only [Form.fieldWidth] at aLt bLt ⊢ <;> omega

/-- The fields of a listed operation are those it was read from. -/
theorem fieldsOf_operation {form : Form} {a b c x : Nat} {numbers : Numbers}
    (digits : Digits form a b c x numbers) {mnemonic : Mnemonic}
    (hasForm : mnemonic.hasForm form = true) (extension : Extends mnemonic x)
    (vacant : Vacant mnemonic b c) :
    fieldsOf form (operation mnemonic a b c numbers) = ⟨form, a, b, c, x⟩ := by
  have widthLe : 2 ^ form.fieldWidth ≤ 2 ^ 6 := by cases form <;> decide
  have aLt := digits.aLt
  have bLt := digits.bLt
  have cLt := digits.cLt
  -- A field names the register of its own number, in short words too.
  have register_val {field : Nat} (fieldLt : field < 2 ^ form.fieldWidth) :
      (register field).val = field :=
    Nat.mod_eq_of_lt (Nat.lt_of_lt_of_le fieldLt widthLe)
  have aEq := register_val aLt
  have bEq := register_val bLt
  have cEq := register_val cLt
  cases mnemonic with
  | nop =>
      obtain ⟨upper, lower⟩ := digits.command
      simp only [Extends] at extension
      simp only [operation, fieldsOf, aEq, upper, lower, extension]
  | alu op =>
      have selected : op.selector = x := by
        cases op <;> exact extension.symm
      simp only [operation, fieldsOf, aEq, bEq, cEq, selected]
  | aluImmediate op =>
      have read := digits.immediate op hasForm extension
      simp only [operation, fieldsOf, aEq, bEq, read]
  | move =>
      simp only [Extends] at extension
      simp only [Vacant] at vacant
      simp only [operation, fieldsOf, aEq, bEq, vacant, extension]
  | moveImmediate =>
      obtain ⟨middle, lower, upper⟩ := digits.wideImmediate
      simp only [operation, fieldsOf, aEq, middle, lower, upper]
  | load width mode =>
      have lower : (2 ^ 6 * x + c) % 2 ^ 6 = c := by omega
      have upper : (2 ^ 6 * x + c) / 2 ^ 6 = x := by omega
      simp only [operation, fieldsOf, aEq, bEq, digits.memoryOffset, lower, upper]
  | store width mode =>
      have lower : (2 ^ 6 * x + c) % 2 ^ 6 = c := by omega
      have upper : (2 ^ 6 * x + c) / 2 ^ 6 = x := by omega
      simp only [operation, fieldsOf, aEq, bEq, digits.memoryOffset, lower, upper]
  | branchAlways =>
      obtain ⟨upper, middle, lower⟩ := three_digits a bLt cLt
      simp only [Extends] at extension
      simp only [operation, fieldsOf, digits.branchOffset, upper, middle, lower, extension]
  | branchAndLink =>
      obtain ⟨upper, middle, lower⟩ := link_digits x aLt bLt
      simp only [operation, fieldsOf, cEq, digits.linkOffset, upper, middle, lower]
  | branch condition =>
      have lower : (2 ^ 6 * x + a) % 2 ^ 6 = a := by omega
      have upper : (2 ^ 6 * x + a) / 2 ^ 6 = x := by omega
      simp only [operation, fieldsOf, bEq, cEq, digits.conditionalOffset, lower, upper]
  | jump =>
      simp only [Extends] at extension
      simp only [Vacant] at vacant
      simp only [operation, fieldsOf, aEq, vacant, extension]
  | jumpAndLink =>
      simp only [Extends] at extension
      simp only [Vacant] at vacant
      simp only [operation, fieldsOf, aEq, cEq, vacant, extension]
  | jumpConditional condition =>
      simp only [Extends] at extension
      simp only [operation, fieldsOf, aEq, bEq, cEq, extension]

theorem extends_zero_of_hasForm_short {mnemonic : Mnemonic}
    (hasForm : mnemonic.hasForm .short = true) : Extends mnemonic 0 := by
  cases mnemonic with
  | alu op => cases op <;> first | rfl | cases hasForm
  | aluImmediate op => cases op <;> trivial
  | _ => first | rfl | trivial

/-- The word of a mnemonic with given operand fields: bits 15 down to 0 of a
short word, and above them the upper halves of the fields in a long one. -/
def wordOf (mnemonic : Mnemonic) (fields : OperandFields) : Nat :=
  let opcode := 2 ^ 13 * mnemonic.group + 2 ^ 9 * mnemonic.number
  match fields.form with
  | .short => opcode + 2 ^ 6 * fields.a + 2 ^ 3 * fields.b + fields.c
  | .long =>
      2 ^ 25 * fields.x +
        (2 ^ 22 * (fields.a / 2 ^ 3) + 2 ^ 19 * (fields.b / 2 ^ 3) + 2 ^ 16 * (fields.c / 2 ^ 3)) +
        2 ^ 15 + opcode +
        (2 ^ 6 * (fields.a % 2 ^ 3) + 2 ^ 3 * (fields.b % 2 ^ 3) + fields.c % 2 ^ 3)

/-- The word that an operation has in a form. -/
def encoded? (form : Form) (operation : Operation) : Option Nat :=
  operation.mnemonic?.map fun mnemonic => wordOf mnemonic (fieldsOf form operation)

def littleEndian : Nat → Nat → List Byte
  | 0, _ => []
  | count + 1, number => BitVec.ofNat 8 number :: littleEndian count (number / 2 ^ 8)

theorem littleEndian_cons (count : Nat) (byte : Byte) (number : Nat) :
    littleEndian (count + 1) (byte.toNat + 2 ^ 8 * number) =
      byte :: littleEndian count number := by
  have byteLt := byte.isLt
  have byteEq : BitVec.ofNat 8 (byte.toNat + 2 ^ 8 * number) = byte := by
    apply BitVec.eq_of_toNat_eq
    rw [BitVec.toNat_ofNat]
    omega
  have restEq : (byte.toNat + 2 ^ 8 * number) / 2 ^ 8 = number := by omega
  rw [littleEndian, byteEq, restEq]

theorem IsShort.mnemonic? {word : Nat} {instruction : Instruction}
    (isShort : IsShort word instruction) :
    instruction.operation.mnemonic? = some instruction.opcode.mnemonic := by
  rw [isShort.operation, mnemonic?_operation]

theorem IsLong.mnemonic? {word : Nat} {instruction : Instruction}
    (isLong : IsLong word instruction) :
    instruction.operation.mnemonic? = some instruction.opcode.mnemonic := by
  rw [isLong.operation, mnemonic?_operation]

/-- The bits above others are the next digit of a number. -/
theorem mod_eq_bits_add (word high low : Nat) (lowLe : low ≤ high + 1) :
    word % 2 ^ (high + 1) = 2 ^ low * bits word high low + word % 2 ^ low := by
  have widthEq : 2 ^ (high + 1) = 2 ^ low * 2 ^ (high + 1 - low) := by
    rw [← Nat.pow_add, Nat.add_sub_cancel' lowLe]
  rw [widthEq, Nat.mod_mul, bits, Nat.add_comm]

theorem low_half_eq_bits (word : Nat) :
    word % 2 ^ 16 = 2 ^ 15 * bits word 15 15 + 2 ^ 13 * bits word 14 13 +
      2 ^ 9 * bits word 12 9 + 2 ^ 6 * bits word 8 6 + 2 ^ 3 * bits word 5 3 + bits word 2 0 := by
  -- From the top down, each field is split off what the last one left.
  have length := mod_eq_bits_add word 15 15 (by decide)
  have group := mod_eq_bits_add word 14 13 (by decide)
  have number := mod_eq_bits_add word 12 9 (by decide)
  have a := mod_eq_bits_add word 8 6 (by decide)
  have b := mod_eq_bits_add word 5 3 (by decide)
  have c := mod_eq_bits_add word 2 0 (by decide)
  omega

theorem whole_eq_bits (word : Nat) :
    word % 2 ^ 32 = 2 ^ 29 * bits word 31 29 + 2 ^ 25 * bits word 28 25 +
      2 ^ 22 * bits word 24 22 + 2 ^ 19 * bits word 21 19 + 2 ^ 16 * bits word 18 16 +
      word % 2 ^ 16 := by
  have reserved := mod_eq_bits_add word 31 29 (by decide)
  have x := mod_eq_bits_add word 28 25 (by decide)
  have a := mod_eq_bits_add word 24 22 (by decide)
  have b := mod_eq_bits_add word 21 19 (by decide)
  have c := mod_eq_bits_add word 18 16 (by decide)
  omega

theorem split_digits (word high low : Nat) :
    split word high low / 2 ^ 3 = bits word (high + 2) high ∧
      split word high low % 2 ^ 3 = bits word (low + 2) low := by
  have lowerLt := bits_lt word (low + 2) low
  rw [show low + 2 + 1 - low = 3 by omega] at lowerLt
  rw [split]
  omega

theorem IsShort.encoded? {word : Nat} (wordLt : word < 2 ^ 16) {instruction : Instruction}
    (isShort : IsShort word instruction) :
    encoded? .short instruction.operation = some word := by
  have hasForm := isShort.form ▸ instruction.opcode.hasForm
  have digits := digits_short (bits_lt word 8 6) (bits_lt word 5 3) (bits_lt word 2 0)
  have fieldsEq : fieldsOf .short instruction.operation =
      ⟨.short, bits word 8 6, bits word 5 3, bits word 2 0, 0⟩ := by
    rw [isShort.operation]
    exact fieldsOf_operation digits hasForm (extends_zero_of_hasForm_short hasForm) isShort.vacant
  have numberEq := isShort.number
  rw [← sharing_of_hasForm_short hasForm,
    numbered?_eq_some_iff (bits_lt word 14 13) (bits_lt word 12 9)] at numberEq
  have wordEq := low_half_eq_bits word
  rw [Nat.mod_eq_of_lt wordLt, isShort.length, numberEq.1, numberEq.2] at wordEq
  rw [Published.encoded?, isShort.mnemonic?, Option.map_some, fieldsEq, Option.some.injEq]
  simp only [wordOf]
  omega

theorem IsLong.encoded? {word : Nat} (wordLt : word < 2 ^ 32) {instruction : Instruction}
    (isLong : IsLong word instruction) :
    encoded? .long instruction.operation = some word := by
  have hasForm := isLong.form ▸ instruction.opcode.hasForm
  have digits := digits_long (split_lt word 22 6) (split_lt word 19 3) (split_lt word 16 0)
    (bits_lt word 28 25)
  have fieldsEq : fieldsOf .long instruction.operation =
      ⟨.long, split word 22 6, split word 19 3, split word 16 0, bits word 28 25⟩ := by
    rw [isLong.operation]
    exact fieldsOf_operation digits hasForm isLong.extend isLong.vacant
  have numberEq := isLong.number
  rw [numbered?_eq_some_iff (bits_lt word 14 13) (bits_lt word 12 9)] at numberEq
  have wordEq := whole_eq_bits word
  rw [Nat.mod_eq_of_lt wordLt, isLong.reserved, low_half_eq_bits, isLong.length, numberEq.1,
    numberEq.2] at wordEq
  rw [Published.encoded?, isLong.mnemonic?, Option.map_some, fieldsEq, Option.some.injEq]
  simp only [wordOf, split_digits, Nat.reduceAdd]
  omega

end Published

namespace Instruction

open Published

theorem mnemonic?_of_decode {bytes : List Byte} {address : Nat} {instruction : Instruction}
    (decoded : decode bytes address = .ok instruction) :
    instruction.operation.mnemonic? = some instruction.opcode.mnemonic := by
  rcases begins_of_decode decoded with
    ⟨_, _, _, _, isShort⟩ | ⟨_, _, _, _, _, _, isLong⟩
  · exact isShort.mnemonic?
  · exact isLong.mnemonic?

/-- The mnemonic can be told from the operation, so the form completes it to
the opcode. -/
theorem eq_of_operation_eq {left right : List Byte} {leftAddress rightAddress : Nat}
    {first second : Instruction} (leftDecoded : decode left leftAddress = .ok first)
    (rightDecoded : decode right rightAddress = .ok second)
    (formEq : first.opcode.form = second.opcode.form)
    (operationEq : first.operation = second.operation) : first = second := by
  have firstEq := mnemonic?_of_decode leftDecoded
  rw [operationEq, mnemonic?_of_decode rightDecoded, Option.some.injEq] at firstEq
  obtain ⟨⟨form, mnemonic, hasForm⟩, operation⟩ := first
  obtain ⟨⟨otherForm, otherMnemonic, otherHasForm⟩, otherOperation⟩ := second
  cases formEq
  cases operationEq
  cases firstEq
  rfl

/-- The bytes that an instruction was decoded from are those of its word. -/
theorem take_size_of_decode {bytes : List Byte} {address : Nat} {instruction : Instruction}
    (decoded : decode bytes address = .ok instruction) :
    instruction.size ≤ bytes.length ∧
      (encoded? instruction.opcode.form instruction.operation).map
          (littleEndian instruction.size) =
        some (bytes.take instruction.size) := by
  rcases begins_of_decode decoded with
    ⟨first, second, rest, rfl, isShort⟩ | ⟨first, second, third, fourth, rest, rfl, isLong⟩
  · have sizeEq : instruction.size = 2 := congrArg Form.size isShort.form
    have wordEq : first.toNat + 2 ^ 8 * second.toNat =
        first.toNat + 2 ^ 8 * (second.toNat + 2 ^ 8 * 0) := by omega
    have wordLt : first.toNat + 2 ^ 8 * second.toNat < 2 ^ 16 := by omega
    rw [sizeEq, isShort.form, isShort.encoded? wordLt, wordEq, Option.map_some,
      littleEndian_cons, littleEndian_cons]
    exact ⟨by simp, rfl⟩
  · have sizeEq : instruction.size = 4 := congrArg Form.size isLong.form
    have wordEq : first.toNat + 2 ^ 8 * second.toNat + 2 ^ 16 * third.toNat +
          2 ^ 24 * fourth.toNat =
        first.toNat + 2 ^ 8 * (second.toNat + 2 ^ 8 * (third.toNat + 2 ^ 8 *
          (fourth.toNat + 2 ^ 8 * 0))) := by omega
    have wordLt : first.toNat + 2 ^ 8 * second.toNat + 2 ^ 16 * third.toNat +
        2 ^ 24 * fourth.toNat < 2 ^ 32 := by omega
    rw [sizeEq, isLong.form, isLong.encoded? wordLt, wordEq, Option.map_some,
      littleEndian_cons, littleEndian_cons, littleEndian_cons, littleEndian_cons]
    exact ⟨by simp, rfl⟩

theorem eq_of_ofShort {left right : Word} {first second : Instruction}
    (leftEq : ofShort left = .ok first) (rightEq : ofShort right = .ok second)
    (operationEq : first.operation = second.operation) : left = right := by
  have leftWord := ((ofShort_eq_ok_iff left first).mp leftEq).encoded? left.isLt
  have rightWord := ((ofShort_eq_ok_iff right second).mp rightEq).encoded? right.isLt
  rw [operationEq, rightWord, Option.some.injEq] at leftWord
  exact BitVec.eq_of_toNat_eq leftWord.symm

theorem eq_of_ofLong {left right : BitVec 32} {first second : Instruction}
    (leftEq : ofLong left = .ok first) (rightEq : ofLong right = .ok second)
    (operationEq : first.operation = second.operation) : left = right := by
  have leftWord := ((ofLong_eq_ok_iff left first).mp leftEq).encoded? left.isLt
  have rightWord := ((ofLong_eq_ok_iff right second).mp rightEq).encoded? right.isLt
  rw [operationEq, rightWord, Option.some.injEq] at leftWord
  exact BitVec.eq_of_toNat_eq leftWord.symm

/-- Decoding is injective.  Bytes that decode to one instruction agree as far
as the instruction reaches; the operation with the form is enough to know the
instruction; and no two words of one form decode to the same operation. -/
theorem decode_injective :
    (∀ (left right : List Byte) (leftAddress rightAddress : Nat) (instruction : Instruction),
      decode left leftAddress = .ok instruction → decode right rightAddress = .ok instruction →
      instruction.size ≤ left.length ∧ instruction.size ≤ right.length ∧
        left.take instruction.size = right.take instruction.size) ∧
    (∀ (left right : List Byte) (leftAddress rightAddress : Nat) (first second : Instruction),
      decode left leftAddress = .ok first → decode right rightAddress = .ok second →
      first.opcode.form = second.opcode.form → first.operation = second.operation →
      first.opcode = second.opcode ∧ left.take first.size = right.take second.size) ∧
    (∀ (left right : Word) (first second : Instruction),
      ofShort left = .ok first → ofShort right = .ok second →
      first.operation = second.operation → left = right) ∧
    ∀ (left right : BitVec 32) (first second : Instruction),
      ofLong left = .ok first → ofLong right = .ok second →
      first.operation = second.operation → left = right := by
  have agree {left right : List Byte} {leftAddress rightAddress : Nat}
      {instruction : Instruction} (leftDecoded : decode left leftAddress = .ok instruction)
      (rightDecoded : decode right rightAddress = .ok instruction) :
      left.take instruction.size = right.take instruction.size :=
    Option.some.inj ((take_size_of_decode leftDecoded).2.symm.trans
      (take_size_of_decode rightDecoded).2)
  refine ⟨?_, ?_, ?_, ?_⟩
  · intro left right leftAddress rightAddress instruction leftDecoded rightDecoded
    exact ⟨(take_size_of_decode leftDecoded).1, (take_size_of_decode rightDecoded).1,
      agree leftDecoded rightDecoded⟩
  · intro left right leftAddress rightAddress first second leftDecoded rightDecoded formEq
      operationEq
    obtain rfl := eq_of_operation_eq leftDecoded rightDecoded formEq operationEq
    exact ⟨rfl, agree leftDecoded rightDecoded⟩
  · intro left right first second leftEq rightEq operationEq
    exact eq_of_ofShort leftEq rightEq operationEq
  · intro left right first second leftEq rightEq operationEq
    exact eq_of_ofLong leftEq rightEq operationEq

/-- A subtraction of the largest immediate, followed by nothing and by another
byte, and the words of two instructions. -/
theorem decode_injective_at_subtraction :
    let bytes : List Byte := [0x57, 0x96, 0x07, 0x1E]
    let subtract : Instruction := ⟨⟨.long, .aluImmediate .sub, rfl⟩, .aluImmediate .sub 1 2 1023⟩
    let add : Instruction := ⟨⟨.short, .alu .add, rfl⟩, .alu .add 1 2 3⟩
    (decode bytes 0 = .ok subtract ∧ decode (bytes ++ [0xFF]) 6 = .ok subtract ∧
      subtract.size ≤ bytes.length ∧ subtract.size ≤ (bytes ++ [0xFF]).length ∧
      bytes.take subtract.size = (bytes ++ [0xFF]).take subtract.size) ∧
    (subtract.opcode = subtract.opcode ∧
      bytes.take subtract.size = (bytes ++ [0xFF]).take subtract.size) ∧
    (ofShort 0x0253 = .ok add ∧ (0x0253 : Word) = 0x0253) ∧
    ofLong 0x1E079657 = .ok subtract ∧ (0x1E079657 : BitVec 32) = 0x1E079657 := by
  intro bytes subtract add
  have leftDecoded : decode bytes 0 = .ok subtract := by decide +kernel
  have rightDecoded : decode (bytes ++ [0xFF]) 6 = .ok subtract := by decide +kernel
  have shortEq : ofShort 0x0253 = .ok add := by decide +kernel
  have longEq : ofLong 0x1E079657 = .ok subtract := by decide +kernel
  refine ⟨⟨leftDecoded, rightDecoded, ?_⟩, ?_, ⟨shortEq, ?_⟩, longEq, ?_⟩
  · exact decode_injective.1 _ _ _ _ _ leftDecoded rightDecoded
  · exact decode_injective.2.1 _ _ _ _ _ _ leftDecoded rightDecoded rfl rfl
  · exact decode_injective.2.2.1 _ _ _ _ shortEq shortEq rfl
  · exact decode_injective.2.2.2 _ _ _ _ longEq longEq rfl

end Instruction

end Aap
