import Aap.Proofs.Extraction
import Aap.Proofs.Footprint

/-!
# Short instructions in long words

Every short word has a long one of the same operation: registers, immediates,
shift amounts and commands are kept, and offsets are extended by copies of their
sign.  A step from either word leaves the same machine behind, except for what is
derived from the program counter behind the instruction: the program counter
itself if no transfer is taken, and the return address of a call.
-/

namespace Aap

namespace Published

theorem group_lt (mnemonic : Mnemonic) : mnemonic.group < 2 ^ 2 := by
  cases mnemonic <;> simp [Mnemonic.group]

theorem number_lt (mnemonic : Mnemonic) : mnemonic.number < 2 ^ 4 := by
  cases mnemonic with
  | alu op => cases op <;> decide
  | aluImmediate op => cases op <;> decide
  | load width mode => cases width <;> cases mode <;> decide
  | store width mode => cases width <;> cases mode <;> decide
  | branch condition => cases condition <;> decide
  | jumpConditional condition => cases condition <;> decide
  | _ => decide

section Written

variable {fields : OperandFields} (mnemonic : Mnemonic)

/-- Above its low operand fields a long word has a set bit, the group and the number. -/
theorem wordOf_eq_carrying (formEq : fields.form = .long) :
    wordOf mnemonic fields =
      carrying 0 (2 ^ 6 + 2 ^ 4 * mnemonic.group + mnemonic.number) fields := by
  simp only [wordOf, formEq, carrying]
  omega

theorem middle_lt : 2 ^ 6 + 2 ^ 4 * mnemonic.group + mnemonic.number < 2 ^ 7 := by
  have groupLt := group_lt mnemonic
  have numberLt := number_lt mnemonic
  omega

theorem wordOf_lt (fits : FitsLong fields) : wordOf mnemonic fields < 2 ^ 32 := by
  rw [wordOf_eq_carrying mnemonic fits.form]
  exact carrying_lt (by decide) (middle_lt mnemonic) fits

/-- What is written into a long word is read from it. -/
theorem bits_wordOf (fits : FitsLong fields) :
    let word := wordOf mnemonic fields
    bits word 15 15 = 1 ∧ bits word 31 29 = 0 ∧ bits word 14 13 = mnemonic.group ∧
      bits word 12 9 = mnemonic.number ∧ split word 22 6 = fields.a ∧
      split word 19 3 = fields.b ∧ split word 16 0 = fields.c ∧ bits word 28 25 = fields.x := by
  rw [wordOf_eq_carrying mnemonic fits.form]
  have topLt : 0 < 2 ^ 3 := by decide
  obtain ⟨reserved, middle, operands⟩ := bits_carrying topLt (middle_lt mnemonic) fits
  have groupLt := group_lt mnemonic
  have numberLt := number_lt mnemonic
  -- The set bit, the group and the number are digits of the bits in the middle.
  simp only [bits] at middle
  refine ⟨?length, reserved, ?group, ?number, operands⟩ <;> (rw [bits]; omega)

/-- A long word with permitted fields is listed as the instruction that it was
written for. -/
theorem isLong_wordOf (fits : FitsLong fields) (extension : Extends mnemonic fields.x)
    (vacant : Vacant mnemonic fields.b fields.c) :
    IsLong (wordOf mnemonic fields)
      ⟨⟨.long, mnemonic, rfl⟩, operation mnemonic fields.a fields.b fields.c
        (longNumbers fields.a fields.b fields.c fields.x)⟩ := by
  obtain ⟨length, reserved, group, number, aEq, bEq, cEq, xEq⟩ := bits_wordOf mnemonic fits
  refine ⟨rfl, length, reserved, ?_, ?_, ?_, ?_⟩
  · rw [numbered?_eq_some_iff (bits_lt _ 14 13) (bits_lt _ 12 9)]
    exact ⟨group, number⟩
  · rwa [xEq]
  · rwa [bEq, cEq]
  · rw [aEq, bEq, cEq, xEq]

end Written

/-- The bits of an offset in a wider field: copies of its sign stand above it. -/
def extendSign (narrow wide value : Nat) : Nat :=
  if value < 2 ^ (narrow - 1) then value else value + (2 ^ wide - 2 ^ narrow)

section Sign

variable (narrow wide : Nat) {value : Nat}

theorem extendSign_lt (narrowLe : narrow ≤ wide) (valueLt : value < 2 ^ narrow) :
    extendSign narrow wide value < 2 ^ wide := by
  have powersLe := Nat.pow_le_pow_right (n := 2) (by decide) narrowLe
  rw [extendSign]
  split <;> omega

theorem signed_extendSign (narrowPos : 0 < narrow) (narrowLe : narrow ≤ wide) :
    signed wide (extendSign narrow wide value) = signed narrow value := by
  have double {width : Nat} (widthPos : 0 < width) : 2 ^ width = 2 * 2 ^ (width - 1) := by
    rw [← Nat.pow_succ', Nat.succ_eq_add_one, Nat.sub_add_cancel widthPos]
  have narrowEq := double narrowPos
  have wideEq := double (Nat.lt_of_lt_of_le narrowPos narrowLe)
  have halvesLe : 2 ^ (narrow - 1) ≤ 2 ^ (wide - 1) :=
    Nat.pow_le_pow_right (by decide) (by omega)
  rw [extendSign, signed, signed]
  by_cases small : value < 2 ^ (narrow - 1)
  · rw [if_pos small, if_pos small, if_pos (by omega)]
  · rw [if_neg small, if_neg small, if_neg (by omega)]
    push_cast [Nat.pow_le_pow_right (n := 2) (by decide) narrowLe]
    omega

end Sign

/-- An operand as the bits that stand for it in a word. -/
inductive Part where
  /-- A register, an immediate, a shift amount or a command. -/
  | plain (bits : Nat)
  | offset (width bits : Nat)
  deriving DecidableEq

/-- The same operand in a field that may be wider: zeros are put before numbers
without a sign, copies of the sign before offsets. -/
inductive Part.Widens : Part → Part → Prop where
  | plain (bits : Nat) : Widens (.plain bits) (.plain bits)
  | offset {narrow wide : Nat} (bits : Nat) (narrowLe : narrow ≤ wide) :
      Widens (.offset narrow bits) (.offset wide (extendSign narrow wide bits))

namespace Part

theorem widens_plain_iff (narrow wide : Nat) :
    Widens (.plain narrow) (.plain wide) ↔ wide = narrow := by
  constructor
  · rintro ⟨_⟩
    rfl
  · rintro rfl
    exact .plain wide

theorem widens_offset_iff (narrow wide value widened : Nat) :
    Widens (.offset narrow value) (.offset wide widened) ↔
      narrow ≤ wide ∧ widened = extendSign narrow wide value := by
  constructor
  · rintro ⟨_⟩
    exact ⟨by assumption, rfl⟩
  · rintro ⟨narrowLe, rfl⟩
    exact .offset value narrowLe

end Part

/-- The operands of an instruction in its fields, each with its bits put
together. -/
def parts (mnemonic : Mnemonic) (fields : OperandFields) : List Part :=
  let base := 2 ^ fields.form.fieldWidth
  match mnemonic with
  | .nop => [.plain fields.a, .plain (base * fields.b + fields.c)]
  | .alu _ | .jumpConditional _ => [.plain fields.a, .plain fields.b, .plain fields.c]
  | .aluImmediate .add | .aluImmediate .sub =>
      [.plain fields.a, .plain fields.b, .plain (2 ^ 6 * fields.x + fields.c)]
  | .aluImmediate .and | .aluImmediate .or | .aluImmediate .xor =>
      [.plain fields.a, .plain fields.b, .plain (2 ^ 6 * bits fields.x 2 0 + fields.c)]
  | .aluImmediate .asr | .aluImmediate .lsl | .aluImmediate .lsr =>
      [.plain fields.a, .plain fields.b, .plain fields.c]
  | .move => [.plain fields.a, .plain fields.b]
  | .moveImmediate =>
      [.plain fields.a, .plain (2 ^ 12 * fields.x + base * fields.b + fields.c)]
  | .load _ _ | .store _ _ =>
      [.plain fields.a, .plain fields.b,
        .offset fields.form.offsetWidth (2 ^ 6 * fields.x + fields.c)]
  | .branchAlways =>
      [.offset (3 * fields.form.fieldWidth) (base * (base * fields.a + fields.b) + fields.c)]
  | .branchAndLink =>
      [.offset (linkWidth fields.form) (2 ^ 12 * fields.x + base * fields.a + fields.b),
        .plain fields.c]
  | .branch _ =>
      [.offset fields.form.offsetWidth (2 ^ 6 * fields.x + fields.a), .plain fields.b,
        .plain fields.c]
  | .jump => [.plain fields.a]
  | .jumpAndLink => [.plain fields.a, .plain fields.c]

/-- The fields of a long word for the instruction of a short one. -/
def widened (mnemonic : Mnemonic) (a b c : Nat) : OperandFields :=
  match mnemonic with
  | .nop | .moveImmediate => ⟨.long, a, 0, 2 ^ 3 * b + c, 0⟩
  | .load _ _ | .store _ _ =>
      let bits := extendSign 3 10 c
      ⟨.long, a, b, bits % 2 ^ 6, bits / 2 ^ 6⟩
  | .branch _ =>
      let bits := extendSign 3 10 a
      ⟨.long, bits % 2 ^ 6, b, c, bits / 2 ^ 6⟩
  | .branchAndLink =>
      let bits := extendSign 6 16 (2 ^ 3 * a + b)
      ⟨.long, bits / 2 ^ 6 % 2 ^ 6, bits % 2 ^ 6, c, bits / 2 ^ 12⟩
  | .branchAlways =>
      let bits := extendSign 9 18 (2 ^ 6 * a + 2 ^ 3 * b + c)
      ⟨.long, bits / 2 ^ 12, bits / 2 ^ 6 % 2 ^ 6, bits % 2 ^ 6, 0⟩
  | _ => ⟨.long, a, b, c, 0⟩

example : widened .branchAndLink 7 6 5 = ⟨.long, 63, 62, 5, 15⟩ := rfl

section Widened

variable {a b c : Nat}

theorem fitsLong_widened (aLt : a < 2 ^ 3) (bLt : b < 2 ^ 3) (cLt : c < 2 ^ 3)
    (mnemonic : Mnemonic) : FitsLong (widened mnemonic a b c) := by
  have memoryLt : extendSign 3 10 c < 2 ^ 10 := extendSign_lt 3 10 (by decide) cLt
  have conditionalLt : extendSign 3 10 a < 2 ^ 10 := extendSign_lt 3 10 (by decide) aLt
  have linkLt : extendSign 6 16 (2 ^ 3 * a + b) < 2 ^ 16 :=
    extendSign_lt 6 16 (by decide) (by omega)
  have branchLt : extendSign 9 18 (2 ^ 6 * a + 2 ^ 3 * b + c) < 2 ^ 18 :=
    extendSign_lt 9 18 (by decide) (by omega)
  cases mnemonic <;> constructor <;> simp only [widened] <;> omega

theorem extends_widened {mnemonic : Mnemonic} (hasForm : mnemonic.hasForm .short = true) :
    Extends mnemonic (widened mnemonic a b c).x := by
  have extension := extends_zero_of_hasForm_short hasForm
  cases mnemonic <;> exact extension

theorem vacant_widened {mnemonic : Mnemonic} (vacant : Vacant mnemonic b c) :
    Vacant mnemonic (widened mnemonic a b c).b (widened mnemonic a b c).c := by
  cases mnemonic <;> exact vacant

theorem join_two (value : Nat) : 2 ^ 6 * (value / 2 ^ 6) + value % 2 ^ 6 = value :=
  Nat.div_add_mod _ _

theorem join_three (value : Nat) :
    2 ^ 12 * (value / 2 ^ 12) + 2 ^ 6 * (value / 2 ^ 6 % 2 ^ 6) + value % 2 ^ 6 = value := by
  omega

theorem operation_widened {mnemonic : Mnemonic} (hasForm : mnemonic.hasForm .short = true) :
    let fields := widened mnemonic a b c
    operation mnemonic fields.a fields.b fields.c
        (longNumbers fields.a fields.b fields.c fields.x) =
      operation mnemonic a b c (shortNumbers a b c) := by
  cases mnemonic with
  | aluImmediate op =>
      cases op with
      | and | or | xor => cases hasForm
      | _ => simp [operation, widened, longNumbers, shortNumbers]
  | load width mode | store width mode | branch condition =>
      simp only [operation, widened, longNumbers, shortNumbers, join_two,
        signed_extendSign 3 10 (by decide) (by decide)]
  | branchAndLink =>
      simp only [operation, widened, longNumbers, shortNumbers, join_three,
        signed_extendSign 6 16 (by decide) (by decide)]
  | branchAlways =>
      simp only [operation, widened, longNumbers, shortNumbers, join_three,
        signed_extendSign 9 18 (by decide) (by decide)]
  | _ => simp [operation, widened, longNumbers, shortNumbers]

theorem widens_parts {mnemonic : Mnemonic} (hasForm : mnemonic.hasForm .short = true) :
    List.Forall₂ Part.Widens (parts mnemonic ⟨.short, a, b, c, 0⟩)
      (parts mnemonic (widened mnemonic a b c)) := by
  cases mnemonic with
  | aluImmediate op =>
      cases op with
      | and | or | xor => cases hasForm
      | _ => simp [parts, widened, Part.widens_plain_iff]
  | load width mode | store width mode | branch condition | branchAndLink =>
      simp [parts, widened, Part.widens_plain_iff, Part.widens_offset_iff, Form.offsetWidth,
        Form.fieldWidth, linkWidth, -Nat.reducePow, join_two, join_three]
  | branchAlways =>
      have joinedEq : 2 ^ 3 * (2 ^ 3 * a + b) + c = 2 ^ 6 * a + 2 ^ 3 * b + c := by omega
      have wideEq (value : Nat) :
          2 ^ 6 * (2 ^ 6 * (value / 2 ^ 12) + value / 2 ^ 6 % 2 ^ 6) + value % 2 ^ 6 = value := by
        omega
      simp [parts, widened, Part.widens_offset_iff, Form.fieldWidth, -Nat.reducePow, joinedEq,
        wideEq]
  | _ => simp [parts, widened, Part.widens_plain_iff, Form.fieldWidth]

end Widened

/-- A word is its own first two bytes. -/
theorem encodes_littleEndian_two_iff (word : Word) (instruction : Instruction) :
    Encodes (littleEndian 2 word.toNat) instruction ↔ IsShort word.toNat instruction := by
  have wordLt := word.isLt
  have wordEq : (BitVec.ofNat 8 word.toNat).toNat +
      2 ^ 8 * (BitVec.ofNat 8 (word.toNat / 2 ^ 8)).toNat = word.toNat := by
    simp only [BitVec.toNat_ofNat]
    omega
  constructor
  · rintro ⟨⟨address, decoded⟩, _⟩
    rcases Instruction.begins_of_decode decoded with
      ⟨first, second, rest, bytesEq, isShort⟩ | ⟨_, _, _, _, _, bytesEq, _⟩
    · simp only [littleEndian, List.cons.injEq] at bytesEq
      obtain ⟨rfl, rfl, _⟩ := bytesEq
      rwa [wordEq] at isShort
    · simp [littleEndian] at bytesEq
  · intro isShort
    have sizeEq : instruction.size = 2 := congrArg Form.size isShort.form
    refine ⟨⟨0, Instruction.decode_of_begins (.inl ⟨_, _, [], rfl, ?_⟩) 0⟩, sizeEq.symm⟩
    rwa [wordEq]

theorem encodes_littleEndian_four {whole : BitVec 32} {instruction : Instruction}
    (isLong : IsLong whole.toNat instruction) :
    Encodes (littleEndian 4 whole.toNat) instruction := by
  have wholeLt := whole.isLt
  have sizeEq : instruction.size = 4 := congrArg Form.size isLong.form
  refine ⟨⟨0, Instruction.decode_of_begins (.inr ⟨_, _, _, _, [], rfl, ?_⟩) 0⟩, sizeEq.symm⟩
  have wholeEq : (BitVec.ofNat 8 whole.toNat).toNat +
      2 ^ 8 * (BitVec.ofNat 8 (whole.toNat / 2 ^ 8)).toNat +
      2 ^ 16 * (BitVec.ofNat 8 (whole.toNat / 2 ^ 8 / 2 ^ 8)).toNat +
      2 ^ 24 * (BitVec.ofNat 8 (whole.toNat / 2 ^ 8 / 2 ^ 8 / 2 ^ 8)).toNat = whole.toNat := by
    simp only [BitVec.toNat_ofNat]
    omega
  rwa [wholeEq]

/-- A long word says the same as a short one: it has the class and the number of
the short word, and its operands are those of the short word in wider fields. -/
structure Restates (word : Word) (whole : BitVec 32) (mnemonic : Mnemonic) : Prop where
  group : Field.group.read whole = Field.group.read (word.setWidth 32)
  number : Field.number.read whole = Field.number.read (word.setWidth 32)
  operands : List.Forall₂ Part.Widens (parts mnemonic (OperandFields.ofShort word))
    (parts mnemonic (OperandFields.ofLong whole))

/-- Every short word is restated by a long one of the same operation. -/
theorem IsShort.exists_long {word : Word} {short : Instruction}
    (isShort : IsShort word.toNat short) :
    ∃ whole : BitVec 32,
      IsLong whole.toNat ⟨⟨.long, short.opcode.mnemonic, rfl⟩, short.operation⟩ ∧
        Restates word whole short.opcode.mnemonic := by
  have hasForm := isShort.form ▸ short.opcode.hasForm
  have aLt := bits_lt word.toNat 8 6
  have bLt := bits_lt word.toNat 5 3
  have cLt := bits_lt word.toNat 2 0
  have fits := fitsLong_widened aLt bLt cLt short.opcode.mnemonic
  let whole := BitVec.ofNat 32 (wordOf short.opcode.mnemonic
    (widened short.opcode.mnemonic (bits word.toNat 8 6) (bits word.toNat 5 3)
      (bits word.toNat 2 0)))
  have wholeEq : whole.toNat = _ := Nat.mod_eq_of_lt (wordOf_lt short.opcode.mnemonic fits)
  have isLong := isLong_wordOf short.opcode.mnemonic fits (extends_widened hasForm)
    (vacant_widened isShort.vacant)
  obtain ⟨_, _, groupEq, numberEq, aEq, bEq, cEq, xEq⟩ := bits_wordOf short.opcode.mnemonic fits
  have shortNumber := isShort.number
  rw [← sharing_of_hasForm_short hasForm,
    numbered?_eq_some_iff (bits_lt word.toNat 14 13) (bits_lt word.toNat 12 9)] at shortNumber
  have wideEq : (word.setWidth 32).toNat = word.toNat := BitVec.toNat_setWidth_of_le (by decide)
  refine ⟨whole, ?_, ?_, ?_, ?_⟩
  · rw [operation_widened hasForm, ← isShort.operation] at isLong
    rwa [wholeEq]
  · simp [Field.group, wideEq, shortNumber, wholeEq, groupEq]
  · simp [Field.number, wideEq, shortNumber, wholeEq, numberEq]
  · rw [ofShort_eq_fields, ofLong_eq_fields, wholeEq, aEq, bEq, cEq, xEq, ← fits.form]
    exact widens_parts hasForm

end Published

namespace Operation

/-- The register in which a call leaves its return address. -/
def link? : Operation → Option Reg
  | branchAndLink _ link | jumpAndLink _ link => some link
  | _ => none

/-- Whether the program goes on behind the operation.  It does not where a
transfer is taken, nor at a conditional jump, which traps and stays. -/
def FallsThrough (operation : Operation) (before : Observation) : Prop :=
  match operation with
  | branch condition _ ra rb => ¬ condition.Holds (before.registers ra) (before.registers rb)
  | branchAndLink _ _ | jumpAndLink _ _ | branchAlways _ | jump _ => False
  | jumpConditional _ _ _ _ => False
  | _ => True

end Operation

/-- Two observations after an operation that agree on everything but code, except
that what comes from the program counter behind the operation is `firstNext` in
one and `secondNext` in the other: the program counter where the program goes on
there, and the return address of a call. -/
structure Observation.SameButFallThrough (operation : Operation) (before : Observation)
    (firstNext secondNext : Word) (first second : Observation) : Prop where
  output : second.output = first.output
  exitCode : second.exitCode = first.exitCode
  overflow : second.overflow = first.overflow
  data : second.data = first.data
  registers : ∀ register, operation.link? ≠ some register →
    second.registers register = first.registers register
  link : ∀ register, operation.link? = some register →
    first.registers register = firstNext ∧ second.registers register = secondNext
  next : operation.FallsThrough before → first.pc = firstNext ∧ second.pc = secondNext
  transfer : ¬ operation.FallsThrough before → second.pc = first.pc

namespace Operation

theorem sameButFallThrough_interpret (operation : Operation) (pc firstNext secondNext : Word)
    (before : Observation) (code : Nat → Byte) :
    Observation.SameButFallThrough operation before firstNext secondNext
      (operation.interpret pc firstNext before)
      (operation.interpret pc secondNext { before with code }) := by
  cases operation with
  | branchAndLink offset link | jumpAndLink target link =>
      refine ⟨rfl, rfl, rfl, rfl, ?_, ?_, ?_, ?_⟩
      · intro register notLink
        have registerNe : register ≠ link := fun same => notLink (congrArg some same.symm)
        simp only [interpret, if_neg registerNe]
      · intro register isLink
        cases isLink
        simp only [interpret, if_true, and_self]
      · exact False.elim
      · exact fun _ => rfl
  | branch condition offset ra rb =>
      refine ⟨rfl, rfl, rfl, rfl, fun _ _ => rfl, by simp [link?], ?_, ?_⟩
      · intro falls
        exact ⟨if_neg falls, if_neg falls⟩
      · intro transfers
        have holds := not_not.mp transfers
        exact (if_pos holds).trans (if_pos holds).symm
  | branchAlways offset | jump target | jumpConditional condition target ra rb =>
      exact ⟨rfl, rfl, rfl, rfl, fun _ _ => rfl, by simp [link?], False.elim, fun _ => rfl⟩
  | _ =>
      -- Nothing but the program counter comes from behind the operation.
      refine ⟨rfl, rfl, rfl, rfl, fun _ _ => rfl, by simp [link?], fun _ => ⟨rfl, rfl⟩, ?_⟩
      exact fun transfers => absurd trivial transfers

/-- How an operation ends does not depend on the machine. -/
theorem outcome_execute (operation : Operation) (left right : Machine)
    (pc leftNext rightNext : Word) :
    (operation.execute left pc leftNext).1 = (operation.execute right pc rightNext).1 := by
  cases operation with
  | nop reg command =>
      simp only [execute]
      cases Request.ofCommand command <;> rfl
  | branch condition offset ra rb =>
      simp only [execute]
      split <;> split <;> rfl
  | _ => rfl

end Operation

namespace Simulator

variable {simulator : Simulator}

/-- What a step reports is how its operation ends, if nothing is fatal. -/
theorem result_step {instruction : Instruction} (policyEq : simulator.config.unknownOpcode = .trap)
    (fetchedEq : simulator.fetched = .ok instruction) :
    simulator.step.result =
      .executed (instruction.operation.execute simulator.machine simulator.pc
        (simulator.pc + BitVec.ofNat 16 instruction.words)).1.status := by
  by_cases conditional : instruction.operation.IsConditionalJump
  · have outcomeEq := (instruction.operation.execute_eq_unimplemented_iff simulator.pc
      (simulator.pc + BitVec.ofNat 16 instruction.words) simulator.machine).mpr conditional
    rw [step_of_conditionalJump fetchedEq conditional, policyEq, outcomeEq]
    rfl
  · obtain ⟨outcome, effects, _, executeEq, stepEq⟩ := step_of_meaningful fetchedEq conditional
    rw [stepEq, executeEq]

/-- An instruction whose bytes are loaded at the program counter is fetched there. -/
theorem exists_loadCode_at_pc {bytes : List Byte} {instruction : Instruction}
    (encodes : Encodes bytes instruction) (simulator : Simulator)
    (fits : 2 * simulator.pc.toNat + bytes.length ≤ Space.code.size) :
    ∃ loaded, simulator.loadCode bytes (2 * simulator.pc.toNat) = .ok loaded ∧
      SameButCode simulator loaded ∧ loaded.fetched = .ok instruction := by
  refine ⟨{ simulator with
    machine := { simulator.machine with
      code := simulator.machine.code.writeAll (2 * simulator.pc.toNat) bytes } }, ?_,
    ⟨rfl, rfl, rfl, rfl⟩, ?_⟩
  · rw [loadCode, Memory.load, if_pos fits]
    rfl
  · exact Memory.fetch_of_prefix encodes (Memory.prefix_tail_writeAll _ fits)

theorem SameButCode.observe {left right : Simulator} (same : SameButCode left right) :
    right.observe = { left.observe with code := right.machine.code.read } := by
  have processorEq := same.processor
  apply Observation.ext
  · funext register
    exact congrArg (Processor.read · register) processorEq
  · exact same.pc
  · exact congrArg Processor.overflow processorEq
  · exact congrArg Processor.exitCode processorEq
  · rfl
  · funext address
    exact congrArg (Memory.read · address.toNat) same.data
  · exact congrArg Console.bytes same.console

/-- Two instructions of one operation, found by simulators that differ in code
only, end alike and leave the same behind up to what comes from behind them. -/
theorem step_sameButFallThrough {left right : Simulator} (same : SameButCode left right)
    (policyEq : left.config.unknownOpcode = .trap) {first second : Instruction}
    (leftFetched : left.fetched = .ok first) (rightFetched : right.fetched = .ok second)
    (operationEq : second.operation = first.operation) :
    (∃ status, left.step.result = .executed status ∧ right.step.result = .executed status) ∧
      Observation.SameButFallThrough first.operation left.observe
        (left.pc + BitVec.ofNat 16 first.words) (left.pc + BitVec.ofNat 16 second.words)
        left.step.simulator.observe right.step.simulator.observe := by
  have rightPolicy : right.config.unknownOpcode = .trap := same.config ▸ policyEq
  constructor
  · refine ⟨_, result_step policyEq leftFetched, ?_⟩
    rw [result_step rightPolicy rightFetched, operationEq, same.pc,
      first.operation.outcome_execute right.machine left.machine left.pc _
        (left.pc + BitVec.ofNat 16 first.words)]
  · rw [observe_step leftFetched, observe_step rightFetched, operationEq, same.pc, same.observe]
    exact first.operation.sameButFallThrough_interpret left.pc _ _ left.observe _

open Published

/-- A short instruction can be written as a long one of the same operation, and
wherever both fit, stepping over either does the same but for what comes from the
program counter behind it. -/
theorem short_and_long_agree (word : Word) (short : Instruction)
    (encodes : Encodes (littleEndian 2 word.toNat) short) :
    ∃ (whole : BitVec 32) (long : Instruction),
      Encodes (littleEndian 4 whole.toNat) long ∧ long.operation = short.operation ∧
      long.opcode.mnemonic = short.opcode.mnemonic ∧
      Restates word whole short.opcode.mnemonic ∧
      ∀ simulator : Simulator, simulator.config.unknownOpcode = .trap →
        simulator.pc.toNat ≤ 0xFFFE →
        ∃ first second status,
          simulator.loadCode (littleEndian 2 word.toNat) (2 * simulator.pc.toNat) = .ok first ∧
          simulator.loadCode (littleEndian 4 whole.toNat) (2 * simulator.pc.toNat) = .ok second ∧
          first.step.result = .executed status ∧ second.step.result = .executed status ∧
          Observation.SameButFallThrough short.operation simulator.observe (simulator.pc + 1)
            (simulator.pc + 2) first.step.simulator.observe second.step.simulator.observe := by
  have isShort := (encodes_littleEndian_two_iff word short).mp encodes
  obtain ⟨whole, isLong, restates⟩ := isShort.exists_long
  have longEncodes := encodes_littleEndian_four isLong
  refine ⟨whole, _, longEncodes, rfl, rfl, restates, ?_⟩
  intro simulator policyEq pcLe
  have sizeEq : Space.code.size = 2 * 0x10000 := rfl
  have shortLength : (littleEndian 2 word.toNat).length = 2 := rfl
  have longLength : (littleEndian 4 whole.toNat).length = 4 := rfl
  obtain ⟨first, firstEq, firstSame, firstFetched⟩ :=
    exists_loadCode_at_pc encodes simulator (by omega)
  obtain ⟨second, secondEq, secondSame, secondFetched⟩ :=
    exists_loadCode_at_pc longEncodes simulator (by omega)
  have same : SameButCode first second :=
    ⟨secondSame.config.trans firstSame.config.symm,
      secondSame.processor.trans firstSame.processor.symm,
      secondSame.data.trans firstSame.data.symm,
      secondSame.console.trans firstSame.console.symm⟩
  have firstPolicy : first.config.unknownOpcode = .trap := firstSame.config ▸ policyEq
  have wordsEq : short.words = 1 := congrArg Form.words isShort.form
  obtain ⟨⟨status, firstResult, secondResult⟩, agree⟩ :=
    step_sameButFallThrough same firstPolicy firstFetched secondFetched rfl
  refine ⟨first, second, status, firstEq, secondEq, firstResult, secondResult, ?_⟩
  rw [firstSame.pc, firstSame.observe, wordsEq] at agree
  -- Loading touched code only, and what falls through is decided by the registers.
  exact ⟨agree.output, agree.exitCode, agree.overflow, agree.data, agree.registers, agree.link,
    agree.next, agree.transfer⟩

/-- A call in front of the last word of code: its return address is that word
after the short form, and word zero after the long form. -/
theorem short_and_long_agree_at_call :
    let simulator := (create {}).setPc 0xFFFE
    let call := Operation.branchAndLink (-1) 7
    Encodes (littleEndian 2 0x43FF) ⟨⟨.short, .branchAndLink, rfl⟩, call⟩ ∧
    simulator.config.unknownOpcode = .trap ∧ simulator.pc.toNat ≤ 0xFFFE ∧
    ∃ (whole : BitVec 32) (first second : Simulator),
      simulator.loadCode (littleEndian 2 0x43FF) 0x1FFFC = .ok first ∧
      simulator.loadCode (littleEndian 4 whole.toNat) 0x1FFFC = .ok second ∧
      first.step.simulator.machine.read 7 = 0xFFFF ∧
      second.step.simulator.machine.read 7 = 0 ∧
      second.step.simulator.pc = first.step.simulator.pc := by
  intro simulator call
  have encodes : Encodes (littleEndian 2 0x43FF) ⟨⟨.short, .branchAndLink, rfl⟩, call⟩ :=
    ⟨⟨0, by decide +kernel⟩, rfl⟩
  have policyEq : simulator.config.unknownOpcode = .trap := rfl
  have pcLe : simulator.pc.toNat ≤ 0xFFFE := by decide
  obtain ⟨whole, long, _, _, _, _, agree⟩ := short_and_long_agree 0x43FF _ encodes
  obtain ⟨first, second, status, firstEq, secondEq, _, _, same⟩ := agree simulator policyEq pcLe
  have addressEq : 2 * simulator.pc.toNat = 0x1FFFC := by decide
  rw [addressEq] at firstEq secondEq
  obtain ⟨firstLink, secondLink⟩ := same.link 7 rfl
  have shortNext : simulator.pc + 1 = 0xFFFF := by decide
  have longNext : simulator.pc + 2 = 0 := by decide
  exact ⟨encodes, policyEq, pcLe, whole, first, second, firstEq, secondEq,
    firstLink.trans shortNext, secondLink.trans longNext, same.transfer id⟩

end Simulator

end Aap
