import Aap.Proofs.Decode

/-!
# Why bytes do not decode

Every operand field of a listed word names a register of its class, so a word
fails to decode only if no row of its table accepts it.  Bytes then fail in one
of two ways: the word that would have to be looked at next is not all there, or
it is there and listed in neither table.  A result other than a missing word
stays the same when bytes are added behind, and no result depends on more than
four bytes.
-/

namespace Aap

namespace Published

variable {bytes : List Byte} {instruction : Instruction}

theorem Begins.append (begins : Begins bytes instruction) (behind : List Byte) :
    Begins (bytes ++ behind) instruction := by
  rcases begins with ⟨first, second, rest, rfl, isShort⟩ |
    ⟨first, second, third, fourth, rest, rfl, isLong⟩
  · exact .inl ⟨first, second, rest ++ behind, rfl, isShort⟩
  · exact .inr ⟨first, second, third, fourth, rest ++ behind, rfl, isLong⟩

theorem Begins.take_size (begins : Begins bytes instruction) :
    Begins (bytes.take instruction.size) instruction := by
  rcases begins with ⟨first, second, rest, rfl, isShort⟩ |
    ⟨first, second, third, fourth, rest, rfl, isLong⟩
  · have sizeEq : instruction.size = 2 := congrArg Form.size isShort.form
    rw [sizeEq]
    exact .inl ⟨first, second, [], rfl, isShort⟩
  · have sizeEq : instruction.size = 4 := congrArg Form.size isLong.form
    rw [sizeEq]
    exact .inr ⟨first, second, third, fourth, [], rfl, isLong⟩

theorem Begins.size_le (begins : Begins bytes instruction) :
    instruction.size ≤ bytes.length := by
  rcases begins with ⟨first, second, rest, rfl, isShort⟩ |
    ⟨first, second, third, fourth, rest, rfl, isLong⟩
  · have sizeEq : instruction.size = 2 := congrArg Form.size isShort.form
    simp [sizeEq]
  · have sizeEq : instruction.size = 4 := congrArg Form.size isLong.form
    simp [sizeEq]

end Published

namespace Instruction

variable {bytes : List Byte} {address : Nat} {instruction : Instruction}

theorem size_eq (instruction : Instruction) : instruction.size = 2 * instruction.words :=
  rfl

theorem words_cases (instruction : Instruction) :
    instruction.words = 1 ∨ instruction.words = 2 := by
  rw [words]
  cases instruction.opcode.form with
  | short => exact .inl rfl
  | long => exact .inr rfl

/-- What follows an instruction has no influence on it. -/
theorem decode_of_prefix {whole : List Byte} (decoded : decode bytes address = .ok instruction)
    (begins : bytes <+: whole) (otherAddress : Nat) :
    decode whole otherAddress = .ok instruction := by
  obtain ⟨behind, rfl⟩ := begins
  exact decode_of_begins ((begins_of_decode decoded).append behind) otherAddress

/-- The bytes of an instruction decide that it is decoded. -/
theorem decode_of_take_size {other : List Byte} (decoded : decode bytes address = .ok instruction)
    (takeEq : other.take instruction.size = bytes.take instruction.size) (otherAddress : Nat) :
    decode other otherAddress = .ok instruction := by
  have begins := (begins_of_decode decoded).take_size
  rw [← takeEq] at begins
  exact decode_of_prefix (decode_of_begins begins address) (List.take_prefix _ _) otherAddress

theorem decode_take_four (bytes : List Byte) (address : Nat) :
    decode (bytes.take 4) address = decode bytes address := by
  match bytes with
  | [] | [_] | [_, _] | [_, _, _] => rfl
  | first :: second :: third :: fourth :: rest => rfl

/-- The operands of a listed word can always be read. -/
theorem ofFields_ne_error {fields : OperandFields} {numbers : Published.Numbers}
    (reads : Published.Reads fields numbers) (opcode : Opcode) (error : DecodeError) :
    ofFields opcode fields ≠ .error error := by
  intro failed
  have made := (Published.ofFields_eq_ok_iff reads opcode ⟨opcode, _⟩).mpr ⟨rfl, rfl⟩
  cases made.symm.trans failed

theorem ofShort_eq_error_iff (word : Word) (error : DecodeError) :
    ofShort word = .error error ↔
      Encoding.shortOpcode? word = none ∧ error = .noMatchingEncoding := by
  have reads := Published.reads_short (Published.bits_lt word.toNat 8 6)
    (Published.bits_lt word.toNat 5 3) (Published.bits_lt word.toNat 2 0)
  rw [ofShort]
  cases found : Encoding.shortOpcode? word with
  | none => simp [eq_comm]
  | some opcode =>
      rw [Published.ofShort_eq_fields]
      exact iff_of_false (ofFields_ne_error reads opcode error) (by simp)

theorem ofLong_eq_error_iff (word : BitVec 32) (error : DecodeError) :
    ofLong word = .error error ↔
      Encoding.longOpcode? word = none ∧ error = .noMatchingEncoding := by
  have reads := Published.reads_long (Published.split_lt word.toNat 22 6)
    (Published.split_lt word.toNat 19 3) (Published.split_lt word.toNat 16 0)
    (Published.bits_lt word.toNat 28 25)
  rw [ofLong]
  cases found : Encoding.longOpcode? word with
  | none => simp [eq_comm]
  | some opcode =>
      rw [Published.ofLong_eq_fields]
      exact iff_of_false (ofFields_ne_error reads opcode error) (by simp)

theorem shortOpcode?_ne_none_of_ofShort {word : Word} (shortEq : ofShort word = .ok instruction) :
    Encoding.shortOpcode? word ≠ none := by
  intro unlisted
  cases shortEq.symm.trans ((ofShort_eq_error_iff word _).mpr ⟨unlisted, rfl⟩)

theorem longOpcode?_ne_none_of_ofLong {word : BitVec 32}
    (longEq : ofLong word = .ok instruction) : Encoding.longOpcode? word ≠ none := by
  intro unlisted
  cases longEq.symm.trans ((ofLong_eq_error_iff word _).mpr ⟨unlisted, rfl⟩)

/-- Where the first word is not listed, the first four bytes decide. -/
theorem decode_long_eq_error_iff {first second : Byte}
    (unlisted : Encoding.shortOpcode? (Word.ofBytes first second) = none) (third fourth : Byte)
    (rest : List Byte) (address : Nat) (failure : DecodeFailure) :
    decode (first :: second :: third :: fourth :: rest) address = .error failure ↔
      failure = ⟨.noMatchingEncoding, 2, address⟩ ∧
        Encoding.longOpcode? (Word.ofBytes third fourth ++ Word.ofBytes first second) = none := by
  have shortEq := (ofShort_eq_error_iff _ _).mpr ⟨unlisted, rfl⟩
  cases longEq : ofLong (Word.ofBytes third fourth ++ Word.ofBytes first second) with
  | ok found =>
      rw [(decode_of_long shortEq rest address found).mpr longEq]
      simp [longOpcode?_ne_none_of_ofLong longEq]
  | error error =>
      obtain ⟨longUnlisted, rfl⟩ := (ofLong_eq_error_iff _ error).mp longEq
      simp [decode, shortEq, longEq, longUnlisted, eq_comm]

/-- The first word of some bytes; bytes that are not there count as zero. -/
def lowWord (bytes : List Byte) : Word :=
  Word.ofBytes (bytes.getD 0 0) (bytes.getD 1 0)

/-- The first four of some bytes as one word. -/
def wholeWord (bytes : List Byte) : BitVec 32 :=
  Word.ofBytes (bytes.getD 2 0) (bytes.getD 3 0) ++ lowWord bytes

/-- A row of the short table accepts the first word. -/
def ListedShort (bytes : List Byte) : Prop :=
  ∃ row ∈ Encoding.shortTable, row.pattern.accepts ((lowWord bytes).setWidth 32) = true

/-- A row of the long table accepts the first four bytes. -/
def ListedLong (bytes : List Byte) : Prop :=
  ∃ row ∈ Encoding.longTable, row.pattern.accepts (wholeWord bytes) = true

theorem listedShort_iff (bytes : List Byte) :
    ListedShort bytes ↔ Encoding.shortOpcode? (lowWord bytes) ≠ none := by
  rw [ne_eq, Encoding.shortOpcode?, Encoding.lookup?_eq_none_iff]
  simp [ListedShort]

theorem listedLong_iff (bytes : List Byte) :
    ListedLong bytes ↔ Encoding.longOpcode? (wholeWord bytes) ≠ none := by
  rw [ne_eq, Encoding.longOpcode?, Encoding.lookup?_eq_none_iff]
  simp [ListedLong]

/-- The two ways in which bytes fail to decode. -/
theorem decode_eq_error_iff (bytes : List Byte) (address : Nat) (failure : DecodeFailure) :
    decode bytes address = .error failure ↔
      (failure = ⟨.truncated, 0, address⟩ ∧
        (bytes.length < 2 ∨ bytes.length < 4 ∧ ¬ ListedShort bytes)) ∨
      (failure = ⟨.noMatchingEncoding, 2, address⟩ ∧
        4 ≤ bytes.length ∧ ¬ ListedShort bytes ∧ ¬ ListedLong bytes) := by
  rw [listedShort_iff, listedLong_iff, not_not, not_not]
  match bytes with
  | [] | [_] => simp [decode, eq_comm]
  | first :: second :: rest =>
      have lowEq : lowWord (first :: second :: rest) = Word.ofBytes first second := rfl
      rw [lowEq]
      cases shortEq : ofShort (Word.ofBytes first second) with
      | ok found =>
          rw [decode_of_short shortEq]
          simp [shortOpcode?_ne_none_of_ofShort shortEq]
      | error error =>
          obtain ⟨unlisted, rfl⟩ := (ofShort_eq_error_iff _ error).mp shortEq
          rcases rest with _ | ⟨third, _ | ⟨fourth, rest⟩⟩
          · simp [decode, shortEq, unlisted, eq_comm]
          · simp [decode, shortEq, unlisted, eq_comm]
          · have enough : 4 ≤ (first :: second :: third :: fourth :: rest).length := by simp
            have wholeEq : wholeWord (first :: second :: third :: fourth :: rest) =
                Word.ofBytes third fourth ++ Word.ofBytes first second := rfl
            rw [decode_long_eq_error_iff unlisted, wholeEq]
            constructor
            · rintro ⟨failureEq, longUnlisted⟩
              exact .inr ⟨failureEq, enough, unlisted, longUnlisted⟩
            · rintro (⟨_, tooShort⟩ | ⟨failureEq, _, _, longUnlisted⟩)
              · omega
              · exact ⟨failureEq, longUnlisted⟩

theorem error_of_decode {failure : DecodeFailure}
    (failed : decode bytes address = .error failure) :
    failure.error = .truncated ∨ failure.error = .noMatchingEncoding := by
  rcases (decode_eq_error_iff bytes address failure).mp failed with ⟨rfl, _⟩ | ⟨rfl, _⟩
  · exact .inl rfl
  · exact .inr rfl

/-- With four bytes at hand a failure lets the reader skip a word. -/
theorem skip_of_decode {failure : DecodeFailure} (failed : decode bytes address = .error failure)
    (enough : 4 ≤ bytes.length) : failure.skip = 2 := by
  rcases (decode_eq_error_iff bytes address failure).mp failed with ⟨_, tooShort⟩ | ⟨rfl, _⟩
  · omega
  · rfl

/-- Bytes added behind change a result only if it says that bytes are missing. -/
theorem decode_append (bytes behind : List Byte) (address : Nat)
    (complete : decode bytes address ≠ .error ⟨.truncated, 0, address⟩) :
    decode (bytes ++ behind) address = decode bytes address := by
  cases decodeEq : decode bytes address with
  | ok instruction => exact decode_of_prefix decodeEq (List.prefix_append _ _) address
  | error failure =>
      rcases (decode_eq_error_iff bytes address failure).mp decodeEq with
        ⟨rfl, _⟩ | ⟨_, lengthLe, _⟩
      · exact absurd decodeEq complete
      · rw [← decode_take_four (bytes ++ behind), List.take_append_of_le_length lengthLe,
          decode_take_four, decodeEq]

/-- Whether bytes decode and why they do not depends on their number and on the
rows of the tables that accept their words, for every address.  No operand makes
decoding fail, what was found stays when bytes are added behind it, and nothing
looks at more bytes than it has to. -/
theorem decode_failures_are_exact :
    (∀ (bytes : List Byte) (address : Nat),
      decode bytes address = .error ⟨.truncated, 0, address⟩ ↔
        bytes.length < 2 ∨ bytes.length < 4 ∧ ¬ ListedShort bytes) ∧
    (∀ (bytes : List Byte) (address : Nat),
      decode bytes address = .error ⟨.noMatchingEncoding, 2, address⟩ ↔
        4 ≤ bytes.length ∧ ¬ ListedShort bytes ∧ ¬ ListedLong bytes) ∧
    (∀ (bytes : List Byte) (address : Nat) (failure : DecodeFailure),
      decode bytes address = .error failure →
      failure = ⟨.truncated, 0, address⟩ ∨ failure = ⟨.noMatchingEncoding, 2, address⟩) ∧
    (∀ (bytes : List Byte) (address : Nat) (instruction : Instruction),
      decode bytes address = .ok instruction →
      (instruction.size = 2 ∨ instruction.size = 4) ∧ instruction.size ≤ bytes.length) ∧
    (∀ (bytes behind : List Byte) (address : Nat),
      decode bytes address ≠ .error ⟨.truncated, 0, address⟩ →
      decode (bytes ++ behind) address = decode bytes address) ∧
    (∀ (bytes other : List Byte) (address otherAddress : Nat) (instruction : Instruction),
      decode bytes address = .ok instruction →
      other.take instruction.size = bytes.take instruction.size →
      decode other otherAddress = .ok instruction) ∧
    ∀ (bytes other : List Byte) (address : Nat), other.take 4 = bytes.take 4 →
      decode other address = decode bytes address := by
  refine ⟨?_, ?_, ?_, ?_, decode_append, ?_, ?_⟩
  · intro bytes address
    simp [decode_eq_error_iff]
  · intro bytes address
    simp [decode_eq_error_iff]
  · intro bytes address failure failed
    rcases (decode_eq_error_iff bytes address failure).mp failed with
      ⟨failureEq, _⟩ | ⟨failureEq, _⟩
    · exact .inl failureEq
    · exact .inr failureEq
  · intro bytes address instruction decoded
    refine ⟨?_, (begins_of_decode decoded).size_le⟩
    rcases instruction.words_cases with wordsEq | wordsEq
    · exact .inl (by rw [size_eq, wordsEq])
    · exact .inr (by rw [size_eq, wordsEq])
  · intro bytes other address otherAddress instruction decoded takeEq
    exact decode_of_take_size decoded takeEq otherAddress
  · intro bytes other address takeEq
    rw [← decode_take_four other, takeEq, decode_take_four]

/-- A word of the class without instructions, on its own, with a word and with
more behind it; and a long subtraction, alone and with a byte behind it. -/
theorem decode_failures_are_exact_at_reserved_word :
    let reserved : List Byte := [0x00, 0x60, 0x57, 0x96]
    let unlisted : Except DecodeFailure Instruction := .error ⟨.noMatchingEncoding, 2, 6⟩
    let bytes : List Byte := [0x57, 0x96, 0x07, 0x1E]
    let subtract : Instruction := ⟨⟨.long, .aluImmediate .sub, rfl⟩, .aluImmediate .sub 1 2 1023⟩
    decode (reserved.take 2) 6 = .error ⟨.truncated, 0, 6⟩ ∧
    decode reserved 6 = unlisted ∧ decode (reserved ++ [0x07]) 6 = unlisted ∧
    decode (reserved ++ [0x07, 0x1E]) 6 = unlisted ∧
    decode bytes 0 = .ok subtract ∧ subtract.size ≤ bytes.length ∧
    decode (bytes ++ [0xFF]) 8 = .ok subtract := by
  intro reserved unlisted bytes subtract
  obtain ⟨truncatedIff, unlistedIff, _, sizes, stable, enough, four⟩ := decode_failures_are_exact
  have notShort (behind : List Byte) : ¬ ListedShort (0x00 :: 0x60 :: behind) := by
    rw [listedShort_iff, not_not]
    change Encoding.shortOpcode? (Word.ofBytes 0x00 0x60) = none
    decide +kernel
  have notLong : ¬ ListedLong reserved := by
    rw [listedLong_iff, not_not]
    decide +kernel
  have fails : decode reserved 6 = unlisted :=
    (unlistedIff reserved 6).mpr ⟨by decide, notShort _, notLong⟩
  have decoded : decode bytes 0 = .ok subtract := by decide +kernel
  refine ⟨?_, fails, ?_, ?_, decoded, (sizes bytes 0 subtract decoded).2, ?_⟩
  · exact (truncatedIff _ 6).mpr (.inr ⟨by decide, notShort []⟩)
  · exact (stable reserved [0x07] 6 (by rw [fails]; simp [unlisted])).trans fails
  · exact (four reserved (reserved ++ [0x07, 0x1E]) 6 rfl).trans fails
  · exact enough bytes (bytes ++ [0xFF]) 0 8 subtract decoded rfl

end Instruction

end Aap
