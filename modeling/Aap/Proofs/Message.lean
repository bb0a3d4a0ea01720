import Aap.CommandLine.Session
import Aap.Proofs.Arguments
import Mathlib.Tactic.SplitIfs

/-!
# Messages as bytes

A message is put together from fixed words, names that it passes on, and numbers.
This module says which bytes such a message is, by the ranges of character codes
and the digits of the numbers, and reads the messages of sessions that way.
-/

namespace Aap

namespace Text

/-- A byte behind the first of a character: six bits of its code. -/
def laterByte (bits : Nat) : Byte :=
  BitVec.ofNat 8 (0b10000000 + bits % 2 ^ 6)

/-- The bytes of a character, as few as hold its code; the first tells how many there
are. -/
def characterBytes (character : Char) : List Byte :=
  let code := character.toNat
  if code < 2 ^ 7 then [BitVec.ofNat 8 code]
  else if code < 2 ^ 11 then [BitVec.ofNat 8 (0b11000000 + code / 2 ^ 6), laterByte code]
  else if code < 2 ^ 16 then
    [BitVec.ofNat 8 (0b11100000 + code / 2 ^ 12), laterByte (code / 2 ^ 6), laterByte code]
  else
    [BitVec.ofNat 8 (0b11110000 + code / 2 ^ 18), laterByte (code / 2 ^ 12),
      laterByte (code / 2 ^ 6), laterByte code]

def textBytes (characters : List Char) : List Byte :=
  characters.flatMap characterBytes

theorem code_lt (character : Char) : character.toNat < 2 ^ 21 := by
  rcases character.valid with below | above
  · change character.toNat < 0xD800 at below
    omega
  · have upper : character.toNat < 0x110000 := above.2
    omega

theorem characterBytes_eq (character : Char) :
    (String.utf8EncodeChar character).map UInt8.toBitVec = characterBytes character := by
  have codeLt := code_lt character
  have codeEq : character.val.toNat = character.toNat := rfl
  rw [String.utf8EncodeChar, characterBytes, codeEq]
  generalize character.toNat = code at codeLt
  simp only [laterByte]
  by_cases one : code < 2 ^ 7
  · rw [if_pos (by omega), if_pos one]
    simp only [List.map_cons, List.map_nil, UInt8.toBitVec_ofNat']
  · rw [if_neg (by omega), if_neg one]
    by_cases two : code < 2 ^ 11
    · have highEq : code / 64 % 32 + 192 = 0b11000000 + code / 2 ^ 6 := by omega
      rw [if_pos (by omega), if_pos two, highEq]
      simp only [List.map_cons, List.map_nil, UInt8.toBitVec_ofNat', Nat.add_comm, Nat.reducePow]
    · rw [if_neg (by omega), if_neg two]
      by_cases three : code < 2 ^ 16
      · have highEq : code / 4096 % 16 + 224 = 0b11100000 + code / 2 ^ 12 := by omega
        rw [if_pos (by omega), if_pos three, highEq]
        simp only [List.map_cons, List.map_nil, UInt8.toBitVec_ofNat', Nat.add_comm, Nat.reducePow]
      · have highEq : code / 262144 % 8 + 240 = 0b11110000 + code / 2 ^ 18 := by omega
        rw [if_neg (by omega), if_neg three, highEq]
        simp only [List.map_cons, List.map_nil, UInt8.toBitVec_ofNat', Nat.add_comm, Nat.reducePow]

theorem toUtf8_eq (text : String) : toUtf8 text = textBytes text.toList := by
  rw [toUtf8, String.toUTF8, ← String.utf8Encode_toList, List.utf8Encode,
    List.toList_data_toByteArray, List.map_flatMap]
  simp only [characterBytes_eq]
  rfl

example : textBytes ['\u20AC'] = [0xE2, 0x82, 0xAC] := by
  decide

theorem textBytes_append (first second : List Char) :
    textBytes (first ++ second) = textBytes first ++ textBytes second :=
  List.flatMap_append

theorem toUtf8_append (first second : String) :
    toUtf8 (first ++ second) = toUtf8 first ++ toUtf8 second := by
  rw [toUtf8_eq, String.toList_append, textBytes_append, ← toUtf8_eq, ← toUtf8_eq]

theorem toUtf8_join (lines : List String) :
    toUtf8 (String.join lines) = lines.flatMap toUtf8 := by
  induction lines with
  | nil => rw [toUtf8_eq]; rfl
  | cons line lines induction =>
      rw [String.join_cons, toUtf8_append, induction, List.flatMap_cons]

theorem infix_textBytes {part whole : List Char} (stands : part <:+: whole) :
    textBytes part <:+: textBytes whole := by
  obtain ⟨before, behind, rfl⟩ := stands
  rw [textBytes_append, textBytes_append]
  exact List.infix_append _ _ _

theorem newline_ne_ofNat {value : Nat} (valueGe : 2 ^ 7 ≤ value) (valueLt : value < 2 ^ 8) :
    (0x0A : Byte) ≠ BitVec.ofNat 8 value := by
  intro newlineEq
  have valuesEq := congrArg BitVec.toNat newlineEq
  rw [BitVec.toNat_ofNat, Nat.mod_eq_of_lt valueLt] at valuesEq
  change 10 = value at valuesEq
  omega

theorem newline_ne_laterByte (bits : Nat) : 0x0A ≠ laterByte bits :=
  newline_ne_ofNat (by omega) (by omega)

/-- Only the newline itself has the byte of a newline. -/
theorem newline_mem_characterBytes {character : Char}
    (member : 0x0A ∈ characterBytes character) : character = '\n' := by
  have codeLt := code_lt character
  simp only [characterBytes] at member
  split_ifs at member with one two three
  · rw [List.mem_singleton] at member
    have codesEq := congrArg BitVec.toNat member
    rw [BitVec.toNat_ofNat, Nat.mod_eq_of_lt (by omega)] at codesEq
    exact Char.toNat_inj.mp codesEq.symm
  -- All bytes of a longer sequence have their top bit set.
  all_goals
    simp only [List.mem_cons, newline_ne_laterByte, List.not_mem_nil, or_false] at member
    exact absurd member (newline_ne_ofNat (by omega) (by omega))

theorem newline_notMem_textBytes {characters : List Char} (newlineless : '\n' ∉ characters) :
    0x0A ∉ textBytes characters := by
  intro member
  obtain ⟨character, characterMem, byteMem⟩ := List.mem_flatMap.mp member
  rw [newline_mem_characterBytes byteMem] at characterMem
  exact newlineless characterMem

/-- A number as digits of a radix, filled up with zeros to a least count. -/
def numeral (radix least number : Nat) : List Char :=
  let digits := Nat.digits radix number
  (digits ++ List.replicate (least - digits.length) 0).reverse.map Nat.digitChar

section Numeral

variable {radix : Nat} (radixGt : 1 < radix)

include radixGt

theorem toDigits_of_pos {number : Nat} (numberPos : 0 < number) :
    Nat.toDigits radix number = (Nat.digits radix number).reverse.map Nat.digitChar := by
  induction number using Nat.strong_induction_on with
  | _ number induction =>
      rw [Nat.digits_def' radixGt numberPos]
      by_cases small : number < radix
      · rw [Nat.toDigits_of_lt_base small, Nat.mod_eq_of_lt small, Nat.div_eq_of_lt small,
          Nat.digits_zero]
        rfl
      · have radixLe : radix ≤ number := Nat.le_of_not_lt small
        have quotientPos : 0 < number / radix := Nat.div_pos radixLe (by omega)
        rw [Nat.toDigits_of_base_le radixGt radixLe,
          induction (number / radix) (Nat.div_lt_self numberPos radixGt) quotientPos,
          List.reverse_cons, List.map_append]
        rfl

theorem fill_toDigits {least : Nat} (leastPos : 0 < least) (number : Nat) :
    List.replicate (least - (Nat.toDigits radix number).length) '0' ++ Nat.toDigits radix number =
      numeral radix least number := by
  rcases Nat.eq_zero_or_pos number with rfl | numberPos
  · obtain ⟨more, rfl⟩ := Nat.exists_eq_succ_of_ne_zero (Nat.ne_of_gt leastPos)
    simp [numeral, Nat.toDigits_zero, ← List.replicate_succ']
  · rw [toDigits_of_pos radixGt numberPos, numeral]
    simp

theorem newline_notMem_numeral (radixLe : radix ≤ 16) (least number : Nat) :
    '\n' ∉ numeral radix least number := by
  have digitNe : ∀ digit < 16, Nat.digitChar digit ≠ '\n' := by decide
  intro member
  obtain ⟨digit, digitMem, digitEq⟩ := List.mem_map.mp member
  rw [List.mem_reverse, List.mem_append] at digitMem
  rcases digitMem with written | filled
  · have digitLt := Nat.digits_lt_base radixGt written
    exact digitNe digit (by omega) digitEq
  · rw [List.eq_of_mem_replicate filled] at digitEq
    exact digitNe 0 (by decide) digitEq

end Numeral

/-- A part of a message. -/
inductive Piece where
  | words (text : String)
  | decimal (number : Nat)
  | hexadecimal (least number : Nat)

def Piece.characters : Piece → List Char
  | words text => text.toList
  | decimal number => numeral 10 1 number
  | hexadecimal least number => '0' :: 'x' :: numeral 16 least number

def spelled (pieces : List Piece) : List Char :=
  pieces.flatMap Piece.characters

theorem characters_words (text : String) : (Piece.words text).characters = (toString text).toList :=
  rfl

theorem characters_decimal (number : Nat) :
    (Piece.decimal number).characters = (toString number).toList := by
  rw [Piece.characters, ← fill_toDigits (by decide) Nat.one_pos, Nat.toString_eq_ofList_toDigits,
    String.toList_ofList, Nat.sub_eq_zero_of_le Nat.length_toDigits_pos]
  rfl

theorem characters_hexadecimal {least : Nat} (leastPos : 0 < least) (number : Nat) :
    (Piece.hexadecimal least number).characters = (hexadecimal least number).toList := by
  simp [Piece.characters, hexadecimal, fill_toDigits, leastPos]

theorem spelled_nil : spelled [] = [] :=
  rfl

theorem spelled_cons (piece : Piece) (pieces : List Piece) :
    spelled (piece :: pieces) = piece.characters ++ spelled pieces :=
  List.flatMap_cons

/-- Numbers are on one line with what stands around them. -/
theorem newline_notMem_spelled {pieces : List Piece}
    (wordsFree : ∀ text, .words text ∈ pieces → '\n' ∉ text.toList) : '\n' ∉ spelled pieces := by
  intro member
  obtain ⟨piece, pieceMem, characterMem⟩ := List.mem_flatMap.mp member
  cases piece with
  | words text => exact wordsFree text pieceMem characterMem
  | decimal number =>
      exact newline_notMem_numeral (by decide) (by decide) 1 number characterMem
  | hexadecimal least number =>
      have digitsFree := newline_notMem_numeral (by decide) (Nat.le_refl 16) least number
      simp [Piece.characters, digitsFree] at characterMem

/-- The bytes of a line. -/
def lineBytes (pieces : List Piece) : List Byte :=
  textBytes (spelled pieces) ++ [0x0A]

theorem toUtf8_of_line {text : String} {pieces : List Piece}
    (textEq : text.toList = spelled pieces ++ ['\n']) : toUtf8 text = lineBytes pieces := by
  rw [toUtf8_eq, textEq, textBytes_append]
  rfl

end Text

open Text (Piece spelled lineBytes textBytes)

def LoadError.pieces (error : LoadError) : List Piece :=
  let space :=
    match error.space with
    | .code => "Code"
    | .data => "Data"
  [.decimal error.length, .words "-byte section at ", .hexadecimal 1 error.address,
    .words " does not fit in ", .words space, .words " memory"]

theorem LoadError.toList_message (error : LoadError) :
    error.message.toList = spelled error.pieces := by
  have hexadecimal := Text.characters_hexadecimal Nat.one_pos error.address
  unfold message pieces
  cases error.space <;>
    simp only [Text.spelled_cons, Text.spelled_nil, Text.characters_words,
      Text.characters_decimal, hexadecimal, String.toList_append, List.append_assoc,
      List.append_nil] <;> rfl

def Unsupported.pieces (error : Unsupported) : List Piece :=
  [.words "no simulator support for ", .words error.opcode.name, .words " at pc ",
    .hexadecimal 4 error.pc.toNat]

theorem Unsupported.toList_message (error : Unsupported) :
    error.message.toList = spelled error.pieces := by
  have hexadecimal := Text.characters_hexadecimal (by decide : 0 < 4) error.pc.toNat
  unfold message pieces
  simp only [Text.spelled_cons, Text.spelled_nil, Text.characters_words, hexadecimal,
    String.toList_append, List.append_assoc, List.append_nil]

namespace CommandLine

def ArgumentError.pieces : ArgumentError → List Piece
  | .missingValue option => [.words "missing value for ", .words option]
  | .invalidNumber option text =>
      [.words "invalid number for ", .words option, .words ": ", .words text]
  | .outOfRange option value =>
      [.words "value for ", .words option, .words " is out of range: ", .hexadecimal 1 value]
  | .unknownOption text => [.words "unknown option: ", .words text]
  | .severalImages => [.words "multiple code images provided"]
  | .noImage => [.words "missing code image path"]

theorem ArgumentError.toList_message (error : ArgumentError) :
    error.message.toList = spelled error.pieces := by
  have hexadecimal := Text.characters_hexadecimal Nat.one_pos
  unfold message pieces
  cases error <;>
    simp only [Text.spelled_cons, Text.spelled_nil, Text.characters_words, hexadecimal,
      String.toList_append, List.append_assoc, List.append_nil] <;> rfl

def FileError.pieces : FileError → List Piece
  | .notFound => [.words "No such file or directory (os error 2)"]
  | .accessDenied => [.words "Permission denied (os error 13)"]
  | .notDirectory => [.words "Not a directory (os error 20)"]
  | .isDirectory => [.words "Is a directory (os error 21)"]
  | .nameTooLong => [.words "File name too long (os error 36)"]
  | .other text => [.words text]

theorem FileError.toList_message (error : FileError) :
    error.message.toList = spelled error.pieces := by
  cases error <;> exact (List.append_nil _).symm

def StartError.pieces : StartError → List Piece
  | .unreadable path error =>
      [.words "failed to read ", .words path, .words ": "] ++ error.pieces
  | .codeImage error => .words "code image: " :: error.pieces
  | .dataImage error => .words "data image: " :: error.pieces

theorem StartError.toList_message (error : StartError) :
    error.message.toList = spelled error.pieces := by
  unfold message pieces
  cases error <;>
    simp only [Text.spelled_cons, Text.characters_words, List.cons_append, List.nil_append,
      String.toList_append, List.append_assoc, ← FileError.toList_message,
      ← LoadError.toList_message] <;> rfl

/-- The bytes of the line that names a fault. -/
def errorBytes (pieces : List Piece) : List Byte :=
  lineBytes (.words "error: " :: pieces)

theorem toUtf8_error {message : String} {pieces : List Piece}
    (messageEq : message.toList = spelled pieces) :
    Text.toUtf8 s!"error: {message}\n" = errorBytes pieces := by
  apply Text.toUtf8_of_line
  rw [Text.spelled_cons, ← messageEq]
  simp only [Text.characters_words, String.toList_append]
  rfl

/-- The help text, as it is shown. -/
def helpBytes : List Byte :=
  Text.toUtf8 (usage ++ "\n")

theorem infix_intercalate {Item : Type} {separator line : List Item} {lines : List (List Item)}
    (member : line ∈ lines) : line <:+: separator.intercalate lines := by
  induction lines with
  | nil => cases member
  | cons first rest induction =>
      cases rest with
      | nil =>
          have lineEq : line = separator.intercalate [first] := by
            rw [List.mem_singleton.mp member, List.intercalate_singleton]
          exact lineEq ▸ List.infix_rfl
      | cons second rest =>
          rw [List.intercalate_cons_cons]
          rcases List.mem_cons.mp member with rfl | later
          · rw [List.append_assoc]
            exact (List.prefix_append _ _).isInfix
          · exact (induction later).trans (List.suffix_append _ _).isInfix

/-- The help text names every option, behind the indentation of a line or behind a
shorter spelling. -/
theorem infix_helpBytes : ∀ name ∈ optionNames, textBytes name.toList <:+: helpBytes := by
  have named : ∀ name ∈ optionNames, ∃ line ∈ usageLines, ∃ skipped ∈ [2, 6],
      name.toList <+: line.toList.drop skipped := by
    decide +kernel
  intro name nameMem
  obtain ⟨line, lineMem, skipped, -, begins⟩ := named name nameMem
  have inLine : name.toList <:+: line.toList :=
    begins.isInfix.trans (List.drop_suffix skipped _).isInfix
  have inUsage : line.toList <:+: usage.toList := by
    rw [usage, String.toList_intercalate]
    exact infix_intercalate (List.mem_map_of_mem lineMem)
  rw [helpBytes, Text.toUtf8_eq, String.toList_append]
  exact Text.infix_textBytes
    ((inLine.trans inUsage).trans (List.prefix_append usage.toList _).isInfix)

/-- What the last line of a session says of its run. -/
def reportPieces (machine : Machine) (outcome : RunOutcome) : List Piece :=
  let pc := .hexadecimal 4 machine.processor.pc.toNat
  let steps := .decimal outcome.steps
  let stopped (why : String) : List Piece :=
    [.words "aap-run: ", .words why, .words " at pc ", pc, .words " after ", steps,
      .words " steps"]
  match outcome.status with
  | .ok =>
      [.words "aap-run: step budget exhausted after ", steps, .words " steps at pc ", pc]
  | .quit =>
      [.words "aap-run: quit with exit code ",
        .hexadecimal 4 machine.processor.exitCode.toNat, .words " after ", steps,
        .words " steps"]
  | .breakpoint => stopped "breakpoint"
  | .trap => stopped "trap"
  | .invalidInstruction => stopped "invalid instruction"

section Report

variable (machine : Machine) (outcome : RunOutcome)

theorem toList_report :
    (report machine outcome).toList = spelled (reportPieces machine outcome) ++ ['\n'] := by
  have hexadecimal := Text.characters_hexadecimal (by decide : 0 < 4)
  unfold report reportPieces
  cases outcome.status <;>
    simp only [Text.spelled_cons, Text.spelled_nil, Text.characters_words,
      Text.characters_decimal, hexadecimal, String.toList_append, List.append_assoc,
      List.append_nil] <;> rfl

theorem newline_notMem_report : '\n' ∉ spelled (reportPieces machine outcome) := by
  apply Text.newline_notMem_spelled
  obtain ⟨steps, status⟩ := outcome
  cases status <;> simp [reportPieces]

end Report

end CommandLine

end Aap
