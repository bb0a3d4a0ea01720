import Aap.CommandLine.Arguments
import Aap.Text.Hexadecimal
import Mathlib.Data.List.Forall2
import Mathlib.Data.Nat.Digits.Defs

/-!
# Numbers as they are written

A text writes a number as digits of radix ten, or of radix sixteen behind `0x` or
`0X`, in both cases behind at most one plus sign.  A number is read from exactly
the texts that write one below `2 ^ 64`, and it is the number written there,
whatever zeros lead it.  An option takes it below a limit of its own.
-/

namespace Aap.CommandLine

/-- The digits of the radixes up to sixteen, each at the place of its value. -/
def smallDigits : List Char :=
  "0123456789abcdef".toList

def capitalDigits : List Char :=
  "0123456789ABCDEF".toList

/-- A character is the digit of a value in a radix; letters may be of either case. -/
def IsDigit (radix : Nat) (character : Char) (value : Nat) : Prop :=
  value < radix ∧ (smallDigits[value]? = some character ∨ capitalDigits[value]? = some character)

/-- The digits that follow each other as characters do stand in this order. -/
theorem getElem?_of_between {digits : List Char} (start : Nat) {first last character : Char}
    (listed : ∀ distance ≤ last.toNat - first.toNat,
      digits[distance + start]? = some (Char.ofNat (distance + first.toNat)))
    (between : first ≤ character ∧ character ≤ last) :
    digits[character.toNat - first.toNat + start]? = some character := by
  have firstLe : first.toNat ≤ character.toNat := UInt32.le_iff_toNat_le.mp between.1
  have leLast : character.toNat ≤ last.toNat := UInt32.le_iff_toNat_le.mp between.2
  rw [listed _ (by omega), Nat.sub_add_cancel firstLe, Char.ofNat_toNat]

theorem hexDigit?_eq_some_iff (character : Char) (value : Nat) :
    hexDigit? character = some value ↔
      smallDigits[value]? = some character ∨ capitalDigits[value]? = some character := by
  constructor
  · intro found
    unfold hexDigit? at found
    split at found
    · next decimal =>
        obtain rfl := Option.some.inj found
        exact .inl (getElem?_of_between 0 (by decide) decimal)
    · split at found
      · next small =>
          obtain rfl := Option.some.inj found
          exact .inl (getElem?_of_between 10 (by decide) small)
      · split at found
        · next capital =>
            obtain rfl := Option.some.inj found
            exact .inr (getElem?_of_between 10 (by decide) capital)
        · cases found
  · have read : ∀ value < 16, ∀ digits ∈ [smallDigits, capitalDigits],
        digits[value]?.bind hexDigit? = some value := by decide
    rintro (written | written)
    · obtain ⟨valueLt, _⟩ := List.getElem?_eq_some_iff.mp written
      rw [← read value valueLt smallDigits (by simp), written, Option.bind_some]
    · obtain ⟨valueLt, _⟩ := List.getElem?_eq_some_iff.mp written
      rw [← read value valueLt capitalDigits (by simp), written, Option.bind_some]

theorem digit?_eq_some_iff (radix : Nat) (character : Char) (value : Nat) :
    digit? radix character = some value ↔ IsDigit radix character value := by
  rw [digit?, Option.filter_eq_some_iff, hexDigit?_eq_some_iff, decide_eq_true_iff, IsDigit,
    and_comm]

theorem IsDigit.ne {radix value : Nat} {character other : Char}
    (isDigit : IsDigit radix character value) (notDigit : digit? radix other = none) :
    character ≠ other := by
  rintro rfl
  rw [(digit?_eq_some_iff radix character value).mpr isDigit] at notDigit
  cases notDigit

/-- Digits of a radix, the most significant first, and the number that they make. -/
def Denotes (radix : Nat) (digits : List Char) (number : Nat) : Prop :=
  ∃ values, List.Forall₂ (IsDigit radix) digits values ∧
    number = Nat.ofDigits radix values.reverse

namespace Denotes

variable {radix : Nat}

theorem singleton {character : Char} {value : Nat} (isDigit : IsDigit radix character value) :
    Denotes radix [character] value :=
  ⟨[value], .cons isDigit .nil, Nat.ofDigits_singleton.symm⟩

/-- Digits behind others count less by a power of the radix. -/
theorem append {leading digits : List Char} {upper lower : Nat}
    (leadingDenotes : Denotes radix leading upper) (denotes : Denotes radix digits lower) :
    Denotes radix (leading ++ digits) (radix ^ digits.length * upper + lower) := by
  obtain ⟨leadingValues, leadingDigits, rfl⟩ := leadingDenotes
  obtain ⟨values, isDigits, rfl⟩ := denotes
  refine ⟨leadingValues ++ values, List.rel_append leadingDigits isDigits, ?_⟩
  rw [List.reverse_append, Nat.ofDigits_append, List.length_reverse, isDigits.length_eq,
    Nat.add_comm]

/-- Zeros in front of digits do not change the number. -/
theorem zeros {digits : List Char} {number : Nat} (radixPos : 0 < radix)
    (denotes : Denotes radix digits number) (count : Nat) :
    Denotes radix (List.replicate count '0' ++ digits) number := by
  induction count with
  | zero => exact denotes
  | succ count induction =>
      have zero : IsDigit radix '0' 0 := ⟨radixPos, .inl rfl⟩
      simpa [List.replicate_succ] using (singleton zero).append induction

theorem nil_iff {number : Nat} : Denotes radix [] number ↔ number = 0 := by
  simp [Denotes]

theorem cons_iff {character : Char} {digits : List Char} {number : Nat} :
    Denotes radix (character :: digits) number ↔
      ∃ value lower, IsDigit radix character value ∧ Denotes radix digits lower ∧
        number = radix ^ digits.length * value + lower := by
  constructor
  · rintro ⟨_, _ | ⟨isDigit, isDigits⟩, rfl⟩
    refine ⟨_, _, isDigit, ⟨_, isDigits, rfl⟩, ?_⟩
    rw [List.reverse_cons, Nat.ofDigits_append, Nat.ofDigits_singleton, List.length_reverse,
      isDigits.length_eq, Nat.add_comm]
  · rintro ⟨value, lower, isDigit, denotes, rfl⟩
    exact (singleton isDigit).append denotes

theorem isDigit_of_mem {digits : List Char} {number : Nat} (denotes : Denotes radix digits number)
    {character : Char} (member : character ∈ digits) : ∃ value, IsDigit radix character value := by
  obtain ⟨values, isDigits, -⟩ := denotes
  induction isDigits with
  | nil => cases member
  | cons isDigit _ induction =>
      rcases List.mem_cons.mp member with rfl | later
      · exact ⟨_, isDigit⟩
      · exact induction later

theorem toDigits (radixGt : 1 < radix) (radixLe : radix ≤ 16) (number : Nat) :
    Denotes radix (Nat.toDigits radix number) number := by
  have small (value : Nat) (valueLt : value < radix) :
      Denotes radix (Nat.toDigits radix value) value := by
    have written : ∀ value < 16, smallDigits[value]? = some value.digitChar := by decide
    rw [Nat.toDigits_of_lt_base valueLt]
    exact singleton ⟨valueLt, .inl (written value (by omega))⟩
  induction number using Nat.strong_induction_on with
  | _ number induction =>
      by_cases isSmall : number < radix
      · exact small number isSmall
      · have quotientPos : 0 < number / radix := Nat.div_pos (by omega) (by omega)
        have remainderLt : number % radix < radix := Nat.mod_lt _ (by omega)
        have upper := induction (number / radix) (Nat.div_lt_self (by omega) radixGt)
        have joined := upper.append (small (number % radix) remainderLt)
        have lengthEq : (Nat.toDigits radix (number % radix)).length = 1 := by
          rw [Nat.toDigits_of_lt_base remainderLt, List.length_singleton]
        rwa [Nat.toDigits_append_toDigits radixGt quotientPos remainderLt, lengthEq,
          Nat.pow_one, Nat.div_add_mod] at joined

end Denotes

/-- Behind digits of a number, further digits are read as they are on their own. -/
theorem digits?_eq_some_iff (radix leading : Nat) (characters : List Char) (number : Nat) :
    digits? radix leading characters = some number ↔
      ∃ lower, Denotes radix characters lower ∧
        number = radix ^ characters.length * leading + lower := by
  induction characters generalizing leading with
  | nil => simp [digits?, Denotes.nil_iff, eq_comm]
  | cons character characters induction =>
      rw [digits?, Option.bind_eq_bind, Option.bind_eq_some_iff]
      simp only [induction, digit?_eq_some_iff, Denotes.cons_iff, List.length_cons]
      constructor
      · rintro ⟨value, isDigit, lower, denotes, rfl⟩
        refine ⟨_, ⟨value, lower, isDigit, denotes, rfl⟩, ?_⟩
        ring
      · rintro ⟨_, ⟨value, lower, isDigit, denotes, rfl⟩, rfl⟩
        refine ⟨value, isDigit, lower, denotes, ?_⟩
        ring

def signs : List (List Char) :=
  [[], ['+']]

/-- A number without the mark of its radix: at least one digit, behind a plus sign or
none. -/
def WritesUnsigned (radix : Nat) (characters : List Char) (number : Nat) : Prop :=
  ∃ sign ∈ signs, ∃ digits, characters = sign ++ digits ∧ digits ≠ [] ∧
    Denotes radix digits number

/-- What may stand in front of a number, with the radix of its digits. -/
def marks : List (List Char × Nat) :=
  [([], 10), (['0', 'x'], 16), (['0', 'X'], 16)]

/-- The text writes the number. -/
def Writes (text : String) (number : Nat) : Prop :=
  ∃ mark radix, (mark, radix) ∈ marks ∧
    ∃ characters, text.toList = mark ++ characters ∧ WritesUnsigned radix characters number

section Unsigned

variable {radix : Nat} {characters : List Char} {number : Nat}

theorem unsigned?_plus :
    unsigned? radix ('+' :: characters) = some number ↔
      characters ≠ [] ∧ Denotes radix characters number := by
  cases characters <;> simp [unsigned?, digits?_eq_some_iff]

theorem unsigned?_of_head?_ne (headNe : characters.head? ≠ some '+') :
    unsigned? radix characters = some number ↔
      characters ≠ [] ∧ Denotes radix characters number := by
  cases characters with
  | nil => simp [unsigned?]
  | cons character characters =>
      have characterNe : character ≠ '+' := by simpa using headNe
      simp [unsigned?, digits?_eq_some_iff, characterNe]

theorem unsigned?_eq_some_iff (radix : Nat) (characters : List Char) (number : Nat) :
    unsigned? radix characters = some number ↔ WritesUnsigned radix characters number := by
  constructor
  · intro found
    by_cases headEq : characters.head? = some '+'
    · obtain ⟨rest, rfl⟩ := List.head?_eq_some_iff.mp headEq
      exact ⟨['+'], by simp [signs], rest, rfl, unsigned?_plus.mp found⟩
    · exact ⟨[], by simp [signs], characters, rfl, (unsigned?_of_head?_ne headEq).mp found⟩
  · rintro ⟨sign, signMem, digits, rfl, nonempty, denotes⟩
    rcases List.mem_pair.mp signMem with rfl | rfl
    · refine (unsigned?_of_head?_ne ?_).mpr ⟨nonempty, denotes⟩
      intro headEq
      obtain ⟨value, isDigit⟩ := denotes.isDigit_of_mem (List.mem_of_head? headEq)
      exact isDigit.ne rfl rfl
    · exact unsigned?_plus.mpr ⟨nonempty, denotes⟩

theorem prefixed?_hex {mark : Char} (markMem : mark ∈ ['x', 'X']) :
    prefixed? ('0' :: mark :: characters) = unsigned? 16 characters := by
  rcases List.mem_pair.mp markMem with rfl | rfl <;> rfl

theorem prefixed?_of_not_hex
    (unmarked : ∀ mark ∈ ['x', 'X'], ∀ rest, characters ≠ '0' :: mark :: rest) :
    prefixed? characters = unsigned? 10 characters := by
  unfold prefixed?
  split
  · exact absurd rfl (unmarked 'x' (by simp) _)
  · exact absurd rfl (unmarked 'X' (by simp) _)
  · rfl

end Unsigned

theorem prefixed?_eq_some_iff (text : String) (number : Nat) :
    prefixed? text.toList = some number ↔ Writes text number := by
  constructor
  · intro found
    by_cases marked : ∃ mark ∈ ['x', 'X'], ∃ rest, text.toList = '0' :: mark :: rest
    · obtain ⟨mark, markMem, rest, textEq⟩ := marked
      rw [textEq, prefixed?_hex markMem, unsigned?_eq_some_iff] at found
      refine ⟨['0', mark], 16, ?_, rest, textEq, found⟩
      rcases List.mem_pair.mp markMem with rfl | rfl <;> simp [marks]
    · rw [prefixed?_of_not_hex (by simpa using marked), unsigned?_eq_some_iff] at found
      exact ⟨[], 10, by simp [marks], _, rfl, found⟩
  · rintro ⟨mark, radix, markMem, characters, textEq, written⟩
    rw [textEq]
    simp only [marks, List.mem_cons, Prod.mk.injEq, List.not_mem_nil, or_false] at markMem
    rcases markMem with ⟨rfl, rfl⟩ | ⟨rfl, rfl⟩ | ⟨rfl, rfl⟩
    · rw [List.nil_append, prefixed?_of_not_hex, unsigned?_eq_some_iff]
      · exact written
      · -- The letter of a mark is not a decimal digit.
        rintro mark markMem rest rfl
        obtain ⟨sign, signMem, digits, digitsEq, -, denotes⟩ := written
        rcases List.mem_pair.mp signMem with rfl | rfl
        · have member : mark ∈ digits := by
            rw [← List.nil_append digits, ← digitsEq]
            simp
          obtain ⟨value, isDigit⟩ := denotes.isDigit_of_mem member
          have notDigit : digit? 10 mark = none := by
            rcases List.mem_pair.mp markMem with rfl | rfl <;> rfl
          exact isDigit.ne notDigit rfl
        · cases digitsEq
    · exact (unsigned?_eq_some_iff 16 characters number).mpr written
    · exact (unsigned?_eq_some_iff 16 characters number).mpr written

/-- A text writes one number at most. -/
theorem Writes.unique {text : String} {number other : Nat} (writes : Writes text number)
    (otherWrites : Writes text other) : number = other := by
  rw [← prefixed?_eq_some_iff] at writes otherWrites
  exact Option.some.inj (writes.symm.trans otherWrites)

theorem number?_eq_some_iff (text : String) (number : Nat) :
    number? text = some number ↔ Writes text number ∧ number < 2 ^ 64 := by
  rw [number?, Option.filter_eq_some_iff, prefixed?_eq_some_iff, decide_eq_true_iff,
    Nat.one_shiftLeft]

theorem number?_eq_none_iff (text : String) :
    number? text = none ↔ ∀ number, Writes text number → 2 ^ 64 ≤ number := by
  simp only [Option.eq_none_iff_forall_ne_some, ne_eq, number?_eq_some_iff, not_and, Nat.not_lt]

/-- Whatever writes a number is made of digits, the plus sign and the letters of the
marks. -/
theorem Writes.minus_notMem {text : String} {number : Nat} (writes : Writes text number) :
    '-' ∉ text.toList := by
  obtain ⟨mark, radix, markMem, characters, textEq, sign, signMem, digits, rfl, -, denotes⟩ :=
    writes
  have noMark : ∀ mark ∈ marks, '-' ∉ mark.1 := by decide
  have noSign : ∀ sign ∈ signs, '-' ∉ sign := by decide
  rw [textEq, List.mem_append, List.mem_append]
  rintro (inMark | inSign | inDigits)
  · exact noMark _ markMem inMark
  · exact noSign sign signMem inSign
  · obtain ⟨value, isDigit⟩ := denotes.isDigit_of_mem inDigits
    exact isDigit.ne rfl rfl

section Bounded

variable {text : String} (name : String) (limit : Nat)

theorem boundedNumber_of_none (unreadable : number? text = none) :
    boundedNumber name limit text = .error (.invalidNumber name text) := by
  rw [boundedNumber, unreadable]

theorem boundedNumber_of_some {value : Nat} (found : number? text = some value) :
    boundedNumber name limit text =
      if value < limit then .ok value else .error (.outOfRange name value) := by
  rw [boundedNumber, found]

variable (text)

theorem boundedNumber_eq_ok_iff (number : Nat) :
    boundedNumber name limit text = .ok number ↔
      Writes text number ∧ number < 2 ^ 64 ∧ number < limit := by
  constructor
  · intro returned
    cases found : number? text with
    | none =>
        rw [boundedNumber_of_none name limit found] at returned
        cases returned
    | some value =>
        obtain ⟨writes, valueLt⟩ := (number?_eq_some_iff text value).mp found
        rw [boundedNumber_of_some name limit found] at returned
        split at returned
        · next isBelow =>
            cases returned
            exact ⟨writes, valueLt, isBelow⟩
        · cases returned
  · rintro ⟨writes, numberLt, isBelow⟩
    have found := (number?_eq_some_iff text number).mpr ⟨writes, numberLt⟩
    rw [boundedNumber_of_some name limit found, if_pos isBelow]

theorem boundedNumber_eq_error_iff (error : ArgumentError) :
    boundedNumber name limit text = .error error ↔
      (error = .invalidNumber name text ∧ ∀ number, Writes text number → 2 ^ 64 ≤ number) ∨
      ∃ number, error = .outOfRange name number ∧ Writes text number ∧ number < 2 ^ 64 ∧
        limit ≤ number := by
  constructor
  · intro returned
    cases found : number? text with
    | none =>
        rw [boundedNumber_of_none name limit found] at returned
        cases returned
        exact .inl ⟨rfl, (number?_eq_none_iff text).mp found⟩
    | some value =>
        obtain ⟨writes, valueLt⟩ := (number?_eq_some_iff text value).mp found
        rw [boundedNumber_of_some name limit found] at returned
        split at returned
        · cases returned
        · next notBelow =>
            cases returned
            exact .inr ⟨value, rfl, writes, valueLt, Nat.le_of_not_lt notBelow⟩
  · rintro (⟨rfl, unreadable⟩ | ⟨number, rfl, writes, numberLt, limitLe⟩)
    · exact boundedNumber_of_none name limit ((number?_eq_none_iff text).mpr unreadable)
    · have found := (number?_eq_some_iff text number).mpr ⟨writes, numberLt⟩
      rw [boundedNumber_of_some name limit found, if_neg (Nat.not_lt.mpr limitLe)]

end Bounded

/-- The number of bits that hold the value of an option. -/
def NumberOption.width : NumberOption → Nat
  | codeAddress => 32
  | dataAddress => 32
  | entry => 16
  | maxSteps => 64

theorem NumberOption.read_eq (option : NumberOption) (text : String) :
    option.read text = boundedNumber option.name (2 ^ option.width) text := by
  cases option <;> rfl

theorem Writes.decimal {digits : List Char} {number : Nat} (nonempty : digits ≠ [])
    (denotes : Denotes 10 digits number) : Writes (String.ofList digits) number :=
  ⟨[], 10, by simp [marks], digits, String.toList_ofList, [], by simp [signs], digits, rfl,
    nonempty, denotes⟩

theorem Writes.hexadecimal {digits : List Char} {number : Nat} (nonempty : digits ≠ [])
    (denotes : Denotes 16 digits number) : Writes ("0x" ++ String.ofList digits) number :=
  ⟨['0', 'x'], 16, by simp [marks], digits, by simp, [], by simp [signs], digits, rfl,
    nonempty, denotes⟩

/-- The decimal text of a number writes it. -/
theorem writes_toString (number : Nat) : Writes (toString number) number := by
  have spelling : toString number = String.ofList (Nat.toDigits 10 number) := rfl
  rw [spelling]
  exact .decimal Nat.toDigits_ne_nil (.toDigits (by decide) (by decide) number)

/-- So does the hexadecimal text, filled up with zeros or not. -/
theorem writes_hexadecimal (digits number : Nat) :
    Writes (Text.hexadecimal digits number) number := by
  rw [Text.hexadecimal]
  have denotes := Denotes.toDigits (by decide : 1 < 16) (by decide) number
  exact .hexadecimal (by simp [Nat.toDigits_ne_nil]) (denotes.zeros (by decide) _)

/-- A number is read from exactly the texts that write one below `2 ^ 64`, and is the
number written there; an option takes it below its own limit, and says otherwise
whether the text or the number is wrong. -/
theorem numbers_are_exact :
    (∀ (text : String) (number : Nat),
      number? text = some number ↔ Writes text number ∧ number < 2 ^ 64) ∧
    (∀ (text : String) (number : Nat), Writes text number → 2 ^ 64 ≤ number →
      number? text = none) ∧
    (∀ text ∈ ["", "+", "0x", "0X", "0x+", "0X+"], number? text = none) ∧
    (∀ text : String, '-' ∈ text.toList → number? text = none) ∧
    (∀ (name : String) (width : Nat) (text : String) (number : Nat),
      boundedNumber name (2 ^ width) text = .ok number ↔
        Writes text number ∧ number < 2 ^ 64 ∧ number < 2 ^ width) ∧
    (∀ (name : String) (width : Nat) (text : String) (error : ArgumentError),
      boundedNumber name (2 ^ width) text = .error error ↔
        (error = .invalidNumber name text ∧ ∀ number, Writes text number → 2 ^ 64 ≤ number) ∨
        ∃ number, error = .outOfRange name number ∧ Writes text number ∧ number < 2 ^ 64 ∧
          2 ^ width ≤ number) ∧
    (∀ (option : NumberOption) (text : String),
      option.read text = boundedNumber option.name (2 ^ option.width) text) ∧
    ∀ number < 2 ^ 64, number? (toString number) = some number ∧
      ∀ digits, number? (Text.hexadecimal digits number) = some number := by
  refine ⟨number?_eq_some_iff, ?_, ?_, ?_, ?_, ?_, NumberOption.read_eq, ?_⟩
  · intro text number writes tooLarge
    rw [number?_eq_none_iff]
    intro other otherWrites
    rwa [otherWrites.unique writes]
  · decide
  · intro text hasMinus
    rw [number?_eq_none_iff]
    intro number writes
    exact absurd hasMinus writes.minus_notMem
  · intro name width text number
    exact boundedNumber_eq_ok_iff text name (2 ^ width) number
  · intro name width text error
    exact boundedNumber_eq_error_iff text name (2 ^ width) error
  · intro number numberLt
    refine ⟨(number?_eq_some_iff _ _).mpr ⟨writes_toString number, numberLt⟩, ?_⟩
    intro digits
    exact (number?_eq_some_iff _ _).mpr ⟨writes_hexadecimal digits number, numberLt⟩

/-- A capital letter behind a sign and zeros, the first number that is too large, a text
without digits and one below zero, and a word that is too wide for a program counter. -/
theorem numbers_are_exact_at_limits :
    number? "0X+00fF" = some 255 ∧ number? "18446744073709551616" = none ∧
    number? "0x+" = none ∧ number? "-1" = none ∧
    NumberOption.entry.read "0x10000" = .error (.outOfRange "--entry" 0x10000) ∧
    number? (toString 65536) = some 65536 := by
  obtain ⟨reads, tooLarge, bare, negative, _, fails, options, spelled⟩ := numbers_are_exact
  have capital : Denotes 16 ['0', '0', 'f', 'F'] 255 :=
    ⟨[0, 0, 15, 15], .cons ⟨by decide, .inl rfl⟩ (.cons ⟨by decide, .inl rfl⟩
      (.cons ⟨by decide, .inl rfl⟩ (.cons ⟨by decide, .inr rfl⟩ .nil))), rfl⟩
  have tooLargeEq : toString (2 ^ 64) = "18446744073709551616" := by decide
  have tooWideEq : Text.hexadecimal 1 0x10000 = "0x10000" := by decide
  refine ⟨?_, ?_, bare "0x+" (by decide), negative "-1" (by decide), ?_, (spelled 65536 (by decide)).1⟩
  · exact (reads _ _).mpr ⟨⟨['0', 'X'], 16, by decide, _, rfl, ['+'], by decide, _, rfl, by decide,
      capital⟩, by decide⟩
  · rw [← tooLargeEq]
    exact tooLarge _ _ (writes_toString _) (Nat.le_refl _)
  · rw [options, ← tooWideEq]
    exact (fails _ _ _ _).mpr
      (.inr ⟨0x10000, rfl, writes_hexadecimal 1 0x10000, by decide, by decide⟩)

end Aap.CommandLine
