import Aap.Proofs.Format.Field

/-!
# Lookup in the encoding tables

No word is accepted by two rows, not even by rows of different tables, so the
first row that accepts a word is the only one and the order of a table does not
matter.  A word is looked up as an opcode exactly if it has the opcode's values
in the opcode's fixed fields, and every opcode has such words.
-/

namespace Aap

namespace Pattern

theorem overlaps_of_accepts {left right : Pattern} {word : BitVec 32}
    (leftAccepts : left.accepts word = true) (rightAccepts : right.accepts word = true) :
    left.overlaps right = true := by
  rw [accepts, beq_iff_eq] at leftAccepts rightAccepts
  rw [overlaps, beq_iff_eq, ← leftAccepts, ← rightAccepts]
  ext
  simp
  grind

theorem overlaps_comm (left right : Pattern) : left.overlaps right = right.overlaps left := by
  rw [overlaps, overlaps, BitVec.xor_comm, BitVec.and_comm left.mask]

theorem accepts_bits_ofFields {fixed : List (Field × Nat)} (separate : Separate fixed) :
    (ofFields fixed).accepts (ofFields fixed).bits = true := by
  rw [accepts, separate.bits_and_mask, beq_iff_eq]

end Pattern

namespace Opcode

instance (fixed : List (Field × Nat)) : Decidable (Pattern.Separate fixed) :=
  decidable_of_iff
    ((∀ entry ∈ fixed, entry.1.Inside) ∧ (∀ entry ∈ fixed, entry.2 < 2 ^ entry.1.width) ∧
      fixed.Pairwise fun left right => left.1.mask &&& right.1.mask = 0)
    ⟨fun ⟨inside, valueLt, disjoint⟩ => ⟨inside, valueLt, disjoint⟩,
      fun ⟨inside, valueLt, disjoint⟩ => ⟨inside, valueLt, disjoint⟩⟩

theorem separate_fixedFields (opcode : Opcode) : Pattern.Separate opcode.fixedFields := by
  have allSeparate : ∀ opcode ∈ all, Pattern.Separate opcode.fixedFields := by decide +kernel
  exact allSeparate opcode opcode.mem_all

end Opcode

namespace Encoding

/-- Rows of which no two accept a common word. -/
def Exclusive (rows : List Encoding) : Prop :=
  rows.Pairwise fun left right => left.pattern.overlaps right.pattern = false

/-- The length bit keeps the rows of the two tables apart, the other fixed fields
those of one table. -/
theorem exclusive_tables : Exclusive (shortTable ++ longTable) := by
  unfold Exclusive
  decide +kernel

theorem exclusive_rowsOf (form : Form) : Exclusive (rowsOf form) := by
  obtain ⟨short, long, _⟩ := List.pairwise_append.mp exclusive_tables
  cases form with
  | short => exact short
  | long => exact long

theorem eq_of_accepts {rows : List Encoding} (exclusive : Exclusive rows) {word : BitVec 32}
    {left right : Encoding} (leftMem : left ∈ rows) (rightMem : right ∈ rows)
    (leftAccepts : left.pattern.accepts word = true)
    (rightAccepts : right.pattern.accepts word = true) : left = right := by
  induction rows with
  | nil => cases leftMem
  | cons row rows induction =>
      obtain ⟨apart, rest⟩ := List.pairwise_cons.mp exclusive
      have alone (other : Encoding) (member : other ∈ rows)
          (rowAccepts : row.pattern.accepts word = true)
          (otherAccepts : other.pattern.accepts word = true) : False := by
        have overlap := Pattern.overlaps_of_accepts rowAccepts otherAccepts
        rw [apart other member] at overlap
        cases overlap
      rcases List.mem_cons.mp leftMem with rfl | leftTail
      · rcases List.mem_cons.mp rightMem with rfl | rightTail
        · rfl
        · exact (alone right rightTail leftAccepts rightAccepts).elim
      · rcases List.mem_cons.mp rightMem with rfl | rightTail
        · exact (alone left leftTail rightAccepts leftAccepts).elim
        · exact induction rest leftTail rightTail

theorem lookup?_eq_none_iff (rows : List Encoding) (word : BitVec 32) :
    lookup? rows word = none ↔ ∀ row ∈ rows, row.pattern.accepts word = false := by
  simp [lookup?, List.find?_eq_none]

/-- The first accepting row is the only one. -/
theorem find?_eq_some_iff {rows : List Encoding} (exclusive : Exclusive rows)
    (word : BitVec 32) (row : Encoding) :
    (rows.find? fun row => row.pattern.accepts word) = some row ↔
      row ∈ rows ∧ row.pattern.accepts word = true := by
  constructor
  · intro found
    have accepts := List.find?_some found
    exact ⟨List.mem_of_find?_eq_some found, accepts⟩
  · rintro ⟨member, accepts⟩
    cases found : rows.find? fun row => row.pattern.accepts word with
    | none =>
        rw [List.find?_eq_none] at found
        exact (found row member accepts).elim
    | some first =>
        have firstAccepts := List.find?_some found
        rw [eq_of_accepts exclusive (List.mem_of_find?_eq_some found) member firstAccepts accepts]

theorem lookup?_eq_some_iff {rows : List Encoding} (exclusive : Exclusive rows)
    (word : BitVec 32) (opcode : Opcode) :
    lookup? rows word = some opcode ↔
      ∃ row ∈ rows, row.pattern.accepts word = true ∧ row.opcode = opcode := by
  simp only [lookup?, Option.map_eq_some_iff, find?_eq_some_iff exclusive, and_assoc]

theorem lookup?_rowsOf_eq_some_iff (form : Form) (word : BitVec 32) (opcode : Opcode) :
    lookup? (rowsOf form) word = some opcode ↔
      opcode.form = form ∧ ∀ entry ∈ opcode.fixedFields, entry.1.read word = entry.2 := by
  rw [lookup?_eq_some_iff (exclusive_rowsOf form), ← Opcode.mem_ofForm,
    ← Pattern.accepts_ofFields_iff opcode.separate_fixedFields]
  constructor
  · rintro ⟨row, member, accepts, rfl⟩
    obtain ⟨opcode, opcodeMem, rfl⟩ := List.mem_map.mp member
    exact ⟨opcodeMem, accepts⟩
  · rintro ⟨opcodeMem, accepts⟩
    exact ⟨⟨opcode, opcode.pattern⟩, List.mem_map.mpr ⟨opcode, opcodeMem, rfl⟩, accepts, rfl⟩

theorem Exclusive.perm {rows other : List Encoding} (exclusive : Exclusive rows)
    (perm : other.Perm rows) : Exclusive other := by
  refine (perm.pairwise_iff ?_).mpr exclusive
  intro left right apart
  rwa [Pattern.overlaps_comm]

theorem find?_perm {rows other : List Encoding} (exclusive : Exclusive rows)
    (perm : other.Perm rows) (word : BitVec 32) :
    (other.find? fun row => row.pattern.accepts word) =
      rows.find? fun row => row.pattern.accepts word := by
  apply Option.ext
  intro row
  rw [find?_eq_some_iff (exclusive.perm perm), find?_eq_some_iff exclusive, perm.mem_iff]

/-- In a table without common words, the order of the rows does not matter. -/
theorem lookup?_perm {rows other : List Encoding} (exclusive : Exclusive rows)
    (perm : other.Perm rows) (word : BitVec 32) : lookup? other word = lookup? rows word := by
  rw [lookup?, find?_perm exclusive perm, lookup?]

theorem length_filter_accepts_le_one {rows : List Encoding} (exclusive : Exclusive rows)
    (word : BitVec 32) : (rows.filter fun row => row.pattern.accepts word).length ≤ 1 := by
  have apart := exclusive.sublist (List.filter_sublist (p := fun row => row.pattern.accepts word))
  have accepts (row : Encoding) (member : row ∈ rows.filter fun row => row.pattern.accepts word) :
      row.pattern.accepts word = true :=
    (List.mem_filter.mp member).2
  match accepting : rows.filter fun row => row.pattern.accepts word with
  | [] | [_] => simp [accepting]
  | first :: second :: _ =>
      rw [accepting] at apart accepts
      have overlap := Pattern.overlaps_of_accepts (accepts first (by simp))
        (accepts second (by simp))
      rw [(List.pairwise_cons.mp apart).1 second (by simp)] at overlap
      cases overlap

theorem setWidth_setWidth_eq_and (word : BitVec 32) :
    (word.setWidth 16).setWidth 32 = word &&& 0xFFFF := by
  apply BitVec.eq_of_toNat_eq
  rw [BitVec.toNat_setWidth, BitVec.toNat_setWidth, BitVec.toNat_and]
  have maskEq := Nat.and_two_pow_sub_one_eq_mod word.toNat 16
  change _ = word.toNat &&& (2 ^ 16 - 1)
  omega

/-- A short row looks at the low half of a word only. -/
theorem accepts_low_half {row : Encoding} (member : row ∈ shortTable) (word : BitVec 32) :
    row.pattern.accepts ((word.setWidth 16).setWidth 32) = row.pattern.accepts word := by
  have masks : ∀ row ∈ shortTable, 0xFFFF &&& row.pattern.mask = row.pattern.mask := by
    decide +kernel
  rw [Pattern.accepts, Pattern.accepts, setWidth_setWidth_eq_and, BitVec.and_assoc,
    masks row member]

/-- The rows of both tables that accept a word, where a short row is asked about
its low half. -/
def acceptingRows (word : BitVec 32) : List Encoding :=
  (shortTable.filter fun row => row.pattern.accepts ((word.setWidth 16).setWidth 32)) ++
    longTable.filter fun row => row.pattern.accepts word

theorem acceptingRows_eq_filter (word : BitVec 32) :
    acceptingRows word =
      (shortTable ++ longTable).filter fun row => row.pattern.accepts word := by
  rw [acceptingRows, List.filter_append]
  congr 1
  apply List.filter_congr
  intro row member
  exact accepts_low_half member word

theorem shortOpcode?_eq_none_of_longOpcode? {word : BitVec 32} (found : longOpcode? word ≠ none) :
    shortOpcode? (word.setWidth 16) = none := by
  obtain ⟨long, longEq⟩ := Option.ne_none_iff_exists'.mp found
  obtain ⟨row, member, accepts, _⟩ :=
    (lookup?_eq_some_iff (exclusive_rowsOf .long) word long).mp longEq
  rw [shortOpcode?, lookup?_eq_none_iff]
  intro other otherMember
  by_contra otherAccepts
  rw [Bool.not_eq_false, accepts_low_half otherMember] at otherAccepts
  have overlap := Pattern.overlaps_of_accepts otherAccepts accepts
  rw [(List.pairwise_append.mp exclusive_tables).2.2 other otherMember row member] at overlap
  cases overlap

/-- Every opcode is looked up for the word that has nothing but its fixed fields. -/
theorem exists_word (opcode : Opcode) :
    (∃ word, shortOpcode? word = some opcode) ∨ ∃ word, longOpcode? word = some opcode := by
  have accepts : opcode.pattern.accepts opcode.pattern.bits = true :=
    Pattern.accepts_bits_ofFields opcode.separate_fixedFields
  have member : ⟨opcode, opcode.pattern⟩ ∈ rowsOf opcode.form :=
    List.mem_map.mpr ⟨opcode, (opcode.mem_ofForm opcode.form).mpr rfl, rfl⟩
  cases formEq : opcode.form with
  | short =>
      rw [formEq] at member
      refine .inl ⟨opcode.pattern.bits.setWidth 16, ?_⟩
      rw [← accepts_low_half member] at accepts
      exact (lookup?_eq_some_iff (exclusive_rowsOf .short) _ _).mpr
        ⟨⟨opcode, opcode.pattern⟩, member, accepts, rfl⟩
  | long =>
      rw [formEq] at member
      refine .inr ⟨opcode.pattern.bits, ?_⟩
      exact (lookup?_eq_some_iff (exclusive_rowsOf .long) _ _).mpr
        ⟨⟨opcode, opcode.pattern⟩, member, accepts, rfl⟩

/-- No word belongs to two rows of the tables, so neither the order of the rows
nor that short words are tried first decides anything, and every opcode can be
encoded in its size. -/
theorem lookup_is_unambiguous :
    (∀ word : BitVec 32, (acceptingRows word).length ≤ 1) ∧
    (∀ rows : List Encoding, rows.Perm shortTable →
      ∀ word : Word, lookup? rows (word.setWidth 32) = shortOpcode? word) ∧
    (∀ rows : List Encoding, rows.Perm longTable →
      ∀ word : BitVec 32, lookup? rows word = longOpcode? word) ∧
    (∀ word : BitVec 32, longOpcode? word ≠ none → shortOpcode? (word.setWidth 16) = none) ∧
    (∀ (word : Word) (opcode : Opcode), shortOpcode? word = some opcode → opcode.size = 2) ∧
    (∀ (word : BitVec 32) (opcode : Opcode), longOpcode? word = some opcode →
      opcode.size = 4) ∧
    ∀ opcode : Opcode,
      (∃ word, shortOpcode? word = some opcode) ∨ ∃ word, longOpcode? word = some opcode := by
  refine ⟨?_, ?_, ?_, ?_, ?_, ?_, exists_word⟩
  · intro word
    rw [acceptingRows_eq_filter]
    exact length_filter_accepts_le_one exclusive_tables word
  · intro rows perm word
    exact lookup?_perm (exclusive_rowsOf .short) perm (word.setWidth 32)
  · intro rows perm word
    exact lookup?_perm (exclusive_rowsOf .long) perm word
  · intro word found
    exact shortOpcode?_eq_none_of_longOpcode? found
  · intro word opcode found
    have formEq := ((lookup?_rowsOf_eq_some_iff .short _ opcode).mp found).1
    rw [Opcode.size, formEq]
    rfl
  · intro word opcode found
    have formEq := ((lookup?_rowsOf_eq_some_iff .long _ opcode).mp found).1
    rw [Opcode.size, formEq]
    rfl

/-- An addition with the flag, and the plain addition that begins its low half
if the length bit is left out, looked up in reversed tables. -/
theorem lookup_is_unambiguous_at_addition :
    let short : Opcode := ⟨.short, .alu .add, rfl⟩
    let long : Opcode := ⟨.long, .alu .addWithCarry, rfl⟩
    lookup? shortTable.reverse ((0x0253 : Word).setWidth 32) = some short ∧ short.size = 2 ∧
    lookup? longTable.reverse 0x02008253 = some long ∧ long.size = 4 ∧
    shortOpcode? ((0x02008253 : BitVec 32).setWidth 16) = none := by
  intro short long
  obtain ⟨_, shortPerm, longPerm, hidden, shortSize, longSize, _⟩ := lookup_is_unambiguous
  have shortEq : shortOpcode? 0x0253 = some short := by decide +kernel
  have longEq : longOpcode? 0x02008253 = some long := by decide +kernel
  refine ⟨?_, shortSize _ _ shortEq, ?_, longSize _ _ longEq, hidden _ (by rw [longEq]; simp)⟩
  · rw [shortPerm _ (List.reverse_perm shortTable), shortEq]
  · rw [longPerm _ (List.reverse_perm longTable), longEq]

end Encoding

end Aap
