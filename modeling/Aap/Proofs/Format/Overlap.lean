import Aap.Proofs.Format.Encoding

/-!
# Overlapping patterns

Two patterns that ask for nothing outside their masks overlap exactly if a word
belongs to both: the bits that either asks for make such a word.  Rows of which no
two overlap have at most one row for each word, so that looking for the first row
finds the row that accepts the word, in whatever order the rows stand.
-/

namespace Aap

namespace Pattern

/-- The pattern asks for nothing outside its mask. -/
def Contained (pattern : Pattern) : Prop :=
  pattern.bits &&& ~~~pattern.mask = 0

instance (pattern : Pattern) : Decidable pattern.Contained :=
  inferInstanceAs (Decidable (pattern.bits &&& ~~~pattern.mask = 0))

theorem contained_iff (pattern : Pattern) :
    pattern.Contained ↔ ∀ index, pattern.bits.getLsbD index = true →
      pattern.mask.getLsbD index = true := by
  rw [Contained, BitVec.eq_of_getLsbD_eq_iff]
  simp only [BitVec.getLsbD_and, BitVec.getLsbD_not, BitVec.ofNat_eq_ofNat, BitVec.getLsbD_zero]
  constructor
  · intro outside index asked
    have indexLt := BitVec.lt_of_getLsbD asked
    simpa [asked, indexLt] using outside index indexLt
  · intro inside index indexLt
    cases asked : pattern.bits.getLsbD index with
    | false => rfl
    | true => simp [inside index asked]

theorem accepts_iff (pattern : Pattern) (word : BitVec 32) :
    pattern.accepts word = true ↔ ∀ index < 32,
      (word.getLsbD index && pattern.mask.getLsbD index) = pattern.bits.getLsbD index := by
  rw [accepts, beq_iff_eq, BitVec.eq_of_getLsbD_eq_iff]
  simp only [BitVec.getLsbD_and]

theorem overlaps_iff (left right : Pattern) :
    left.overlaps right = true ↔ ∀ index < 32, left.mask.getLsbD index = true →
      right.mask.getLsbD index = true → left.bits.getLsbD index = right.bits.getLsbD index := by
  rw [overlaps, beq_iff_eq, BitVec.eq_of_getLsbD_eq_iff]
  refine forall₂_congr fun index _ => ?_
  rw [BitVec.getLsbD_and, BitVec.getLsbD_and, BitVec.getLsbD_xor, BitVec.ofNat_eq_ofNat,
    BitVec.getLsbD_zero]
  cases left.mask.getLsbD index <;> cases right.mask.getLsbD index <;> simp

/-- What both patterns ask for makes a word of the first, if they agree where both masks
are set. -/
theorem accepts_or {left right : Pattern} (leftContained : left.Contained)
    (rightContained : right.Contained) (overlaps : left.overlaps right = true) :
    left.accepts (left.bits ||| right.bits) = true := by
  rw [contained_iff] at leftContained rightContained
  rw [overlaps_iff] at overlaps
  rw [accepts_iff]
  intro index indexLt
  rw [BitVec.getLsbD_or]
  cases leftAsked : left.bits.getLsbD index with
  | true => rw [leftContained index leftAsked, Bool.true_or, Bool.true_and]
  | false =>
      cases rightAsked : right.bits.getLsbD index with
      | false => rfl
      | true =>
          -- The other pattern asks for a bit that this one leaves open.
          have leftOpen : left.mask.getLsbD index = false := by
            by_contra leftMasked
            rw [Bool.not_eq_false] at leftMasked
            have agree := overlaps index indexLt leftMasked (rightContained index rightAsked)
            rw [leftAsked, rightAsked] at agree
            cases agree
          rw [leftOpen]
          rfl

theorem overlaps_iff_exists_accepts {left right : Pattern} (leftContained : left.Contained)
    (rightContained : right.Contained) :
    left.overlaps right = true ↔
      ∃ word, left.accepts word = true ∧ right.accepts word = true := by
  constructor
  · intro overlaps
    have overlapsToo : right.overlaps left = true := by rwa [overlaps_comm]
    refine ⟨left.bits ||| right.bits, accepts_or leftContained rightContained overlaps, ?_⟩
    rw [BitVec.or_comm]
    exact accepts_or rightContained leftContained overlapsToo
  · rintro ⟨word, leftAccepts, rightAccepts⟩
    exact overlaps_of_accepts leftAccepts rightAccepts

end Pattern

namespace Opcode

theorem contained_pattern (opcode : Opcode) : opcode.pattern.Contained := by
  have inMask := opcode.separate_fixedFields.bits_and_mask
  rw [Pattern.Contained, pattern, ← inMask, BitVec.and_assoc]
  simp

end Opcode

namespace Encoding

theorem contained_of_mem {row : Encoding} (member : row ∈ shortTable ++ longTable) :
    row.pattern.Contained := by
  rcases List.mem_append.mp member with short | long
  · obtain ⟨opcode, -, rfl⟩ := List.mem_map.mp short
    exact opcode.contained_pattern
  · obtain ⟨opcode, -, rfl⟩ := List.mem_map.mp long
    exact opcode.contained_pattern

/-- The test for overlaps tells exactly whether two rows have a word in common, for the
rows of the tables and for any others that ask for nothing outside their masks.  Where it
finds no two rows of a list, looking for the first row finds a row exactly if it accepts
the word, in every order of the list. -/
theorem overlaps_is_exact :
    (∀ row ∈ shortTable ++ longTable, row.pattern.Contained) ∧
    (∀ left right : Encoding, left.pattern.Contained → right.pattern.Contained →
      (left.pattern.overlaps right.pattern = true ↔
        ∃ word, left.pattern.accepts word = true ∧ right.pattern.accepts word = true)) ∧
    (∀ left right : Encoding,
      left.pattern.overlaps right.pattern = right.pattern.overlaps left.pattern) ∧
    ∀ rows : List Encoding,
      (rows.Pairwise fun left right => left.pattern.overlaps right.pattern = false) →
      ∀ (order : List Encoding), order.Perm rows → ∀ word : BitVec 32,
        (∀ row, (order.find? fun row => row.pattern.accepts word) = some row ↔
          row ∈ rows ∧ row.pattern.accepts word = true) ∧
        (∀ opcode, lookup? order word = some opcode ↔
          ∃ row ∈ rows, row.pattern.accepts word = true ∧ row.opcode = opcode) ∧
        lookup? order word = lookup? rows word := by
  refine ⟨fun row => contained_of_mem, ?_, fun left right => left.pattern.overlaps_comm _, ?_⟩
  · intro left right leftContained rightContained
    exact Pattern.overlaps_iff_exists_accepts leftContained rightContained
  · intro rows exclusive order perm word
    refine ⟨?_, ?_, lookup?_perm exclusive perm word⟩
    · intro row
      rw [find?_perm exclusive perm, find?_eq_some_iff exclusive]
    · intro opcode
      rw [lookup?_perm exclusive perm, lookup?_eq_some_iff exclusive]

/-- A row of the long table; two rows outside the tables that have words in common, and a
third one that is apart from both. -/
theorem overlaps_is_exact_outside_tables :
    let high : Encoding := ⟨⟨.long, .nop, rfl⟩, ⟨0xFF000000, 0x12000000⟩⟩
    let middle : Encoding := ⟨⟨.long, .move, rfl⟩, ⟨0x00FF00F0, 0x00340050⟩⟩
    let other : Encoding := ⟨⟨.long, .jump, rfl⟩, ⟨0xFF0000F0, 0x13000060⟩⟩
    (Opcode.mk .long .jump rfl).pattern.Contained ∧
    (∃ word, high.pattern.accepts word = true ∧ middle.pattern.accepts word = true) ∧
    (¬ ∃ word, middle.pattern.accepts word = true ∧ other.pattern.accepts word = true) ∧
    ([other, high].find? fun row => row.pattern.accepts 0x12345678) = some high := by
  intro high middle other
  obtain ⟨contained, overlapping, _, search⟩ := overlaps_is_exact
  refine ⟨?_, ?_, ?_, ?_⟩
  · have listed : Opcode.mk .long .jump rfl ∈ Opcode.ofForm .long :=
      (Opcode.mem_ofForm _ _).mpr rfl
    exact contained _ (List.mem_append_right shortTable (List.mem_map_of_mem listed))
  · exact (overlapping high middle (by decide) (by decide)).mp (by decide)
  · rw [← overlapping middle other (by decide) (by decide)]
    decide
  · have found := (search [high, other] (by decide) [other, high]
      (List.Perm.swap high other []) 0x12345678).1 high
    exact found.mpr ⟨by decide, by decide⟩

end Encoding

end Aap
