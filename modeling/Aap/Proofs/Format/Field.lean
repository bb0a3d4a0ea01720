import Aap.Format.Encoding
import Mathlib.Algebra.Group.Nat.Defs
import Mathlib.Data.List.Pairwise

/-!
# Fields by division

A field of a word is a quotient by a power of two, reduced modulo another.  A
pattern that fixes the values of disjoint fields accepts exactly the words
which have these values there.
-/

namespace Aap

namespace Field

/-- The field lies within a word of thirty-two bits. -/
def Inside (field : Field) : Prop :=
  field.low + field.width ≤ 32

instance (field : Field) : Decidable field.Inside :=
  inferInstanceAs (Decidable (field.low + field.width ≤ 32))

theorem toNat_mask (field : Field) (inside : field.Inside) :
    field.mask.toNat = (2 ^ field.width - 1) * 2 ^ field.low := by
  rw [mask, BitVec.toNat_ofNat, Nat.shiftLeft_eq, Nat.one_shiftLeft]
  apply Nat.mod_eq_of_lt
  have lowPos : 0 < 2 ^ field.low := Nat.two_pow_pos _
  calc
    (2 ^ field.width - 1) * 2 ^ field.low < 2 ^ field.width * 2 ^ field.low := by
      apply Nat.mul_lt_mul_of_pos_right _ lowPos
      exact Nat.sub_one_lt (Nat.pos_iff_ne_zero.mp (Nat.two_pow_pos _))
    _ = 2 ^ (field.low + field.width) := by rw [← Nat.pow_add, Nat.add_comm]
    _ ≤ 2 ^ 32 := Nat.pow_le_pow_right (by decide) inside

theorem read_eq_div_mod (field : Field) (inside : field.Inside) (word : BitVec 32) :
    field.read word = word.toNat / 2 ^ field.low % 2 ^ field.width := by
  rw [read, BitVec.toNat_ushiftRight, BitVec.toNat_and, toNat_mask field inside,
    ← Nat.shiftLeft_eq, Nat.shiftRight_and_distrib, Nat.shiftLeft_shiftRight,
    Nat.and_two_pow_sub_one_eq_mod, Nat.shiftRight_eq_div_pow]

theorem read_lt (field : Field) (inside : field.Inside) (word : BitVec 32) :
    field.read word < 2 ^ field.width := by
  rw [read_eq_div_mod field inside]
  exact Nat.mod_lt _ (Nat.two_pow_pos _)

theorem toNat_place (field : Field) (inside : field.Inside) {value : Nat}
    (valueLt : value < 2 ^ field.width) : (field.place value).toNat = value * 2 ^ field.low := by
  rw [place, BitVec.toNat_ofNat, Nat.shiftLeft_eq]
  apply Nat.mod_eq_of_lt
  calc
    value * 2 ^ field.low < 2 ^ field.width * 2 ^ field.low :=
      Nat.mul_lt_mul_of_pos_right valueLt (Nat.two_pow_pos _)
    _ = 2 ^ (field.low + field.width) := by rw [← Nat.pow_add, Nat.add_comm]
    _ ≤ 2 ^ 32 := Nat.pow_le_pow_right (by decide) inside

/-- The masked bits of a word are the value of the field at its place. -/
theorem and_mask_eq_place (field : Field) (inside : field.Inside) (word : BitVec 32) :
    word &&& field.mask = field.place (field.read word) := by
  apply BitVec.eq_of_toNat_eq
  rw [toNat_place field inside (read_lt field inside word), read, BitVec.toNat_ushiftRight,
    ← Nat.shiftLeft_eq, BitVec.toNat_and, toNat_mask field inside, ← Nat.shiftLeft_eq]
  apply Nat.eq_of_testBit_eq
  intro index
  by_cases below : index < field.low
  · have notAbove : ¬ field.low ≤ index := by omega
    simp [Nat.testBit_shiftLeft, notAbove]
  · have above : field.low ≤ index := by omega
    simp [Nat.testBit_shiftLeft, above]

/-- The masked bits of a word are those of a placed value if the word has this
value in the field. -/
theorem and_mask_eq_place_iff (field : Field) (inside : field.Inside) {value : Nat}
    (valueLt : value < 2 ^ field.width) (word : BitVec 32) :
    word &&& field.mask = field.place value ↔ field.read word = value := by
  constructor
  · intro masked
    have placed := toNat_place field inside valueLt
    rw [read, masked, BitVec.toNat_ushiftRight, placed, Nat.shiftRight_eq_div_pow,
      Nat.mul_div_cancel _ (Nat.two_pow_pos _)]
  · rintro rfl
    exact and_mask_eq_place field inside word

theorem place_and_mask (field : Field) (inside : field.Inside) {value : Nat}
    (valueLt : value < 2 ^ field.width) : field.place value &&& field.mask = field.place value := by
  rw [and_mask_eq_place_iff field inside valueLt, read_eq_div_mod field inside,
    toNat_place field inside valueLt, Nat.mul_div_cancel _ (Nat.two_pow_pos _),
    Nat.mod_eq_of_lt valueLt]

end Field

namespace Pattern

/-- Fixed fields that do not share a bit and have room for their values. -/
structure Separate (fixed : List (Field × Nat)) : Prop where
  inside : ∀ entry ∈ fixed, entry.1.Inside
  valueLt : ∀ entry ∈ fixed, entry.2 < 2 ^ entry.1.width
  disjoint : fixed.Pairwise fun left right => left.1.mask &&& right.1.mask = 0

theorem and_and_or_of_and_eq {bits mask other : BitVec 32} (bitsIn : bits &&& mask = bits) :
    bits &&& (mask ||| other) = bits := by
  rw [BitVec.and_or_distrib_left, bitsIn]
  ext
  simp
  grind

theorem and_eq_of_and_or_eq_or {word leftMask rightMask leftBits rightBits : BitVec 32}
    (disjoint : leftMask &&& rightMask = 0) (leftIn : leftBits &&& leftMask = leftBits)
    (rightIn : rightBits &&& rightMask = rightBits)
    (joined : word &&& (leftMask ||| rightMask) = leftBits ||| rightBits) :
    word &&& leftMask = leftBits := by
  have rightOut : rightBits &&& leftMask = 0 := by
    rw [← rightIn, BitVec.and_assoc, BitVec.and_comm rightMask, disjoint]
    exact BitVec.and_zero
  calc
    word &&& leftMask = word &&& (leftMask ||| rightMask) &&& leftMask := by
      rw [BitVec.and_assoc, BitVec.and_comm (leftMask ||| rightMask),
        and_and_or_of_and_eq BitVec.and_self]
    _ = leftBits &&& leftMask ||| rightBits &&& leftMask := by
      rw [joined, BitVec.and_or_distrib_right]
    _ = leftBits := by
      rw [leftIn, rightOut]
      exact BitVec.or_zero

theorem and_or_eq_or_iff {word leftMask rightMask leftBits rightBits : BitVec 32}
    (disjoint : leftMask &&& rightMask = 0) (leftIn : leftBits &&& leftMask = leftBits)
    (rightIn : rightBits &&& rightMask = rightBits) :
    word &&& (leftMask ||| rightMask) = leftBits ||| rightBits ↔
      word &&& leftMask = leftBits ∧ word &&& rightMask = rightBits := by
  constructor
  · intro joined
    refine ⟨and_eq_of_and_or_eq_or disjoint leftIn rightIn joined, ?_⟩
    apply and_eq_of_and_or_eq_or _ rightIn leftIn
    · rw [BitVec.or_comm rightMask, joined, BitVec.or_comm]
    · rw [BitVec.and_comm, disjoint]
  · rintro ⟨leftEq, rightEq⟩
    rw [BitVec.and_or_distrib_left, leftEq, rightEq]

namespace Separate

variable {entry : Field × Nat} {fixed : List (Field × Nat)}

theorem tail (separate : Separate (entry :: fixed)) : Separate fixed where
  inside other member := separate.inside other (List.mem_cons_of_mem _ member)
  valueLt other member := separate.valueLt other (List.mem_cons_of_mem _ member)
  disjoint := (List.pairwise_cons.mp separate.disjoint).2

theorem and_mask_tail (separate : Separate (entry :: fixed)) :
    entry.1.mask &&& (ofFields fixed).mask = 0 := by
  have apart := (List.pairwise_cons.mp separate.disjoint).1
  clear separate
  unfold ofFields
  induction fixed with
  | nil => exact BitVec.and_zero
  | cons other fixed induction =>
      have rest := induction fun later member => apart later (List.mem_cons_of_mem _ member)
      rw [List.foldr_cons, BitVec.and_or_distrib_left, apart other List.mem_cons_self, rest]
      exact BitVec.or_zero

theorem bits_and_mask (separate : Separate fixed) :
    (ofFields fixed).bits &&& (ofFields fixed).mask = (ofFields fixed).bits := by
  induction fixed with
  | nil => rfl
  | cons entry fixed induction =>
      have head := entry.1.place_and_mask (separate.inside entry List.mem_cons_self)
        (separate.valueLt entry List.mem_cons_self)
      have rest := induction separate.tail
      change (entry.1.place entry.2 ||| (ofFields fixed).bits) &&&
        (entry.1.mask ||| (ofFields fixed).mask) = _
      rw [BitVec.and_or_distrib_right, and_and_or_of_and_eq head, BitVec.or_comm entry.1.mask,
        and_and_or_of_and_eq rest]
      rfl

end Separate

/-- A pattern of separate fields accepts the words that have the fixed value in
every one of the fields. -/
theorem accepts_ofFields_iff {fixed : List (Field × Nat)} (separate : Separate fixed)
    (word : BitVec 32) :
    (ofFields fixed).accepts word = true ↔ ∀ entry ∈ fixed, entry.1.read word = entry.2 := by
  rw [accepts, beq_iff_eq]
  induction fixed with
  | nil =>
      constructor
      · intro _ entry member
        cases member
      · intro _
        exact BitVec.and_zero
  | cons entry fixed induction =>
      have inside := separate.inside entry List.mem_cons_self
      have valueLt := separate.valueLt entry List.mem_cons_self
      change word &&& (entry.1.mask ||| (ofFields fixed).mask) =
        entry.1.place entry.2 ||| (ofFields fixed).bits ↔ _
      rw [and_or_eq_or_iff separate.and_mask_tail (entry.1.place_and_mask inside valueLt)
        separate.tail.bits_and_mask, entry.1.and_mask_eq_place_iff inside valueLt,
        induction separate.tail, List.forall_mem_cons]

end Pattern

end Aap
