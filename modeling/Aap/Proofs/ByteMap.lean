import Aap.Memory
import Mathlib.Tactic.Common

/-!
# Memories as byte maps

Written bytes and loaded sections are changes of a memory.  A change that has
room in the space puts its bytes at the addresses that it covers, and one that
has no room does nothing at all.  What a memory holds after any number of changes
is, at each address, the byte of the last change that had room and covered it.
-/

namespace Aap

namespace Memory

/-- A change that is asked of a memory. -/
inductive Change where
  | write (address : Nat) (byte : Byte)
  /-- Load a section whose first byte goes to `address`. -/
  | load (contents : List Byte) (address : Nat)
  deriving DecidableEq

namespace Change

/-- Whether a space has room for a change; an empty section has room up to the
end of the space. -/
def Fits (space : Space) : Change → Prop
  | write address _ => address < space.size
  | load contents address => address + contents.length ≤ space.size

instance (space : Space) (change : Change) : Decidable (change.Fits space) := by
  unfold Fits
  cases change <;> infer_instance

theorem fits_load {space : Space} {contents : List Byte} {address : Nat} :
    (load contents address).Fits space ↔ address + contents.length ≤ space.size :=
  Iff.rfl

/-- Whether a change is about the byte at an address. -/
def Covers (change : Change) (address : Nat) : Prop :=
  match change with
  | write written _ => written = address
  | load contents first => first ≤ address ∧ address < first + contents.length

/-- The byte that a change puts at an address. -/
def byte? (change : Change) (address : Nat) : Option Byte :=
  match change with
  | write written byte => if written = address then some byte else none
  | load contents first => if first ≤ address then contents[address - first]? else none

theorem isSome_byte?_iff (change : Change) (address : Nat) :
    (change.byte? address).isSome ↔ change.Covers address := by
  cases change with
  | write written byte => simp [byte?, Covers]
  | load contents first =>
      simp only [byte?, Covers]
      by_cases behind : first ≤ address
      · rw [if_pos behind, isSome_getElem?]
        omega
      · simp [behind]

theorem byte?_eq_none {change : Change} {address : Nat} (spared : ¬ change.Covers address) :
    change.byte? address = none := by
  rwa [← isSome_byte?_iff, Option.not_isSome_iff_eq_none] at spared

end Change

/-- The byte that the last of some changes with room in a space puts at an address. -/
def lastByte? (space : Space) (changes : List Change) (address : Nat) : Option Byte :=
  ((changes.filter fun change => change.Fits space).filterMap fun change =>
    change.byte? address).getLast?

variable {space : Space}

/-- The memory after a change; a section without room leaves it as it is. -/
def after (memory : Memory space) : Change → Memory space
  | .write address byte => memory.write address byte
  | .load contents address =>
      match memory.load contents address with
      | .ok loaded => loaded
      | .error _ => memory

theorem load_of_fits (memory : Memory space) {contents : List Byte} {address : Nat}
    (fits : address + contents.length ≤ space.size) :
    memory.load contents address = .ok (memory.after (.load contents address)) := by
  simp only [after, load, if_pos fits]

theorem load_of_not_fits (memory : Memory space) {contents : List Byte} {address : Nat}
    (exceeds : ¬ address + contents.length ≤ space.size) :
    memory.load contents address = .error ⟨space, address, contents.length⟩ :=
  if_neg exceeds

theorem load_eq_ok_iff (memory : Memory space) (contents : List Byte) (address : Nat) :
    (∃ loaded, memory.load contents address = .ok loaded) ↔
      address + contents.length ≤ space.size := by
  constructor
  · rintro ⟨loaded, loadedEq⟩
    by_contra exceeds
    rw [load_of_not_fits memory exceeds] at loadedEq
    cases loadedEq
  · intro fits
    exact ⟨_, load_of_fits memory fits⟩

/-- What a change with room puts somewhere is read there, and all else is kept. -/
theorem read_after (memory : Memory space) {change : Change} (fits : change.Fits space)
    (address : Nat) :
    (memory.after change).read address = (change.byte? address).getD (memory.read address) := by
  cases change with
  | write written byte =>
      rw [after, read_write, Change.byte?]
      by_cases here : written = address
      · subst here
        have inside : written < space.size := fits
        simp [inside]
      · simp [here]
  | load contents first =>
      have within := Change.fits_load.mp fits
      have loadedEq : memory.after (.load contents first) = memory.writeAll first contents := by
        simp only [after, load, if_pos within]
      rw [loadedEq, read_writeAll memory first contents within, Change.byte?]
      split <;> rfl

theorem after_of_not_fits (memory : Memory space) {change : Change}
    (exceeds : ¬ change.Fits space) : memory.after change = memory := by
  cases change with
  | write written byte =>
      apply ext_read
      intro address
      have outside : ¬ (written = address ∧ address < space.size) := by
        rintro ⟨rfl, inside⟩
        exact exceeds inside
      rw [after, read_write, if_neg outside]
  | load contents first => simp only [after, load_of_not_fits memory exceeds]

/-- After any number of changes each byte is that of the last one with room that
covers it, and without such a change it is as before. -/
theorem read_foldl_after (memory : Memory space) (changes : List Change) (address : Nat) :
    (changes.foldl after memory).read address =
      (lastByte? space changes address).getD (memory.read address) := by
  induction changes generalizing memory with
  | nil => rfl
  | cons change changes induction =>
      -- The rest is read over the memory after the first change, so that this change
      -- counts only where no later one does.
      rw [List.foldl_cons, induction, lastByte?, lastByte?]
      by_cases fits : change.Fits space
      · rw [List.filter_cons_of_pos (by simpa using fits), read_after memory fits]
        cases byteEq : change.byte? address with
        | none => rw [List.filterMap_cons, byteEq, Option.getD_none]
        | some byte =>
            rw [List.filterMap_cons, byteEq, List.getLast?_cons, Option.getD_some,
              Option.getD_some]
      · rw [List.filter_cons_of_neg (by simpa using fits), after_of_not_fits memory fits]

theorem tail_eq_map_read (memory : Memory space) (address : Nat) :
    memory.tail address =
      (List.range (space.size - address)).map fun offset => memory.read (address + offset) := by
  apply List.ext_getElem?
  intro index
  rw [tail, getElem?_slice, Nat.min_self, List.getElem?_map]
  by_cases inside : address + index < space.size
  · rw [if_pos inside, List.getElem?_range (by omega), Option.map_some]
  · rw [if_neg inside, List.getElem?_eq_none (by rw [List.length_range]; omega), Option.map_none]

/-- A section is loaded as well in two parts, one behind the other. -/
theorem after_load_append (memory : Memory space) (first second : List Byte) {address : Nat}
    (fits : address + (first ++ second).length ≤ space.size) :
    memory.after (.load (first ++ second) address) =
      (memory.after (.load first address)).after (.load second (address + first.length)) := by
  have wholeFits := Change.fits_load.mpr fits
  rw [List.length_append] at fits
  have firstFits : (Change.load first address).Fits space := Change.fits_load.mpr (by omega)
  have secondFits : (Change.load second (address + first.length)).Fits space :=
    Change.fits_load.mpr (by omega)
  apply ext_read
  intro place
  rw [read_after _ wholeFits, read_after _ secondFits, read_after _ firstFits]
  simp only [Change.byte?]
  by_cases inFirst : place < address + first.length
  · rw [if_neg (by omega : ¬ address + first.length ≤ place), Option.getD_none]
    by_cases behind : address ≤ place
    · rw [if_pos behind, if_pos behind, List.getElem?_append_left (by omega)]
    · rw [if_neg behind, if_neg behind]
  · rw [if_pos (by omega : address ≤ place), if_pos (by omega : address ≤ place),
      if_pos (by omega : address + first.length ≤ place), List.getElem?_append_right (by omega),
      List.getElem?_eq_none (by omega : first.length ≤ place - address), Nat.sub_sub,
      Option.getD_none]

/-- Changes that have no address in common can be made in either order. -/
theorem after_comm (memory : Memory space) {left right : Change} (leftFits : left.Fits space)
    (rightFits : right.Fits space)
    (disjoint : ∀ place, ¬ (left.Covers place ∧ right.Covers place)) :
    (memory.after left).after right = (memory.after right).after left := by
  apply ext_read
  intro place
  rw [read_after _ leftFits, read_after _ rightFits, read_after _ leftFits,
    read_after _ rightFits]
  by_cases covered : left.Covers place
  · rw [Change.byte?_eq_none fun other => disjoint place ⟨covered, other⟩]
    rfl
  · rw [Change.byte?_eq_none covered]
    rfl

/-- A memory is a byte map in which the last change stands.  Sections are loaded
whole if they fit and not at all otherwise, so that they may be cut in two, and
loaded in any order if they do not overlap. -/
theorem last_change_stands (space : Space) :
    (∀ (changes : List Change) (address : Nat),
      let memory := changes.foldl after (zero space)
      memory.read address = (lastByte? space changes address).getD 0 ∧
      (space.size ≤ address → memory.read address = 0 ∧ memory.tail address = []) ∧
      memory.tail address =
        (List.range (space.size - address)).map (fun offset => memory.read (address + offset)) ∧
      memory.bytes.toList.length = space.size) ∧
    (∀ (memory : Memory space) (contents : List Byte) (address : Nat),
      ((∃ loaded, memory.load contents address = .ok loaded) ↔
        address + contents.length ≤ space.size) ∧
      (¬ address + contents.length ≤ space.size →
        memory.load contents address = .error ⟨space, address, contents.length⟩)) ∧
    (∀ (memory : Memory space) (change : Change), ¬ change.Fits space →
      memory.after change = memory) ∧
    (∀ (memory : Memory space) (first second : List Byte) (address : Nat),
      address + (first ++ second).length ≤ space.size →
      ∃ part whole, memory.load first address = .ok part ∧
        part.load second (address + first.length) = .ok whole ∧
        memory.load (first ++ second) address = .ok whole) ∧
    ∀ (memory : Memory space) (left right : List Byte) (leftAddress rightAddress : Nat),
      leftAddress + left.length ≤ space.size → rightAddress + right.length ≤ space.size →
      (∀ place, ¬ ((Change.load left leftAddress).Covers place ∧
        (Change.load right rightAddress).Covers place)) →
      ∃ withLeft withRight both, memory.load left leftAddress = .ok withLeft ∧
        withLeft.load right rightAddress = .ok both ∧
        memory.load right rightAddress = .ok withRight ∧
        withRight.load left leftAddress = .ok both := by
  refine ⟨?_, ?_, fun memory change => after_of_not_fits memory, ?_, ?_⟩
  · intro changes address memory
    have tailEq := tail_eq_map_read memory address
    refine ⟨?_, ?_, tailEq, memory.bytes.length_toList⟩
    · rw [read_foldl_after, read_zero]
    · intro outside
      rw [tailEq, Nat.sub_eq_zero_of_le outside]
      exact ⟨read_eq_zero_of_size_le memory outside, rfl⟩
  · intro memory contents address
    exact ⟨load_eq_ok_iff memory contents address, load_of_not_fits memory⟩
  · intro memory first second address fits
    refine ⟨_, _, load_of_fits memory ?_, load_of_fits _ ?_, ?_⟩
    · rw [List.length_append] at fits
      omega
    · rw [List.length_append] at fits
      omega
    · rw [load_of_fits memory fits, after_load_append memory first second fits]
  · intro memory left right leftAddress rightAddress leftFits rightFits disjoint
    refine ⟨_, _, _, load_of_fits memory leftFits, load_of_fits _ rightFits,
      load_of_fits memory rightFits, ?_⟩
    rw [load_of_fits _ leftFits, after_comm memory (Change.fits_load.mpr leftFits)
      (Change.fits_load.mpr rightFits) disjoint]

/-- A section up to the last byte of data with a byte written over it, one that
reaches beyond, an empty one at the end, and two sections side by side. -/
theorem last_change_stands_at_end :
    let changes : List Change :=
      [.load [1, 2, 3] 0xFFFD, .write 0xFFFE 9, .load [7, 7] 0xFFFF, .load [] 0x10000,
        .write 0x10000 5]
    let memory := changes.foldl after (zero .data)
    (memory.read 0xFFFE = 9 ∧ memory.tail 0xFFFD = [1, 9, 3] ∧ memory.tail 0x10000 = []) ∧
    (∃ loaded, memory.load [] 0x10000 = .ok loaded) ∧
    memory.load [] 0x10001 = .error ⟨.data, 0x10001, 0⟩ ∧
    memory.after (.load [7, 7] 0xFFFF) = memory ∧
    (∃ part whole, memory.load [4] 0xFFFC = .ok part ∧ part.load [5, 6] 0xFFFD = .ok whole ∧
      memory.load [4, 5, 6] 0xFFFC = .ok whole) ∧
    ∃ withLeft withRight both, memory.load [4] 0xFFFE = .ok withLeft ∧
      withLeft.load [5] 0xFFFF = .ok both ∧ memory.load [5] 0xFFFF = .ok withRight ∧
      withRight.load [4] 0xFFFE = .ok both := by
  intro changes memory
  obtain ⟨reads, loads, spares, cuts, commutes⟩ := last_change_stands .data
  have readEq (address : Nat) : memory.read address =
      (lastByte? .data changes address).getD 0 := (reads changes address).1
  refine ⟨⟨?_, ?_, ?_⟩, ?_, ?_, ?_, ?_, ?_⟩
  · rw [readEq]
    decide
  · rw [(reads changes 0xFFFD).2.2.1]
    change [memory.read 0xFFFD, memory.read 0xFFFE, memory.read 0xFFFF] = _
    rw [readEq, readEq, readEq]
    decide
  · exact ((reads changes 0x10000).2.1 (by decide)).2
  · exact (loads memory [] 0x10000).1.mpr (by decide)
  · exact (loads memory [] 0x10001).2 (by decide)
  · exact spares memory (.load [7, 7] 0xFFFF) (by decide)
  · exact cuts memory [4] [5, 6] 0xFFFC (by decide)
  · apply commutes memory [4] [5] 0xFFFE 0xFFFF (by decide) (by decide)
    rintro place ⟨⟨_, below⟩, above, _⟩
    simp only [List.length_singleton] at below
    omega

end Memory

end Aap
