/-!
# Bytes, words and signed fields

The machine computes on eight-bit bytes and sixteen-bit words.  A word is
stored with its low byte first.  Encoded offsets are bit fields read in two's
complement, and sums that leave the signed sixteen-bit range are detected by
comparing the exact integer with the signed reading of the stored word.
-/

namespace Aap

/-- The contents of one memory cell. -/
abbrev Byte := BitVec 8

/-- The contents of a register, a data address or a program counter. -/
abbrev Word := BitVec 16

/-- The two's-complement reading of the low `width` bits of `value`. -/
def signedField (width value : Nat) : Int :=
  (BitVec.ofNat width value).toInt

namespace Word

/-- The word with the given low and high bytes. -/
def ofBytes (low high : Byte) : Word :=
  high ++ low

/-- The less significant byte, which is stored first. -/
def lowByte (word : Word) : Byte :=
  word.setWidth 8

/-- The more significant byte, which is stored second. -/
def highByte (word : Word) : Byte :=
  (word >>> 8).setWidth 8

/-- The word reached from `word` by a signed displacement, modulo `2 ^ 16`. -/
def displace (word : Word) (offset : Int) : Word :=
  word + BitVec.ofInt 16 offset

/-- The low sixteen bits of an exact result, and whether its signed reading
differs from that result. -/
def settle (exact : Int) : Word × Bool :=
  let word := BitVec.ofInt 16 exact
  (word, word.toInt != exact)

theorem toNat_ofBytes (low high : Byte) :
    (ofBytes low high).toNat = high.toNat * 256 + low.toNat := by
  rw [ofBytes, BitVec.toNat_append, ← Nat.shiftLeft_add_eq_or_of_lt low.isLt,
    Nat.shiftLeft_eq]

theorem toNat_lowByte (word : Word) :
    (lowByte word).toNat = word.toNat % 256 := by
  simp [lowByte]

theorem toNat_highByte (word : Word) :
    (highByte word).toNat = word.toNat / 256 := by
  have wordLt := word.isLt
  simp only [highByte, BitVec.toNat_setWidth, BitVec.toNat_ushiftRight,
    Nat.shiftRight_eq_div_pow]
  omega

@[simp]
theorem lowByte_ofBytes (low high : Byte) :
    lowByte (ofBytes low high) = low := by
  apply BitVec.eq_of_toNat_eq
  have lowLt := low.isLt
  rw [toNat_lowByte, toNat_ofBytes]
  omega

@[simp]
theorem highByte_ofBytes (low high : Byte) :
    highByte (ofBytes low high) = high := by
  apply BitVec.eq_of_toNat_eq
  have lowLt := low.isLt
  rw [toNat_highByte, toNat_ofBytes]
  omega

@[simp]
theorem ofBytes_lowByte_highByte (word : Word) :
    ofBytes (lowByte word) (highByte word) = word := by
  apply BitVec.eq_of_toNat_eq
  rw [toNat_ofBytes, toNat_lowByte, toNat_highByte]
  omega

/-- The flag of a settled result says that the exact result is outside the
signed sixteen-bit range. -/
theorem settle_overflow_iff (exact : Int) :
    (settle exact).2 = true ↔ exact < -32768 ∨ 32767 < exact := by
  simp only [settle, bne_iff_ne, ne_eq, BitVec.toInt_ofInt]
  rw [Int.bmod_def]
  split <;> omega

end Word

end Aap
