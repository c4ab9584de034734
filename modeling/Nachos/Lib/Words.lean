import Mathlib

/-!
# Fixed-width integers and their byte images

Host integers are 32-bit two's-complement words.  `wrap32` is the arithmetic
of a signed host integer, `Word` is its stored form, and `wordsToBytes` and
`bytesToWord` convert between a table of words and its little-endian byte
image.  Byte images are total functions on offsets; the blocks which hold
them carry their own bounds.
-/

namespace Words

abbrev Byte := BitVec 8

abbrev Word := BitVec 32

/-- The value of a signed 32-bit computation whose exact result is `value`. -/
@[irreducible] def wrap32 (value : Int) : Int :=
  (value + 2147483648) % 4294967296 - 2147483648

/-- The values a signed 32-bit integer can take. -/
def InRange (value : Int) : Prop :=
  -2147483648 ≤ value ∧ value < 2147483648

instance (value : Int) : Decidable (InRange value) :=
  inferInstanceAs (Decidable (_ ∧ _))

theorem wrap32_eq {value : Int} (inRange : InRange value) : wrap32 value = value := by
  unfold InRange at inRange
  unfold wrap32
  omega

theorem wrap32_inRange (value : Int) : InRange (wrap32 value) := by
  unfold InRange wrap32
  omega

theorem toInt_inRange (word : Word) : InRange word.toInt := by
  have lower := BitVec.le_toInt word
  have upper := BitVec.toInt_lt (x := word)
  unfold InRange
  omega

theorem toInt_eq_toNat {word : Word} (nonnegative : 0 ≤ word.toInt) : word.toInt = word.toNat := by
  have bound := word.isLt
  have value := BitVec.toInt_eq_toNat_cond word
  split at value <;> omega

theorem toInt_ofNat_le (count : Nat) : (BitVec.ofNat 32 count).toInt ≤ count := by
  have value := BitVec.toInt_eq_toNat_cond (BitVec.ofNat 32 count)
  have small : (BitVec.ofNat 32 count).toNat ≤ count := by
    rw [BitVec.toNat_ofNat]
    exact Nat.mod_le _ _
  split at value <;> omega

theorem toInt_ofNat_eq {count : Nat} (small : count < 2147483648) :
    (BitVec.ofNat 32 count).toInt = count := by
  rw [BitVec.toInt_eq_toNat_of_lt (by rw [BitVec.toNat_ofNat]; omega),
    BitVec.toNat_ofNat, Nat.mod_eq_of_lt (by omega)]

theorem toInt_ofInt (value : Int) : (BitVec.ofInt 32 value).toInt = wrap32 value := by
  rw [BitVec.toInt_ofInt, Int.bmod_def]
  unfold wrap32
  split <;> omega

theorem toInt_ofInt_eq {value : Int} (inRange : InRange value) :
    (BitVec.ofInt 32 value).toInt = value := by
  rw [toInt_ofInt, wrap32_eq inRange]

theorem ofInt_sub (left right : Int) :
    BitVec.ofInt 32 (left - right) = BitVec.ofInt 32 left - BitVec.ofInt 32 right := by
  rw [sub_eq_add_neg, BitVec.ofInt_add, BitVec.ofInt_neg, BitVec.sub_eq_add_neg]

theorem toInt_add_one {word : Word} (nonnegative : 0 ≤ word.toInt)
    (below : word ≠ 2147483647#32) : (word + 1).toInt = word.toInt + 1 := by
  have bound : word.toNat ≠ 2147483647 := fun same =>
    below (BitVec.eq_of_toNat_eq same)
  have small := word.isLt
  rw [BitVec.toInt_eq_toNat_cond] at nonnegative ⊢
  rw [BitVec.toInt_eq_toNat_cond, BitVec.toNat_add]
  rw [show (1 : Word).toNat = 1 from rfl]
  split at nonnegative <;> omega

theorem toInt_sub_one {word : Word} (nonnegative : 0 ≤ word.toInt)
    (nonzero : word ≠ 0#32) : (word - 1).toInt = word.toInt - 1 := by
  have bound : word.toNat ≠ 0 := fun same =>
    nonzero (BitVec.eq_of_toNat_eq same)
  have small := word.isLt
  rw [BitVec.toInt_eq_toNat_cond] at nonnegative ⊢
  rw [BitVec.toInt_eq_toNat_cond, BitVec.toNat_sub]
  rw [show (1 : Word).toNat = 1 from rfl]
  split at nonnegative <;> omega

theorem toNat_ofNat_index {bound : Nat} (small : bound ≤ 4294967296)
    (index : Fin bound) : (BitVec.ofNat 32 index.val).toNat = index.val := by
  have inside := index.isLt
  rw [BitVec.toNat_ofNat, Nat.mod_eq_of_lt (by omega)]

theorem ofNat_index_injective {bound : Nat} (small : bound ≤ 4294967296) :
    Function.Injective fun index : Fin bound =>
      BitVec.ofNat 32 index.val := by
  intro first second same
  apply Fin.ext
  have values := congrArg BitVec.toNat same
  rwa [toNat_ofNat_index small, toNat_ofNat_index small] at values

/-- The byte at offset `index` of the little-endian image of a word. -/
def byteOf (word : Word) (index : Nat) : Byte :=
  word.extractLsb' (8 * index) 8

/-- The word whose little-endian image starts at `offset` of `bytes`. -/
def wordAt (bytes : Nat → Byte) (offset : Nat) : Word :=
  bytes (offset + 3) ++ bytes (offset + 2) ++ bytes (offset + 1) ++ bytes offset

theorem wordAt_byteOf (word : Word) (bytes : Nat → Byte) (offset : Nat)
    (image : ∀ index, index < 4 → bytes (offset + index) = byteOf word index) :
    wordAt bytes offset = word := by
  have first : bytes offset = byteOf word 0 := by
    simpa using image 0 (by decide)
  unfold wordAt
  rw [image 3 (by decide), image 2 (by decide), image 1 (by decide), first]
  apply BitVec.eq_of_getLsbD_eq
  intro position inside
  simp only [byteOf, BitVec.getLsbD_append, BitVec.getLsbD_extractLsb']
  by_cases inFirst : position < 8
  · simp [inFirst]
  · by_cases inSecond : position - 8 < 8
    · have rebuilt : 8 * 1 + (position - 8) = position := by omega
      simp [inFirst, inSecond, rebuilt]
    · by_cases inThird : position - 8 - 8 < 8
      · have rebuilt : 8 * 2 + (position - 8 - 8) = position := by omega
        simp [inFirst, inSecond, inThird, rebuilt]
      · have inFourth : position - 8 - 8 - 8 < 8 := by omega
        have rebuilt : 8 * 3 + (position - 8 - 8 - 8) = position := by omega
        simp [inFirst, inSecond, inThird, inFourth, rebuilt]

/-- The byte image of a table of words. -/
def wordsToBytes (words : Nat → Word) : Nat → Byte :=
  fun offset => byteOf (words (offset / 4)) (offset % 4)

theorem wordAt_wordsToBytes (words : Nat → Word) (index : Nat) (bytes : Nat → Byte)
    (image : ∀ offset, 4 * index ≤ offset → offset < 4 * index + 4 →
      bytes offset = wordsToBytes words offset) :
    wordAt bytes (4 * index) = words index := by
  apply wordAt_byteOf
  intro offset inside
  rw [image (4 * index + offset) (by omega) (by omega)]
  have quotient : (4 * index + offset) / 4 = index := by omega
  have remainder : (4 * index + offset) % 4 = offset := by omega
  simp [wordsToBytes, quotient, remainder]

end Words
