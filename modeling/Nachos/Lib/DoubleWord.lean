import Mathlib

/-!
# Numbers in two words

A number of twice the width of a word is kept in a high and a low word.  Its
sum, double and negation are computed on the words with a carry.
-/

open BitVec (ofNat)

namespace DoubleWord

variable {width : Nat}

/-- The number with the given halves. -/
def join (hi lo : BitVec width) : BitVec (width + width) := hi ++ lo

theorem toNat_append {high low : Nat} (hi : BitVec high) (lo : BitVec low) :
    (hi ++ lo).toNat = 2 ^ low * hi.toNat + lo.toNat := by
  rw [BitVec.toNat_append, Nat.mul_comm, ← Nat.shiftLeft_add_eq_or_of_lt lo.isLt, Nat.shiftLeft_eq]

theorem toNat_join (hi lo : BitVec width) : (join hi lo).toNat = 2 ^ width * hi.toNat + lo.toNat :=
  toNat_append hi lo

theorem toInt_join (positive : 0 < width) (hi lo : BitVec width) :
    (join hi lo).toInt = 2 ^ width * hi.toInt + lo.toNat := by
  unfold join
  rw [BitVec.toInt_append, if_neg]
  simpa using positive.ne'

@[simp] theorem join_zero :
    join (ofNat width 0) (ofNat width 0) = ofNat (width + width) 0 := by
  apply BitVec.eq_of_toNat_eq
  rw [toNat_join]
  simp

/-! ## Sums -/

/-- The sum of two low words has wrapped around if it is less than one of
them. -/
theorem add_lt_iff (first second : BitVec width) :
    first + second < second ↔ 2 ^ width ≤ first.toNat + second.toNat := by
  have firstSmall := first.isLt
  have secondSmall := second.isLt
  rw [BitVec.lt_def, BitVec.toNat_add]
  by_cases wraps : 2 ^ width ≤ first.toNat + second.toNat
  · rw [Nat.mod_eq_sub_mod wraps, Nat.mod_eq_of_lt (by omega)]
    omega
  · rw [Nat.mod_eq_of_lt (by omega)]
    omega

/-- The high word with the carry out of the low words. -/
def carry (hi lo otherLo : BitVec width) : BitVec width :=
  if lo + otherLo < otherLo then hi + ofNat width 1 else hi

theorem toNat_carry (hi lo otherLo : BitVec width) :
    (carry hi lo otherLo).toNat =
      (hi.toNat + (lo.toNat + otherLo.toNat) / 2 ^ width) % 2 ^ width := by
  have loSmall := lo.isLt
  have otherSmall := otherLo.isLt
  unfold carry
  by_cases wraps : 2 ^ width ≤ lo.toNat + otherLo.toNat
  · have one : (lo.toNat + otherLo.toNat) / 2 ^ width = 1 :=
      Nat.div_eq_of_lt_le (by omega) (by omega)
    rw [if_pos ((add_lt_iff lo otherLo).mpr wraps), one,
      BitVec.toNat_add, BitVec.toNat_ofNat, Nat.add_mod_mod]
  · have none : (lo.toNat + otherLo.toNat) / 2 ^ width = 0 :=
      Nat.div_eq_of_lt (by omega)
    rw [if_neg (mt (add_lt_iff lo otherLo).mp wraps), none, Nat.add_zero, Nat.mod_eq_of_lt hi.isLt]

theorem join_add (hi lo otherHi otherLo : BitVec width) :
    join hi lo + join otherHi otherLo = join (carry hi lo otherLo + otherHi) (lo + otherLo) := by
  have regrouped : 2 ^ width * hi.toNat + lo.toNat +
      (2 ^ width * otherHi.toNat + otherLo.toNat) =
        lo.toNat + otherLo.toNat + 2 ^ width * (hi.toNat + otherHi.toNat) :=
    by ring
  apply BitVec.eq_of_toNat_eq
  rw [BitVec.toNat_add, toNat_join, toNat_join, toNat_join, pow_add,
    regrouped, Nat.mod_mul, Nat.add_mul_mod_self_left,
    Nat.add_mul_div_left _ _ (Nat.two_pow_pos width), BitVec.toNat_add,
    BitVec.toNat_add, toNat_carry, Nat.mod_add_mod, Nat.add_comm]
  congr 3
  ring

/-! ## Doubling and negation -/

theorem msb_eq_true_iff (lo : BitVec width) : lo.msb = true ↔ lo + lo < lo := by
  have small := lo.isLt
  rw [add_lt_iff, BitVec.msb_eq_toNat, decide_eq_true_eq]
  cases width with
  | zero =>
    rw [BitVec.eq_nil lo]
    decide
  | succ width =>
    rw [Nat.add_sub_cancel, pow_succ]
    omega

theorem shiftLeft_one_eq (word : BitVec width) : word <<< 1 = word + word := by
  apply BitVec.eq_of_toNat_eq
  rw [BitVec.toNat_shiftLeft, BitVec.toNat_add, Nat.shiftLeft_eq, pow_one, Nat.mul_two]

theorem shiftLeft_one_or_one (word : BitVec width) :
    word <<< 1 ||| ofNat width 1 = word <<< 1 + ofNat width 1 := by
  symm
  apply BitVec.add_eq_or_of_and_eq_zero
  apply BitVec.eq_of_getLsbD_eq
  intro index inside
  cases index with
  | zero => simp
  | succ index => simp [BitVec.getLsbD_one]

theorem join_double (hi lo : BitVec width) :
    join hi lo + join hi lo =
      join (if lo.msb then hi <<< 1 ||| ofNat width 1 else hi <<< 1) (lo <<< 1) := by
  rw [join_add, shiftLeft_one_eq lo]
  unfold carry
  simp only [← msb_eq_true_iff]
  cases lo.msb with
  | false => simp [shiftLeft_one_eq]
  | true =>
    simp only [if_true, shiftLeft_one_or_one]
    rw [shiftLeft_one_eq, BitVec.add_assoc, BitVec.add_comm (ofNat width 1), BitVec.add_assoc]

theorem join_neg (positive : 0 < width) (hi lo : BitVec width) :
    -join hi lo = join (if ~~~lo + ofNat width 1 = ofNat width 0 then
          ~~~hi + ofNat width 1 else ~~~hi)
        (~~~lo + ofNat width 1) := by
  have small : 1 < 2 ^ width := Nat.one_lt_two_pow positive.ne'
  have one : ofNat (width + width) 1 = join (ofNat width 0) (ofNat width 1) := by
    apply BitVec.eq_of_toNat_eq
    rw [toNat_join, BitVec.toNat_ofNat, BitVec.toNat_ofNat,
      BitVec.toNat_ofNat, Nat.mod_eq_of_lt small, Nat.zero_mod, Nat.mul_zero,
      Nat.zero_add, Nat.mod_eq_of_lt]
    exact Nat.one_lt_two_pow (by omega)
  have complement : ~~~join hi lo = join (~~~hi) (~~~lo) :=
    BitVec.not_append
  have wraps : ~~~lo + ofNat width 1 < ofNat width 1 ↔ ~~~lo + ofNat width 1 = ofNat width 0 := by
    rw [BitVec.lt_def, BitVec.toNat_ofNat, Nat.mod_eq_of_lt small,
      Nat.lt_one_iff, ← BitVec.toNat_inj, BitVec.toNat_ofNat, Nat.zero_mod]
  rw [BitVec.neg_eq_not_add, one, complement, join_add, BitVec.add_zero]
  unfold carry
  simp only [wraps]

end DoubleWord
