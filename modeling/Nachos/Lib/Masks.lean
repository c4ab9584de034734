import Mathlib

/-!
# Masks

Programs test the last and the first bit of a word with masks, and take its
last bits.
-/

open BitVec (ofNat)

namespace Masks

variable {width : Nat}

theorem and_one_ne_zero_iff (positive : 0 < width) (word : BitVec width) :
    word &&& ofNat width 1 ≠ ofNat width 0 ↔ word.toNat % 2 = 1 := by
  have small : 1 < 2 ^ width := Nat.one_lt_two_pow positive.ne'
  rw [Ne, ← BitVec.toNat_inj, BitVec.toNat_and, BitVec.toNat_ofNat,
    BitVec.toNat_ofNat, Nat.mod_eq_of_lt small, Nat.zero_mod,
    Nat.and_one_is_mod]
  omega

/-- The remainder of the signed value is that of the unsigned one. -/
theorem toInt_emod_two (positive : 0 < width) (word : BitVec width) :
    word.toInt % 2 = (word.toNat % 2 : Nat) := by
  obtain ⟨half, even⟩ : 2 ∣ 2 ^ width := dvd_pow_self 2 positive.ne'
  rw [BitVec.toInt_eq_toNat_cond, even]
  split
  · rfl
  · omega

/-- A word which is nothing but its last bit. -/
theorem eq_one_of_rest (positive : 0 < width) {word : BitVec width}
    (odd : word &&& ofNat width 1 ≠ ofNat width 0)
    (rest : word &&& ~~~ofNat width 1 = ofNat width 0) :
    word = ofNat width 1 := by
  have small : 1 < 2 ^ width := Nat.one_lt_two_pow positive.ne'
  have parts : word = word &&& ofNat width 1 ||| word &&& ~~~ofNat width 1 := by
    rw [← BitVec.and_or_distrib_left, BitVec.or_not_self, BitVec.and_allOnes]
  rw [parts, rest, BitVec.or_zero]
  apply BitVec.eq_of_toNat_eq
  rw [BitVec.toNat_and, BitVec.toNat_ofNat, Nat.mod_eq_of_lt small, Nat.and_one_is_mod]
  exact (and_one_ne_zero_iff positive word).mp odd

theorem and_signMask_ne_zero_iff (positive : 0 < width) (word : BitVec width) :
    word &&& BitVec.twoPow width (width - 1) ≠ ofNat width 0 ↔ word.msb = true := by
  have nonzero : BitVec.twoPow width (width - 1) ≠ ofNat width 0 := by
    intro zero
    have bit := congrArg (·.getLsbD (width - 1)) zero
    simp [positive.ne'] at bit
  rw [BitVec.and_twoPow, BitVec.msb_eq_getLsbD_last]
  cases word.getLsbD (width - 1) with
  | false => simp
  | true => simpa using nonzero

theorem and_lowMask (word : BitVec width) (count : Nat) (fits : count ≤ width) :
    word &&& ofNat width (2 ^ count - 1) = (word.extractLsb' 0 count).zeroExtend width := by
  have fewer : 2 ^ count ≤ 2 ^ width := Nat.pow_le_pow_right (by decide) fits
  have positive := Nat.two_pow_pos count
  have small : word.toNat % 2 ^ count < 2 ^ width :=
    lt_of_lt_of_le (Nat.mod_lt _ positive) fewer
  apply BitVec.eq_of_toNat_eq
  rw [BitVec.toNat_and, BitVec.toNat_ofNat, Nat.mod_eq_of_lt (by omega),
    Nat.and_two_pow_sub_one_eq_mod, BitVec.toNat_setWidth,
    BitVec.extractLsb'_toNat, Nat.shiftRight_zero, Nat.mod_eq_of_lt small]

end Masks
