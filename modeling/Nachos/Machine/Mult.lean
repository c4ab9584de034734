import Nachos.Lib.DoubleWord
import Nachos.Lib.Masks
import Nachos.Machine.MipsSim

/-!
# Products

`Mult` adds copies of one factor, shifted round by round, for the bits of the
other one.  The multiplicand is shifted as a signed number; the bits which
the 32 rounds look at are the same.
-/

open Words DoubleWord Masks

namespace Nachos

namespace Mult

/-! ## The loop -/

theorem emod_two_pow_succ (number : Int) (count : Nat) :
    number % 2 ^ (count + 1) = number % 2 + 2 * (number / 2 % 2 ^ count) := by
  have positive : (0 : Int) < 2 ^ count := by positivity
  have parts : number = number % 2 + 2 * (number / 2 % 2 ^ count) +
      2 ^ (count + 1) * (number / 2 / 2 ^ count) := by
    have halves := Int.emod_add_mul_ediv number 2
    have rest := Int.emod_add_mul_ediv (number / 2) (2 ^ count)
    rw [pow_succ]
    linear_combination -halves - 2 * rest
  have lower := Int.emod_nonneg (number / 2) positive.ne'
  have upper := Int.emod_lt_of_pos (number / 2) positive
  rw [parts, Int.add_mul_emod_self_left, ← parts]
  apply Int.emod_eq_of_lt
  · omega
  · rw [pow_succ]
    omega

theorem toInt_sshiftRight_one (word : Word) : (word.sshiftRight 1).toInt = word.toInt / 2 := by
  rw [BitVec.toInt_sshiftRight, Int.shiftRight_eq_div_pow]
  rfl

theorem and_signBit_ne_zero_iff (word : Word) : word &&& signBit ≠ 0#32 ↔ word.msb = true :=
  and_signMask_ne_zero_iff (by decide) word

/-- The high word which the next round starts from. -/
def nextHi (bLo bHi : Word) : Word :=
  if bLo &&& 0x80000000#32 ≠ 0#32 then bHi <<< 1 ||| 1#32 else bHi <<< 1

theorem join_next (bHi bLo : Word) :
    join (nextHi bLo bHi) (bLo <<< 1) = join bHi bLo + join bHi bLo := by
  rw [join_double]
  congr 1
  exact if_congr (and_signBit_ne_zero_iff bLo) rfl rfl

theorem toInt_of_last {a : Word} (odd : a &&& 1#32 ≠ 0#32)
    (last : a &&& 0xfffffffe#32 = 0#32) : a.toInt = 1 := by
  rw [eq_one_of_rest (by decide) odd last]
  rfl

section

variable {a : Word} (count : Nat) (bLo bHi lo hi : Word)

theorem multLoop_of_odd (odd : a &&& 1#32 ≠ 0#32) :
    multLoop (count + 1) a bLo bHi lo hi = if a &&& 0xfffffffe#32 = 0#32 then
        (carry hi lo bLo + bHi, lo + bLo)
      else multLoop count (a.sshiftRight 1) (bLo <<< 1) (nextHi bLo bHi)
        (lo + bLo) (carry hi lo bLo + bHi) := by
  rw [multLoop]
  unfold carry nextHi
  simp only [ne_eq, odd, not_false_eq_true, decide_true, if_true, true_and]

theorem multLoop_of_even (even : a &&& 1#32 = 0#32) :
    multLoop (count + 1) a bLo bHi lo hi =
      multLoop count (a.sshiftRight 1) (bLo <<< 1) (nextHi bLo bHi) lo
        hi := by
  rw [multLoop]
  unfold nextHi
  simp only [ne_eq, even, not_true_eq_false, decide_false,  Bool.false_eq_true, if_false, false_and]

end

theorem mul_bits {width : Nat} (factor : BitVec width) (bit rest : Int) :
    factor * BitVec.ofInt width (bit + 2 * rest) =
      factor * BitVec.ofInt width bit + (factor + factor) * BitVec.ofInt width rest := by
  rw [two_mul, BitVec.ofInt_add, BitVec.ofInt_add]
  ring

/-- Every number of rounds multiplies by as many bits of `a`. -/
theorem multLoop_eq (count : Nat) (a bLo bHi lo hi : Word) : join (multLoop count a bLo bHi lo hi).1
        (multLoop count a bLo bHi lo hi).2 =
      join hi lo + join bHi bLo * BitVec.ofInt (32 + 32) (a.toInt % 2 ^ count) := by
  induction count generalizing a bLo bHi lo hi with
  | zero => simp [multLoop]
  | succ count induction =>
    have bit := toInt_emod_two (show 0 < 32 by decide) a
    rw [emod_two_pow_succ, bit, mul_bits, ← BitVec.add_assoc]
    by_cases odd : a &&& 1#32 ≠ 0#32
    · rw [multLoop_of_odd _ _ _ _ _ odd,
        (and_one_ne_zero_iff (by decide) a).mp odd, Nat.cast_one,
        BitVec.ofInt_ofNat, BitVec.mul_one, join_add]
      split
      · rename_i last
        rw [toInt_of_last odd last]
        simp
      · rw [induction, join_next, toInt_sshiftRight_one]
    · have even : a.toNat % 2 = 0 := by
        have notOdd := mt (and_one_ne_zero_iff (by decide) a).mpr odd
        omega
      rw [multLoop_of_even _ _ _ _ _ (not_not.mp odd), even, induction,
        join_next, toInt_sshiftRight_one, Nat.cast_zero,
        BitVec.ofInt_ofNat, BitVec.mul_zero, BitVec.add_zero]

/-! ## The product -/

theorem join_multLoop (a b : Word) : join (multLoop 32 a b 0#32 0#32 0#32).1
        (multLoop 32 a b 0#32 0#32 0#32).2 =
      BitVec.ofInt (32 + 32) (a.toNat * b.toNat) := by
  have factor : join 0#32 b = BitVec.ofInt (32 + 32) b.toNat := by
    apply BitVec.eq_of_toNat_eq
    rw [toNat_join]
    simp
    omega
  have bits : a.toInt % 2 ^ 32 = a.toNat := by
    rw [BitVec.toInt_eq_toNat_cond]
    omega
  rw [multLoop_eq, join_zero, BitVec.zero_add, factor, bits, ← BitVec.ofInt_mul, mul_comm]

/-- The number which a factor stands for. -/
def factor (signedArith : Bool) (word : Word) : Int :=
  if signedArith then word.toInt else word.toNat

/-- `Mult` replaces a negative factor by its negation. -/
def isNegative (signedArith : Bool) (word : Word) : Bool :=
  signedArith && word.slt 0#32

theorem toNat_magnitude (signedArith : Bool) (word : Word) :
    ((if isNegative signedArith word then -word else word).toNat : Int) =
      if isNegative signedArith word then -factor signedArith word
      else factor signedArith word := by
  have value := BitVec.toInt_eq_toNat_cond word
  unfold isNegative factor
  cases signedArith with
  | false => rfl
  | true =>
    have negative : word.slt 0#32 = true ↔ word.toInt < 0 :=
      BitVec.slt_iff_toInt_lt
    simp only [Bool.true_and, if_true, negative]
    split
    · rw [BitVec.toNat_neg]
      omega
    · omega

/-- The end of `Mult`, which negates the product of the absolute values. -/
def withSign (negative : Bool) (product : Word × Word) : Word × Word :=
  if negative then
    (if ~~~product.2 + 1#32 = 0#32 then ~~~product.1 + 1#32
      else ~~~product.1, ~~~product.2 + 1#32)
  else product

theorem join_withSign (negative : Bool) (product : Word × Word) :
    join (withSign negative product).1 (withSign negative product).2 =
      if negative then -join product.1 product.2
      else join product.1 product.2 := by
  cases negative with
  | false => rfl
  | true => exact (join_neg (by decide) product.1 product.2).symm

theorem mult_eq {a b : Word} (signedArith : Bool) (nonzero : ¬(a = 0#32 ∨ b = 0#32)) :
    mult a b signedArith = withSign (isNegative signedArith a != isNegative signedArith b)
        (multLoop 32 (if isNegative signedArith a then -a else a)
          (if isNegative signedArith b then -b else b) 0#32 0#32
          0#32) := by
  unfold mult
  rw [if_neg nonzero]
  rfl

theorem factor_zero (signedArith : Bool) : factor signedArith 0#32 = 0 := by
  cases signedArith with
  | false | true => rfl

theorem join_mult (a b : Word) (signedArith : Bool) :
    join (mult a b signedArith).1 (mult a b signedArith).2 = BitVec.ofInt (32 + 32)
        (factor signedArith a * factor signedArith b) := by
  by_cases zero : a = 0#32 ∨ b = 0#32
  · have product : factor signedArith a * factor signedArith b = 0 := by
      rcases zero with rfl | rfl
      · rw [factor_zero, zero_mul]
      · rw [factor_zero, mul_zero]
    unfold mult
    rw [if_pos zero, product]
    simp
  · rw [mult_eq signedArith zero, join_withSign, join_multLoop,
      toNat_magnitude, toNat_magnitude, ← BitVec.ofInt_neg, ← apply_ite]
    congr 1
    cases isNegative signedArith a with
    | false | true =>
      cases isNegative signedArith b with
      | false | true => simp

theorem abs_toInt_le (word : Word) : |word.toInt| ≤ 2147483648 := by
  have range := toInt_inRange word
  rw [abs_le]
  exact ⟨range.1, range.2.le⟩

/-- `Mult` computes the two words of the exact product, of the signed or of
the unsigned values. -/
theorem mult_exact (a b : Word) :
    2 ^ 32 * (mult a b true).1.toInt + (mult a b true).2.toNat =
        a.toInt * b.toInt ∧
      2 ^ 32 * (mult a b false).1.toNat + (mult a b false).2.toNat = a.toNat * b.toNat := by
  constructor
  · have bound : |a.toInt * b.toInt| ≤ 2147483648 * 2147483648 := by
      rw [abs_mul]
      exact mul_le_mul (abs_toInt_le a) (abs_toInt_le b) (abs_nonneg _) (by decide)
    rw [abs_le] at bound
    have signed := congrArg BitVec.toInt (join_mult a b true)
    rw [toInt_join (by decide)] at signed
    rw [signed]
    apply BitVec.toInt_ofInt_eq_self (by decide)
    · exact le_trans (by decide) bound.1
    · exact lt_of_le_of_lt bound.2 (by decide)
  · have bound : a.toNat * b.toNat < 2 ^ (32 + 32) := by
      rw [pow_add]
      exact Nat.mul_lt_mul'' a.isLt b.isLt
    have product : factor false a * factor false b =
        ((a.toNat * b.toNat : Nat) : Int) := (Nat.cast_mul _ _).symm
    have unsigned := congrArg BitVec.toNat (join_mult a b false)
    rw [toNat_join, product, BitVec.ofInt_natCast, BitVec.toNat_ofNat,
      Nat.mod_eq_of_lt bound] at unsigned
    exact unsigned

end Mult

end Nachos
