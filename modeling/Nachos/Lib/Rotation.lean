import Mathlib

/-!
# Rotation

A platter of `count` sectors turns under a head by one sector in `slot`
ticks.  At a multiple of `slot` a sector starts to pass under the head.
-/

namespace Rotation

/-- The sector under the head. -/
def underHead (slot count time : Int) : Int := time / slot % count

/-- The first boundary between sectors at or after a moment. -/
def roundUp (slot time : Int) : Int := time + -time % slot

/-- How many sectors pass before `target` does, from the sector `current`
on. -/
def delay (count target current : Int) : Int := (target - current) % count

/-- The moments from `time` on at which `target` starts to pass. -/
def passages (slot count target time : Int) : Set Int :=
  {start | time ≤ start ∧ slot ∣ start ∧ underHead slot count start = target % count}

section

variable {slot count : Int}

theorem dvd_roundUp (slot time : Int) : slot ∣ roundUp slot time := by
  refine ⟨-(-time / slot), ?_⟩
  have split := Int.mul_ediv_add_emod (-time) slot
  unfold roundUp
  rw [mul_neg]
  omega

theorem le_roundUp (turns : 0 < slot) (time : Int) : time ≤ roundUp slot time := by
  have nonneg := Int.emod_nonneg (-time) turns.ne'
  unfold roundUp
  omega

theorem roundUp_lt (turns : 0 < slot) (time : Int) : roundUp slot time < time + slot := by
  have bound := Int.emod_lt_of_pos (-time) turns
  unfold roundUp
  omega

/-- No boundary lies between a moment and the first boundary. -/
theorem roundUp_le {time boundary : Int} (turns : 0 < slot)
    (later : time ≤ boundary) (divides : slot ∣ boundary) :
    roundUp slot time ≤ boundary := by
  by_contra before
  obtain ⟨first, firstEq⟩ := dvd_roundUp slot time
  obtain ⟨other, rfl⟩ := divides
  have close := roundUp_lt turns time
  have smaller : slot * other < slot * first := by omega
  have next : other + 1 ≤ first :=
    (mul_lt_mul_iff_right₀ turns).mp smaller
  have atLeast : slot * (other + 1) ≤ slot * first :=
    mul_le_mul_of_nonneg_left next turns.le
  rw [mul_add, mul_one] at atLeast
  omega

theorem isLeast_roundUp (turns : 0 < slot) (time : Int) :
    IsLeast {boundary | time ≤ boundary ∧ slot ∣ boundary} (roundUp slot time) := by
  constructor
  · exact ⟨le_roundUp turns time, dvd_roundUp slot time⟩
  · rintro boundary ⟨later, divides⟩
    exact roundUp_le turns later divides

theorem delay_nonneg (counts : 0 < count) (target current : Int) : 0 ≤ delay count target current :=
  Int.emod_nonneg _ counts.ne'

theorem delay_lt (counts : 0 < count) (target current : Int) : delay count target current < count :=
  Int.emod_lt_of_pos _ counts

theorem add_delay_emod (count target current : Int) :
    (current + delay count target current) % count = target % count := by
  unfold delay
  rw [Int.add_emod_emod, add_sub_cancel]

theorem delay_le {target current later : Int} (counts : 0 < count)
    (order : current ≤ later) (same : later % count = target % count) :
    delay count target current ≤ later - current := by
  have equal : delay count target current = (later - current) % count := by
    unfold delay
    exact (Int.ModEq.sub_right current same).symm
  have split := Int.mul_ediv_add_emod (later - current) count
  have quotient : 0 ≤ (later - current) / count :=
    Int.ediv_nonneg (by omega) counts.le
  have turned := mul_nonneg counts.le quotient
  omega

/-- A passage lasts for one slot. -/
theorem underHead_of_passage {target first start time : Int}
    (turns : 0 < slot) (passage : start ∈ passages slot count target first)
    (lower : start ≤ time) (upper : time < start + slot) :
    underHead slot count time = target % count := by
  obtain ⟨-, ⟨current, rfl⟩, same⟩ := passage
  have inside : (time - slot * current) / slot = 0 :=
    Int.ediv_eq_zero_of_lt (by omega) (by omega)
  have split : time = time - slot * current + slot * current := by omega
  have quotient : time / slot = current := by
    rw [split, Int.add_mul_ediv_left _ _ turns.ne', inside, zero_add]
  unfold underHead at same ⊢
  rw [quotient, ← same, Int.mul_ediv_cancel_left _ turns.ne']

/-- From a boundary on, the target first passes after its delay. -/
theorem isLeast_passages (turns : 0 < slot) (counts : 0 < count)
    (target : Int) {boundary : Int} (divides : slot ∣ boundary) :
    IsLeast (passages slot count target boundary)
      (boundary + delay count target (boundary / slot) * slot) := by
  obtain ⟨current, rfl⟩ := divides
  rw [Int.mul_ediv_cancel_left current turns.ne']
  have whole : slot * current + delay count target current * slot =
      slot * (current + delay count target current) := by ring
  rw [whole]
  constructor
  · refine ⟨?_, dvd_mul_right _ _, ?_⟩
    · apply mul_le_mul_of_nonneg_left _ turns.le
      have nonneg := delay_nonneg counts target current
      omega
    · unfold underHead
      rw [Int.mul_ediv_cancel_left _ turns.ne', add_delay_emod]
  · rintro start ⟨later, ⟨other, rfl⟩, same⟩
    unfold underHead at same
    rw [Int.mul_ediv_cancel_left _ turns.ne'] at same
    have order : current ≤ other := (mul_le_mul_iff_right₀ turns).mp later
    have least := delay_le counts order same
    apply mul_le_mul_of_nonneg_left _ turns.le
    omega

/-- Passages start at boundaries, so they may be counted from the first
one. -/
theorem passages_roundUp (turns : 0 < slot) (target time : Int) :
    passages slot count target time = passages slot count target (roundUp slot time) := by
  ext start
  constructor
  · rintro ⟨later, divides, same⟩
    exact ⟨roundUp_le turns later divides, divides, same⟩
  · rintro ⟨later, divides, same⟩
    exact ⟨(le_roundUp turns time).trans later, divides, same⟩

/-- The target has passed completely between two boundaries exactly when
more sectors have passed than its delay. -/
theorem exists_passage_iff (turns : 0 < slot) (counts : 0 < count)
    (target : Int) {first last : Int} (divides : slot ∣ first) :
    (∃ start ∈ passages slot count target first, start + slot ≤ last) ↔
      delay count target (first / slot) < (last - first) / slot := by
  have least := isLeast_passages turns counts target divides
  have complete : (∃ start ∈ passages slot count target first,
      start + slot ≤ last) ↔
      first + delay count target (first / slot) * slot + slot ≤ last := by
    constructor
    · rintro ⟨start, passage, done⟩
      have order := least.2 passage
      omega
    · intro done
      exact ⟨_, least.1, done⟩
  rw [complete, ← Int.add_one_le_iff, Int.le_ediv_iff_mul_le turns, add_mul]
  omega

end

end Rotation
