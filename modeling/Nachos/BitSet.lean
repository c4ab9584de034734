import Nachos.BitMap
import Nachos.Lib.Transition

/-!
# Bitmaps as sets

A `BitMap` stands for the set of the indices whose bits are set.  Whatever
the fresh words held, every sequence of calls is answered as the set answers
it.
-/

open Words Transition

namespace Nachos

/-- The calls of a client, with an index where there is one. -/
inductive BitMapCall (numBits : Nat) where
  | mark (which : Fin numBits)
  | clear (which : Fin numBits)
  | test (which : Fin numBits)
  | find
  | numClear

inductive BitMapReply where
  | done
  | flag (isSet : Bool)
  | number (value : Int)
  deriving DecidableEq

/-! ## The set -/

/-- What a set of indices does at a call. -/
inductive IndexSet.Step {numBits : Nat} (members : Finset (Fin numBits)) :
    BitMapCall numBits × BitMapReply → Finset (Fin numBits) → Prop where
  | mark (which : Fin numBits) :
      Step members (.mark which, .done) (insert which members)
  | clear (which : Fin numBits) :
      Step members (.clear which, .done) (members.erase which)
  | test (which : Fin numBits) :
      Step members (.test which, .flag (decide (which ∈ members))) members
  | found (which : Fin numBits) :
      which ∉ members → (∀ other, other < which → other ∈ members) →
      Step members (.find, .number which.val) (insert which members)
  | full :
      (∀ which, which ∈ members) →
      Step members (.find, .number (-1)) members
  | numClear :
      Step members (.numClear, .number (numBits - members.card)) members

namespace BitMap

variable {numBits : Nat}

/-! ## The bitmap -/

/-- One call, with the `ASSERT` on its index. -/
def perform (bits : BitMap numBits) : BitMapCall numBits → Result (BitMapReply × BitMap numBits)
  | .mark which => do
    let after ← bits.checkedMark which.val
    return (.done, after)
  | .clear which => do
    let after ← bits.checkedClear which.val
    return (.done, after)
  | .test which => do
    let isSet ← bits.checkedTest which.val
    return (.flag isSet, bits)
  | .find =>
    let (found, after) := bits.find
    .ok (.number found, after)
  | .numClear => .ok (.number bits.numClear, bits)

/-- A sequence of calls, each with its reply. -/
def performAll : BitMap numBits → List (BitMapCall numBits) →
    Result (List (BitMapCall numBits × BitMapReply) × BitMap numBits)
  | bits, [] => .ok ([], bits)
  | bits, call :: calls => do
    let (reply, after) ← bits.perform call
    let (labels, finish) ← performAll after calls
    return ((call, reply) :: labels, finish)

/-- The set bits are the members. -/
def Represents (bits : BitMap numBits) (members : Finset (Fin numBits)) :
    Prop :=
  ∀ which, bits.test which = decide (which ∈ members)

variable {bits : BitMap numBits} {members : Finset (Fin numBits)}

theorem represents_new (fresh : Fin (numWords numBits) → Word) : (new fresh).Represents ∅ := by
  intro which
  simp

section

variable (represents : bits.Represents members)
include represents

theorem Represents.mark (which : Fin numBits) :
    (bits.mark which).Represents (insert which members) := by
  intro other
  rw [test_mark, represents other]
  simp

theorem Represents.clear (which : Fin numBits) :
    (bits.clear which).Represents (members.erase which) := by
  intro other
  rw [test_clear, represents other]
  simp

theorem Represents.test_eq_false (which : Fin numBits) :
    bits.test which = false ↔ which ∉ members := by
  rw [represents which, decide_eq_false_iff_not]

theorem Represents.numClear : bits.numClear = numBits - members.card := by
  have complement : bits.clearBits = membersᶜ := by
    ext which
    simp [clearBits, represents.test_eq_false]
  rw [numClear_eq_card, complement, Finset.card_compl, Fintype.card_fin]

theorem Represents.find :
    (∃ which : Fin numBits, which ∉ members ∧
      (∀ other, other < which → other ∈ members) ∧
      bits.find = ((which.val : Int), bits.mark which)) ∨
    ((∀ which, which ∈ members) ∧ bits.find = (-1, bits)) := by
  by_cases room : 0 < bits.numClear
  · obtain ⟨which, unset, result⟩ := find_of_clear room
    obtain ⟨least, same, -, -, below⟩ :=
      find_inv result (Int.natCast_nonneg _)
    obtain rfl : which = least := Fin.ext (by exact_mod_cast same)
    refine .inl ⟨which, (represents.test_eq_false which).mp unset, ?_, result⟩
    intro other earlier
    have marked := below other earlier
    rw [represents other] at marked
    exact of_decide_eq_true marked
  · have full : bits.numClear = 0 := Nat.eq_zero_of_not_pos room
    refine .inr ⟨?_, find_of_full full⟩
    intro which
    by_contra absent
    have unset := (represents.test_eq_false which).mpr absent
    exact room (numClear_pos unset)

theorem Represents.perform (call : BitMapCall numBits) :
    ∃ reply after members', bits.perform call = .ok (reply, after) ∧
      IndexSet.Step members (call, reply) members' ∧
      after.Represents members' := by
  cases call with
  | mark which =>
    refine ⟨_, _, _, ?_, .mark which, represents.mark which⟩
    simp only [BitMap.perform, checkedMark, checkIndex_val, ok_bind]
    rfl
  | clear which =>
    refine ⟨_, _, _, ?_, .clear which, represents.clear which⟩
    simp only [BitMap.perform, checkedClear, checkIndex_val, ok_bind]
    rfl
  | test which =>
    refine ⟨_, bits, members, ?_, .test which, represents⟩
    simp only [BitMap.perform, checkedTest, checkIndex_val, ok_bind]
    rw [← represents which]
    rfl
  | find =>
    rcases represents.find with
      ⟨which, absent, least, result⟩ | ⟨full, result⟩
    · refine ⟨_, _, _, ?_, .found which absent least, represents.mark which⟩
      simp only [BitMap.perform, result]
    · refine ⟨_, _, _, ?_, .full full, represents⟩
      simp only [BitMap.perform, result]
  | numClear =>
    refine ⟨_, bits, members, ?_, .numClear, represents⟩
    have bound : members.card ≤ numBits := by
      simpa using members.card_le_univ
    simp only [BitMap.perform, represents.numClear, Nat.cast_sub bound]

theorem Represents.performAll (calls : List (BitMapCall numBits)) :
    ∃ labels finish members', bits.performAll calls = .ok (labels, finish) ∧
      labels.map Prod.fst = calls ∧
      Run IndexSet.Step members labels members' ∧
      finish.Represents members' := by
  induction calls generalizing bits members with
  | nil => exact ⟨[], bits, members, rfl, rfl, .refl, represents⟩
  | cons call calls induction =>
    obtain ⟨reply, after, middle, performed, step, kept⟩ :=
      represents.perform call
    obtain ⟨labels, finish, members', rest, same, run, final⟩ :=
      induction kept
    refine ⟨(call, reply) :: labels, finish, members', ?_, ?_, (Run.single step).append run, final⟩
    · simp only [BitMap.performAll, performed, ok_bind, rest]
      rfl
    · rw [List.map_cons, same]

end

/-- A new bitmap answers every sequence of calls as the empty set of indices
does, and in the end its set bits are the members. -/
theorem refines_index_set (numBits : Nat) (fresh : Fin (numWords numBits) → Word)
    (calls : List (BitMapCall numBits)) :
    ∃ labels finish members,
      (new fresh).performAll calls = .ok (labels, finish) ∧
      labels.map Prod.fst = calls ∧
      Run IndexSet.Step ∅ labels members ∧
      ∀ which, finish.test which = decide (which ∈ members) :=
  (represents_new fresh).performAll calls

end BitMap

end Nachos
