import Nachos.Lib.Update
import Nachos.Machine.Translation

/-!
# Single bytes of user memory

Where a byte of user memory is does not depend on the use and dirty bits, so
accesses to other bytes leave it where it is.
-/

open Words Memory Function

namespace Nachos

namespace Mmu

/-- The physical address of a byte. -/
def locate (mmu : Mmu) (virtAddr : Word) (writing : Bool) : Option Nat :=
  (mmu.translate virtAddr 1 writing).toOption.map Prod.fst

variable {mmu : Mmu} {physAddr : Nat} {virtAddr : Word} {writing : Bool}

theorem locate_eq_some_iff :
    mmu.locate virtAddr writing = some physAddr ↔
      ∃ changed, mmu.translate virtAddr 1 writing = .ok (physAddr, changed) := by
  unfold locate
  cases mmu.translate virtAddr 1 writing with
  | error refusal => simp [Except.toOption]
  | ok result =>
    obtain ⟨address, changed⟩ := result
    simp [Except.toOption]

theorem translateEntry_mapping {entry changed : TranslationEntry} {offset size : Nat}
    (success : translateEntry entry offset size writing = .ok (physAddr, changed)) :
    changed.mapping = entry.mapping := by
  rw [(translateEntry_inv success).1]
  rfl

theorem translate_mapping {changed : Mmu} {size : Nat}
    (success : mmu.translate virtAddr size writing = .ok (physAddr, changed)) :
    changed.mapping = mmu.mapping := by
  unfold translate at success
  split at success
  · cases success
  · simp only at success
    split at success
    · rename_i paged unbuffered
      split at success
      · cases success
      · rename_i entry stored
        split at success
        · cases success
        · obtain ⟨⟨address, entry'⟩, checked, success⟩ := bind_ok_inv success
          cases success
          simp only [mapping, paged, unbuffered, Option.map_some]
          rw [map_set_eq _ _ stored (translateEntry_mapping checked)]
    · rename_i unpaged buffered
      split at success
      · cases success
      · rename_i index found
        obtain ⟨⟨address, entry'⟩, checked, success⟩ := bind_ok_inv success
        cases success
        simp only [mapping, unpaged, buffered, Option.map_some]
        congr 2
        exact funext (update_cases (translateEntry_mapping checked) fun _ _ => rfl)
    · cases success

theorem locate_iff_outcome :
    mmu.locate virtAddr writing = some physAddr ↔
      mmu.outcome virtAddr 1 writing = .ok physAddr := by
  rw [locate_eq_some_iff, outcome_ok_iff]

theorem locate_congr {left right : Mmu} (same : left.mapping = right.mapping) (virtAddr : Word)
    (writing : Bool) :
    left.locate virtAddr writing = right.locate virtAddr writing := by
  apply Option.ext
  intro physAddr
  rw [locate_iff_outcome, locate_iff_outcome, outcome_congr same]

theorem locate_reading (located : mmu.locate virtAddr true = some physAddr) :
    mmu.locate virtAddr false = some physAddr :=
  locate_iff_outcome.mpr (outcome_reading (locate_iff_outcome.mp located))

theorem locate_lt (located : mmu.locate virtAddr writing = some physAddr) :
    physAddr < memorySize := by
  obtain ⟨-, entry, -, checked⟩ := outcome_inv (locate_iff_outcome.mp located)
  exact (entryOutcome_ok_iff.mp checked).2.2.1

end Mmu

namespace Machine

theorem readMem_byte {machine : Machine} {addr : Word} {physAddr : Nat}
    (located : machine.mmu.locate addr false = some physAddr) :
    ∃ mmu, machine.readMem addr 1 =
        .ok ((machine.mainMemory physAddr).signExtend 32,
          { machine with mmu := mmu }) ∧
      mmu.mapping = machine.mmu.mapping := by
  obtain ⟨mmu, translated⟩ := Mmu.locate_eq_some_iff.mp located
  refine ⟨mmu, ?_, Mmu.translate_mapping translated⟩
  unfold readMem translate
  rw [translated]
  rfl

theorem writeMem_byte {machine : Machine} {addr : Word} {physAddr : Nat}
    (located : machine.mmu.locate addr true = some physAddr)
    (value : Byte) :
    ∃ mmu, machine.writeMem addr 1 (value.signExtend 32) = .ok ((), { machine with
          mmu := mmu
          mainMemory :=
            update machine.mainMemory physAddr value }) ∧
      mmu.mapping = machine.mmu.mapping := by
  obtain ⟨mmu, translated⟩ := Mmu.locate_eq_some_iff.mp located
  refine ⟨mmu, ?_, Mmu.translate_mapping translated⟩
  have low : byteOf (value.signExtend 32) 0 = value := by
    unfold byteOf
    ext index inside
    have wide : index < 32 := by omega
    simp [wide, BitVec.getElem_signExtend, inside]
  have stored : splice machine.mainMemory physAddr [value] =
      update machine.mainMemory physAddr value := by
    funext address
    by_cases here : address = physAddr
    · subst here
      rw [splice_inside _ (Nat.le_refl _) (Nat.lt_add_one _), Nat.sub_self, update_self]
      rfl
    · rw [update_of_ne here, splice_outside]
      simp only [List.length_singleton]
      omega
  unfold writeMem translate
  rw [translated]
  simp only [ok_bind, storedBytes, low, stored]

end Machine

end Nachos
