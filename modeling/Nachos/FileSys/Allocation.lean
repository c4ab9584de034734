import Nachos.FileSys.FileHeader

/-!
# Allocating data sectors for any size

`FileHeader::Allocate` compares the number of sectors with the free sectors
and not with the size of `dataSectors`.  It keeps to the array exactly if
the sectors fit into it, or if there are too few free ones to begin with.
-/

open Words

namespace Nachos

namespace FileHeader

variable {header : FileHeader} {freeMap : BitMap Nachos.numSectors}

/-- `divRoundUp` by the sector size is the quotient rounded up, also for
negative numbers. -/
theorem divRoundUp_eq_ceil (size : Int) :
    divRoundUp size sectorSize = (size + (sectorSize - 1)) / sectorSize := by
  have unit := sectorSize_eq
  have rounded := divRoundUp_sectorSize size
  rw [unit] at rounded ⊢
  omega

/-- A loop which goes on behind the end of `dataSectors` writes there. -/
theorem allocateSectors_overrun (count index : Nat) (header : FileHeader)
    (freeMap : BitMap Nachos.numSectors) (inside : index ≤ numDirect)
    (long : numDirect < index + count) :
    allocateSectors count index header freeMap = .error .bounds := by
  induction count generalizing index header freeMap with
  | zero => omega
  | succ count induction =>
    by_cases last : index < numDirect
    · simp only [allocateSectors, setDataSector, dif_pos last, ok_bind]
      apply induction
      · exact last
      · omega
    · simp only [allocateSectors, setDataSector, dif_neg last]
      rfl

theorem allocate_overrun {fileSize : Int} (room : divRoundUp fileSize sectorSize ≤ freeMap.numClear)
    (long : numDirect < divRoundUp fileSize sectorSize) :
    header.allocate freeMap fileSize = .error .bounds := by
  have enough : ¬(freeMap.numClear : Int) <
      divRoundUp fileSize sectorSize := not_lt.mpr room
  simp only [allocate, if_neg enough]
  rw [allocateSectors_overrun _ _ _ _ (Nat.zero_le _) (by omega)]
  rfl

theorem allocate_direct {fileSize : Int} (room : divRoundUp fileSize sectorSize ≤ freeMap.numClear)
    (direct : divRoundUp fileSize sectorSize ≤ numDirect) :
    ∃ allocated after, header.allocate freeMap fileSize = .ok (true, allocated, after) := by
  have enough : ¬(freeMap.numClear : Int) <
      divRoundUp fileSize sectorSize := not_lt.mpr room
  simp only [allocate, if_neg enough]
  rw [allocateSectors_eq _ _ _ _ (by omega)]
  exact ⟨_, _, rfl⟩

/-- What `Allocate` owes its caller: it writes no entry behind `dataSectors`,
returns `TRUE` only for sizes which fit, and leaves the free map alone if it
returns `FALSE`. -/
def AllocateContract (header : FileHeader)
    (freeMap : BitMap Nachos.numSectors) (fileSize : Word) : Prop :=
  ∃ granted allocated after,
    header.allocate freeMap fileSize.toInt =
      .ok (granted, allocated, after) ∧
    (granted = true →
      (fileSize.toInt + (sectorSize - 1)) / sectorSize ≤ numDirect) ∧
    (granted = false → after = freeMap)

theorem allocate_contract_iff (header : FileHeader)
    (freeMap : BitMap Nachos.numSectors) (fileSize : Word) :
    AllocateContract header freeMap fileSize ↔
      freeMap.numClear <
          (fileSize.toInt + (sectorSize - 1)) / sectorSize ∨
        (fileSize.toInt + (sectorSize - 1)) / sectorSize ≤ numDirect := by
  unfold AllocateContract
  rw [← divRoundUp_eq_ceil]
  constructor
  · rintro ⟨granted, allocated, after, success, fits, -⟩
    by_contra neither
    obtain ⟨room, long⟩ := not_or.mp neither
    rw [allocate_overrun (not_lt.mp room) (not_le.mp long)] at success
    cases success
  · intro condition
    by_cases full : (freeMap.numClear : Int) < divRoundUp fileSize.toInt sectorSize
    · obtain ⟨partialHeader, refused⟩ := allocate_refused header full
      refine ⟨false, partialHeader, freeMap, refused, ?_, fun _ => rfl⟩
      rintro ⟨⟩
    · have direct := condition.resolve_left full
      obtain ⟨allocated, after, success⟩ :=
        @allocate_direct header freeMap _ (not_lt.mp full) direct
      refine ⟨true, allocated, after, success, fun _ => direct, ?_⟩
      rintro ⟨⟩

/-- On an empty disk a file of one byte more than `MaxFileSize` takes one
sector more than the header has room for. -/
theorem large_file_overruns_header :
    (ofImage fun _ => 0#8).allocate (BitMap.new fun _ => 0#32) 64513 = .error .bounds := by
  have count : divRoundUp 64513 sectorSize = 127 := by decide
  have free : (BitMap.new (fun _ => 0#32) : BitMap Nachos.numSectors).numClear = 1024 := by
    simp only [BitMap.numClear, BitMap.test_new, Bool.not_false,
      List.countP_true, List.length_finRange]
    rfl
  apply allocate_overrun
  · rw [count, free]
    decide
  · rw [count]
    decide

end FileHeader

end Nachos
