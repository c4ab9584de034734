import Nachos.BitMap

/-!
# The disk

Sectors are the unit of transfer.  `readSector` and `writeSector` stand for
the synchronous interface to the simulated disk: a read returns what was last
written to the sector, and a sector number outside the disk fails the range
check of the device.
-/

open Words

namespace Nachos

def sectorSize : Nat := 512

theorem sectorSize_eq : (sectorSize : Int) = 512 := rfl

def sectorsPerTrack : Nat := 32

def numTracks : Nat := 32

def numSectors : Nat := sectorsPerTrack * numTracks

abbrev SectorIndex := Fin numSectors

theorem sector_inRange (sector : SectorIndex) : InRange (sector.val : Int) := by
  have bound : sector.val < 1024 := sector.isLt
  unfold InRange
  omega

theorem divRoundDown_sectorSize (n : Int) :
    (0 ≤ n ∧ divRoundDown n sectorSize = n / 512) ∨
      (n < 0 ∧ divRoundDown n sectorSize = -((-n) / 512)) := by
  have size := sectorSize_eq
  unfold divRoundDown
  rw [size]
  by_cases nonneg : 0 ≤ n
  · exact .inl ⟨nonneg, Int.tdiv_eq_ediv_of_nonneg nonneg⟩
  · refine .inr ⟨by omega, ?_⟩
    rw [← Int.tdiv_eq_ediv_of_nonneg (by omega : 0 ≤ -n), Int.neg_tdiv, Int.neg_neg]

theorem divRoundUp_sectorSize (n : Int) :
    (0 ≤ n ∧ divRoundUp n sectorSize = (n + 511) / 512) ∨
      (n < 0 ∧ divRoundUp n sectorSize = -((-n) / 512)) := by
  have size := sectorSize_eq
  have down := divRoundDown_sectorSize n
  unfold divRoundDown at down
  unfold divRoundUp
  rw [size] at down ⊢
  rw [Int.tmod_def]
  by_cases nonneg : 0 ≤ n
  · refine .inl ⟨nonneg, ?_⟩
    split <;> omega
  · refine .inr ⟨by omega, ?_⟩
    split <;> omega

abbrev Sector := Fin sectorSize → Byte

namespace Sector

/-- The contents of a sector as a byte image. -/
def byte (sector : Sector) (offset : Nat) : Byte :=
  if inside : offset < sectorSize then sector ⟨offset, inside⟩ else 0#8

/-- The sector written from a byte image. -/
def ofBytes (image : Nat → Byte) : Sector :=
  fun offset => image offset.val

theorem byte_ofBytes (image : Nat → Byte) {offset : Nat} (inside : offset < sectorSize) :
    (ofBytes image).byte offset = image offset := by
  simp [byte, ofBytes, inside]

end Sector

structure Disk where
  sectors : SectorIndex → Sector

namespace Disk

/-- The `ASSERT` on the sector number in `Disk::ReadRequest` and
`Disk::WriteRequest`. -/
def checkSector (sectorNumber : Int) : Result SectorIndex :=
  BitMap.checkIndex numSectors sectorNumber

def readSector (disk : Disk) (sectorNumber : Int) : Result Sector := do
  let sector ← checkSector sectorNumber
  return disk.sectors sector

/-- The disk with the contents of one sector replaced. -/
def set (disk : Disk) (sector : SectorIndex) (data : Sector) : Disk :=
  ⟨Function.update disk.sectors sector data⟩

def writeSector (disk : Disk) (sectorNumber : Int) (data : Sector) :
    Result Disk := do
  let sector ← checkSector sectorNumber
  return disk.set sector data

@[simp] theorem set_same (disk : Disk) (sector : SectorIndex)
    (data : Sector) : (disk.set sector data).sectors sector = data := by
  simp [set]

theorem set_other (disk : Disk) {sector other : SectorIndex}
    (data : Sector) (different : other ≠ sector) :
    (disk.set sector data).sectors other = disk.sectors other := by
  simp [set, different]

@[simp] theorem checkSector_val (sector : SectorIndex) :
    checkSector (sector.val : Int) = .ok sector :=
  BitMap.checkIndex_val sector

@[simp] theorem readSector_val (disk : Disk) (sector : SectorIndex) :
    disk.readSector (sector.val : Int) = .ok (disk.sectors sector) := by
  simp only [readSector, checkSector_val, ok_bind]
  rfl

@[simp] theorem writeSector_val (disk : Disk) (sector : SectorIndex)
    (data : Sector) :
    disk.writeSector (sector.val : Int) data = .ok (disk.set sector data) := by
  simp only [writeSector, checkSector_val, ok_bind]
  rfl

end Disk

end Nachos
