import Nachos.FileSys.FileSystem
import Nachos.FileSys.Transfer

/-!
# Free map and directory on disk

Both metadata files fit into a single sector.  The bytes of that sector
determine the object in memory: fetching it returns the decoded sector, and
writing it back makes the sector decode to it and touches nothing else.
-/

open Words Memory

namespace Nachos

namespace OpenFile

variable {sector : SectorIndex} {size : Nat}

private theorem fileByte_single (disk : Disk) (sector : SectorIndex)
    {offset : Nat} (inside : offset < 512) :
    disk.fileByte [sector] offset = (disk.sectors sector).byte offset := by
  have quotient : offset / sectorSize = 0 := Nat.div_eq_of_lt inside
  have remainder : offset % sectorSize = offset := Nat.mod_eq_of_lt inside
  simp [Disk.fileByte, quotient, remainder]

private theorem transferCount_whole (size : Nat) :
    transferCount (size : Int) (size : Int) 0 = size := by
  unfold transferCount
  split <;> omega

variable (file : OpenFile) (maps : file.hdr.Maps [sector]) (length : file.hdr.fileLength = size)
  (small : size ≤ 512) (disk : Disk)
include file maps length small disk

theorem readAt_single (fresh : Nat → Byte) :
    file.readAt disk size 0 fresh = .ok (slice (disk.sectors sector).byte 0 size) := by
  rw [file.readAt_covered maps.covers disk size 0 (by omega) (by omega)
    fresh, length, transferCount_whole]
  congr 1
  apply slice_congr
  intro offset _ inside
  exact fileByte_single disk sector (by omega)

theorem writeAt_single (data : List Byte) (whole : data.length = size) (fresh : Nat → Nat → Byte) :
    ∃ written, file.writeAt disk data size 0 fresh =
        .ok ((size : Int), written) ∧
      (∀ other, other ≠ sector →
        written.sectors other = disk.sectors other) ∧
      ∀ offset, offset < size → (written.sectors sector).byte offset = data.getD offset 0#8 := by
  have count : transferCount file.hdr.fileLength size 0 = size := by
    rw [length, transferCount_whole]
  obtain ⟨written, success, frame, contents⟩ :=
    file.writeAt_covered maps.covers disk size 0 (by omega) (by omega) data
      (by rw [count, whole]) fresh
  rw [count] at success contents
  refine ⟨written, success, ?_, ?_⟩
  · intro other different
    exact frame other fun _ _ _ same =>
      different (List.mem_singleton.mp (List.mem_of_getElem? same))
  · intro offset inside
    have stored := contents offset (by rw [length]; omega)
    rw [fileByte_single written sector (by omega)] at stored
    rw [stored, splice_inside _ (by simp) (by simp; omega)]
    simp [List.take_of_length_le (Nat.le_of_eq whole)]

end OpenFile

/-! ## The directory -/

namespace Directory

variable {tableSize : Nat}

theorem ofImage_congr {left right : Nat → Byte}
    (agree : ∀ offset, offset < tableSize * directoryEntrySize → left offset = right offset) :
    (ofImage left : Directory tableSize) = ofImage right := by
  have size : directoryEntrySize = 20 := rfl
  rw [size] at agree
  simp only [ofImage, DirectoryEntry.ofImage, wordAt, mk.injEq, size]
  funext index
  have inside := index.isLt
  have name : (fun position : Fin (fileNameMaxLen + 1) =>
      left (20 * index.val + 8 + position.val)) =
      fun position => right (20 * index.val + 8 + position.val) := by
    funext position
    have bound : position.val < 10 := position.isLt
    exact agree _ (by omega)
  rw [agree (20 * index.val) (by omega),
    agree (20 * index.val + 4 + 3) (by omega),
    agree (20 * index.val + 4 + 2) (by omega),
    agree (20 * index.val + 4 + 1) (by omega),
    agree (20 * index.val + 4) (by omega), name]

theorem byteSize_eq (small : tableSize * directoryEntrySize ≤ 512) :
    byteSize tableSize = ((tableSize * directoryEntrySize : Nat) : Int) := by
  unfold byteSize
  rw [← Nat.cast_mul, wrap32_eq (by unfold InRange; omega)]

section Stored

variable {file : OpenFile} {sector : SectorIndex} (maps : file.hdr.Maps [sector])
  (length : file.hdr.fileLength = (tableSize * directoryEntrySize : Nat))
  (small : tableSize * directoryEntrySize ≤ 512)

include maps length small

theorem fetchFrom_stored (directory : Directory tableSize) (disk : Disk) (fresh : Nat → Byte) :
    directory.fetchFrom file disk fresh = .ok (ofImage (disk.sectors sector).byte) := by
  simp only [fetchFrom, byteSize_eq small]
  rw [file.readAt_single maps length small]
  simp only [ok_bind]
  refine congrArg Except.ok (ofImage_congr ?_)
  intro offset inside
  rw [splice_slice, if_pos (by omega), Nat.sub_zero, Nat.zero_add]

theorem writeBack_stored (directory : Directory tableSize) (disk : Disk)
    (fresh : Nat → Nat → Byte) :
    ∃ written, directory.writeBack file disk fresh = .ok written ∧
      (∀ other, other ≠ sector →
        written.sectors other = disk.sectors other) ∧
      ofImage (written.sectors sector).byte = directory := by
  obtain ⟨written, success, frame, contents⟩ :=
    file.writeAt_single maps length small disk
      (slice directory.image 0 (tableSize * directoryEntrySize))
      (slice_length _ _ _) fresh
  refine ⟨written, ?_, frame, ?_⟩
  · simp only [writeBack, byteSize_eq small, success, ok_bind]
    rfl
  · apply ofImage_eq
    intro offset inside
    rw [contents offset inside, slice_getD _ inside, Nat.zero_add]

end Stored

end Directory

/-! ## The free map -/

namespace BitMap

variable {numBits : Nat}

theorem ofImage_congr {left right : Nat → Byte}
    (agree : ∀ offset, offset < numWords numBits * 4 → left offset = right offset) :
    (ofImage left : BitMap numBits) = ofImage right := by
  simp only [ofImage, wordAt, mk.injEq]
  funext index
  have inside := index.isLt
  rw [agree (4 * index.val) (by omega),
    agree (4 * index.val + 3) (by omega),
    agree (4 * index.val + 2) (by omega),
    agree (4 * index.val + 1) (by omega)]

theorem ofImage_eq (bits : BitMap numBits) {memory : Nat → Byte}
    (agree : ∀ offset, offset < numWords numBits * 4 → memory offset = bits.image offset) :
    ofImage memory = bits := by
  cases bits with
  | mk map =>
    simp only [ofImage, mk.injEq]
    funext index
    have inside := index.isLt
    rw [wordAt_wordsToBytes _ index.val memory (by
      intro offset lower upper
      exact agree offset (by omega))]
    simp

theorem byteSize_eq (small : numWords numBits * 4 ≤ 512) :
    byteSize numBits = ((numWords numBits * 4 : Nat) : Int) := by
  unfold byteSize
  rw [wrap32_eq (by unfold InRange; omega)]
  omega

section Stored

variable {file : OpenFile} {sector : SectorIndex} (maps : file.hdr.Maps [sector])
  (length : file.hdr.fileLength = (numWords numBits * 4 : Nat))
  (small : numWords numBits * 4 ≤ 512)

include maps length small

theorem fetchFrom_stored (bits : BitMap numBits) (disk : Disk) (fresh : Nat → Byte) :
    bits.fetchFrom file disk fresh = .ok (ofImage (disk.sectors sector).byte) := by
  simp only [fetchFrom, byteSize_eq small]
  rw [file.readAt_single maps length small]
  simp only [ok_bind]
  refine congrArg Except.ok (ofImage_congr ?_)
  intro offset inside
  rw [splice_slice, if_pos (by omega), Nat.sub_zero, Nat.zero_add]

theorem writeBack_stored (bits : BitMap numBits) (disk : Disk) (fresh : Nat → Nat → Byte) :
    ∃ written, bits.writeBack file disk fresh = .ok written ∧
      (∀ other, other ≠ sector →
        written.sectors other = disk.sectors other) ∧
      ofImage (written.sectors sector).byte = bits := by
  obtain ⟨written, success, frame, contents⟩ :=
    file.writeAt_single maps length small disk (slice bits.image 0 (numWords numBits * 4))
      (slice_length _ _ _) fresh
  refine ⟨written, ?_, frame, ?_⟩
  · simp only [writeBack, byteSize_eq small, success, ok_bind]
    rfl
  · apply ofImage_eq
    intro offset inside
    rw [contents offset inside, slice_getD _ inside, Nat.zero_add]

end Stored

end BitMap

end Nachos
