import Nachos.FileSys.OpenFile

/-!
# What reads and writes transfer

A header which `Covers` its length by a list of sectors gives the file a
logical content: the bytes of those sectors in order, up to the file length.
`readAt` returns a slice of that content, and `writeAt` splices its data into
it and leaves every sector outside the written range alone.  A header which
`Maps` the sectors lists them and no others.
-/

open Words Memory

namespace Nachos

/-- The header describes a file stored in exactly these sectors. -/
structure FileHeader.Maps (hdr : FileHeader)
    (sectors : List SectorIndex) : Prop where
  length_le : hdr.fileLength ≤ maxFileSize
  count : hdr.numSectors.toInt = divRoundUp hdr.fileLength sectorSize
  listed : hdr.sectorList = sectors.map (fun sector => (sector.val : Int))
  distinct : sectors.Nodup

/-- The byte at a logical offset of a file stored in `sectors`. -/
def Disk.fileByte (disk : Disk) (sectors : List SectorIndex) (offset : Nat) : Byte :=
  match sectors[offset / sectorSize]? with
  | some sector => (disk.sectors sector).byte (offset % sectorSize)
  | none => 0#8

namespace FileHeader.Maps

variable {hdr : FileHeader} {sectors : List SectorIndex}

theorem length_eq (maps : hdr.Maps sectors) :
    sectors.length = (divRoundUp hdr.fileLength sectorSize).toNat := by
  have lengths := congrArg List.length maps.listed
  have bound := divRoundUp_sectorSize_le maps.length_le
  simp only [FileHeader.sectorList, List.length_map, List.length_take,
    List.length_ofFn, maps.count] at lengths
  omega

theorem length_le_numDirect (maps : hdr.Maps sectors) : sectors.length ≤ numDirect := by
  have bound := divRoundUp_sectorSize_le maps.length_le
  have length := maps.length_eq
  omega

theorem dataSector_eq (maps : hdr.Maps sectors) {index : Nat} (inside : index < sectors.length) :
    ∃ word, hdr.dataSector (index : Int) = .ok word ∧
      word.toInt = ((sectors.get ⟨index, inside⟩).val : Int) := by
  have direct : index < numDirect :=
    Nat.lt_of_lt_of_le inside maps.length_le_numDirect
  refine ⟨hdr.dataSectors ⟨index, direct⟩, by
    simp [FileHeader.dataSector, direct], ?_⟩
  have counted : hdr.numSectors.toInt.toNat = sectors.length := by
    rw [maps.count, maps.length_eq]
  have entry := congrArg (fun entries => entries[index]?) maps.listed
  simp only [FileHeader.sectorList, counted, List.getElem?_map,
    List.getElem?_take_of_lt inside, List.getElem?_ofFn, direct,
    dite_true, Option.map_some, List.getElem?_eq_getElem inside,
    Option.some.injEq] at entry
  exact entry

end FileHeader.Maps

/-- The header lists these sectors, which have room for the whole file. -/
structure FileHeader.Covers (hdr : FileHeader)
    (sectors : List SectorIndex) : Prop where
  direct : sectors.length ≤ numDirect
  recorded : ∀ index (inside : index < sectors.length),
    ∃ word, hdr.dataSector (index : Int) = .ok word ∧
      word.toInt = ((sectors.get ⟨index, inside⟩).val : Int)
  room : hdr.fileLength ≤ sectors.length * sectorSize
  distinct : sectors.Nodup

namespace FileHeader.Covers

variable {hdr : FileHeader} {sectors : List SectorIndex}

theorem length_le (covers : hdr.Covers sectors) : hdr.fileLength ≤ 64512 := by
  have direct := covers.direct
  have room := covers.room
  have limit : numDirect = 126 := rfl
  rw [sectorSize_eq] at room
  omega

theorem inside {offset : Nat} (covers : hdr.Covers sectors)
    (below : (offset : Int) < hdr.fileLength) :
    offset / 512 < sectors.length := by
  have room := covers.room
  rw [sectorSize_eq] at room
  omega

end FileHeader.Covers

theorem FileHeader.Maps.covers {hdr : FileHeader}
    {sectors : List SectorIndex} (maps : hdr.Maps sectors) :
    hdr.Covers sectors := by
  constructor
  · exact maps.length_le_numDirect
  · intro index inside
    exact maps.dataSector_eq inside
  · have length := maps.length_eq
    have rounded := divRoundUp_sectorSize hdr.fileLength
    rw [sectorSize_eq]
    omega
  · exact maps.distinct

/-- The offset of sector `index` is that index again, as long as the product
fits a host integer. -/
theorem sectorIndex_of_offset {index : Int} (lower : -4194304 ≤ index) (upper : index < 4194304) :
    (wrap32 (index * sectorSize)).tdiv sectorSize = index := by
  rw [sectorSize_eq]
  have fits : InRange (index * 512) := by
    unfold InRange
    omega
  rw [wrap32_eq fits]
  exact Int.mul_tdiv_cancel _ (by decide)

namespace OpenFile

variable {hdr : FileHeader} {sectors : List SectorIndex}

private theorem byteToSector_eq (covers : hdr.Covers sectors) {index : Nat}
    (inside : index < sectors.length) :
    ∃ word, hdr.byteToSector (wrap32 ((index : Int) * sectorSize)) =
        .ok word ∧
      word.toInt = ((sectors.get ⟨index, inside⟩).val : Int) := by
  have direct : index < 126 :=
    Nat.lt_of_lt_of_le inside covers.direct
  unfold FileHeader.byteToSector
  rw [sectorIndex_of_offset (by omega) (by omega)]
  exact covers.recorded index inside

variable {first : Nat} {done : Nat}

theorem bufferOffset_eq (small : done < 126) :
    wrap32 ((((first + done : Nat) : Int) - (first : Int)) * sectorSize) =
      ((512 * done : Nat) : Int) := by
  rw [sectorSize_eq, wrap32_eq (by unfold InRange; omega)]
  omega

private theorem readSectors_succ (covers : hdr.Covers sectors) (disk : Disk)
    (inside : first + done < sectors.length) {buf : Block}
    (room : 512 * (done + 1) ≤ buf.size) (count : Nat) :
    readSectors hdr disk first (count + 1) ((first + done : Nat) : Int) buf =
      readSectors hdr disk first count ((first + (done + 1) : Nat) : Int) { buf with
          get := splice buf.get (512 * done) (slice
            (disk.sectors (sectors.get ⟨first + done, inside⟩)).byte 0
            sectorSize) } := by
  have direct := covers.direct
  have limit : numDirect = 126 := rfl
  have size : sectorSize = 512 := rfl
  obtain ⟨word, found, value⟩ := byteToSector_eq covers inside
  have next : ((first + done : Nat) : Int) + 1 = ((first + (done + 1) : Nat) : Int) := by omega
  simp only [readSectors, found, ok_bind, value, Disk.readSector_val,
    bufferOffset_eq (by omega : done < 126)]
  rw [Block.store_eq buf (by omega) (by simp only [slice_length]; omega), next]
  rfl

private theorem splice_sector (disk : Disk)
    (inside : first + done < sectors.length) (get : Nat → Byte) (offset : Nat) :
    splice get (512 * done) (slice (disk.sectors (sectors.get ⟨first + done, inside⟩)).byte 0
        sectorSize) offset =
      if 512 * done ≤ offset ∧ offset < 512 * (done + 1) then
        disk.fileByte sectors (512 * first + offset)
      else get offset := by
  have size : sectorSize = 512 := rfl
  rw [splice_slice]
  by_cases here : 512 * done ≤ offset ∧ offset < 512 * (done + 1)
  · have quotient : (512 * first + offset) / sectorSize = first + done := by
      rw [size]
      omega
    have remainder : (512 * first + offset) % sectorSize = offset - 512 * done := by
      rw [size]
      omega
    have entry : sectors[first + done]? = some (sectors.get ⟨first + done, inside⟩) := by
      simp [inside]
    rw [if_pos here, if_pos (by omega)]
    simp only [Disk.fileByte, quotient, entry, remainder, Nat.zero_add]
  · rw [if_neg here, if_neg (by omega)]

private theorem readSectors_spec (covers : hdr.Covers sectors) (disk : Disk)
    (first count done : Nat) (buf : Block)
    (within : first + done + count ≤ sectors.length)
    (room : 512 * (done + count) ≤ buf.size) :
    ∃ filled, readSectors hdr disk first count ((first + done : Nat) : Int)
        buf = .ok filled ∧
      filled.size = buf.size ∧
      ∀ offset, filled.get offset = if 512 * done ≤ offset ∧ offset < 512 * (done + count) then
          disk.fileByte sectors (512 * first + offset)
        else buf.get offset := by
  induction count generalizing done buf with
  | zero =>
    refine ⟨buf, rfl, rfl, ?_⟩
    intro offset
    rw [if_neg (by omega)]
  | succ count induction =>
    have inside : first + done < sectors.length := by omega
    rw [readSectors_succ covers disk inside (by omega) count]
    have order : 512 * (done + 1 + count) ≤ buf.size := by omega
    obtain ⟨filled, success, sameSize, contents⟩ := induction (done + 1)
      ⟨buf.size, splice buf.get (512 * done) (slice
        (disk.sectors (sectors.get ⟨first + done, inside⟩)).byte 0
        sectorSize)⟩ (by omega) order
    refine ⟨filled, success, sameSize, ?_⟩
    intro offset
    rw [contents offset]
    simp only [splice_sector disk inside]
    by_cases later : 512 * (done + 1) ≤ offset ∧ offset < 512 * (done + 1 + count)
    · rw [if_pos later, if_pos (by omega)]
    · rw [if_neg later]
      by_cases here : 512 * done ≤ offset ∧ offset < 512 * (done + 1)
      · rw [if_pos here, if_pos (by omega)]
      · rw [if_neg here, if_neg (by omega)]

/-- How many bytes a request transfers. -/
def transferCount (fileLength numBytes position : Int) : Nat :=
  if numBytes ≤ 0 ∨ position ≥ fileLength then 0
  else (min numBytes (fileLength - position)).toNat

variable {numBytes position : Int} {fileLength : Int}

theorem transferCount_le (positive : 0 < transferCount fileLength numBytes position) :
    position < fileLength ∧
      position + transferCount fileLength numBytes position ≤
        fileLength ∧
      (transferCount fileLength numBytes position : Int) ≤ numBytes := by
  unfold transferCount at positive ⊢
  split at positive
  · cases positive
  · rename_i granted
    rw [if_neg granted]
    omega

theorem clip_eq (length : InRange fileLength) (nonneg : 0 ≤ position)
    (fits : position + numBytes < 2147483648)
    (granted : ¬(numBytes ≤ 0 ∨ position ≥ fileLength)) :
    clip fileLength numBytes position =
      transferCount fileLength numBytes position := by
  have sum : InRange (position + numBytes) := by
    unfold InRange
    omega
  have rest : InRange (fileLength - position) := by
    unfold InRange at length ⊢
    omega
  unfold clip transferCount
  rw [wrap32_eq sum, wrap32_eq rest, if_neg granted]
  split <;> omega

theorem divRoundDown_nat (start : Nat) :
    divRoundDown (start : Int) sectorSize = ((start / 512 : Nat) : Int) := by
  have rounded := divRoundDown_sectorSize (start : Int)
  omega

variable {count start : Nat}

theorem lastSectorOf_nat (positive : 0 < count) (small : start + count < 2147483648) :
    lastSectorOf (count : Int) (start : Int) = (((start + count - 1) / 512 : Nat) : Int) := by
  have sum : InRange ((start : Int) + count) := by
    unfold InRange
    omega
  have last : InRange ((start : Int) + count - 1) := by
    unfold InRange
    omega
  unfold lastSectorOf
  rw [wrap32_eq sum, wrap32_eq last]
  have shifted : (start : Int) + count - 1 = ((start + count - 1 : Nat) : Int) := by omega
  rw [shifted, divRoundDown_nat]

theorem newBlock_sectors (count : Nat) (small : count < 4194304) (fresh : Nat → Byte) :
    newBlock (wrap32 ((count : Int) * sectorSize)) fresh = .ok ⟨512 * count, fresh⟩ := by
  have size := sectorSize_eq
  have fits : InRange ((count : Int) * 512) := by
    unfold InRange
    omega
  rw [size, wrap32_eq fits]
  have nonneg : 0 ≤ (count : Int) * 512 := by omega
  have bytes : ((count : Int) * 512).toNat = 512 * count := by omega
  simp [newBlock, nonneg, bytes]

theorem byteCount_nat (count : Nat) : byteCount (count : Int) = .ok count := by
  simp [byteCount]

theorem byteCount_inv {value : Int} (counted : byteCount value = .ok count) :
    0 ≤ value ∧ count = value.toNat := by
  unfold byteCount at counted
  split at counted
  · cases counted
    exact ⟨by assumption, rfl⟩
  · cases counted

theorem clip_overflow (length : 0 ≤ fileLength) (inside : InRange position)
    (range : InRange numBytes)
    (overflow : 2147483648 ≤ position + numBytes) :
    clip fileLength numBytes position = numBytes := by
  have negative : wrap32 (position + numBytes) ≤ fileLength := by
    unfold InRange at inside range
    unfold wrap32
    omega
  unfold clip
  rw [if_neg (not_lt.mpr negative)]

theorem readAt_length {file : OpenFile} {disk : Disk} {fresh : Nat → Byte} {data : List Byte}
    (granted : ¬(numBytes ≤ 0 ∨ position ≥ file.hdr.fileLength))
    (success : file.readAt disk numBytes position fresh = .ok data) :
    (data.length : Int) = clip file.hdr.fileLength numBytes position := by
  simp only [readAt, if_neg granted] at success
  obtain ⟨buf, -, success⟩ := bind_ok_inv success
  obtain ⟨filled, -, success⟩ := bind_ok_inv success
  obtain ⟨wanted, counted, success⟩ := bind_ok_inv success
  obtain ⟨nonneg, rfl⟩ := byteCount_inv counted
  rw [(Block.load_inside (inBounds_inv success)).1, Int.toNat_of_nonneg nonneg]

/-- A request for `count` bytes from `start` on which lies inside the file,
from sector `first` to sector `last`. -/
structure Span (hdr : FileHeader) (start count first last : Nat) :
    Prop where
  positive : 0 < count
  within : (start + count : Int) ≤ hdr.fileLength
  short : hdr.fileLength ≤ 64512
  firstSector : start / 512 = first
  lastSector : (start + count - 1) / 512 = last

variable {last : Nat}

theorem Span.bounds (span : Span hdr start count first last) :
    512 * first ≤ start ∧ start < 512 * (first + 1) ∧
      512 * last < start + count ∧ start + count ≤ 512 * (last + 1) ∧
      first ≤ last ∧ last < 126 := by
  have positive := span.positive
  have within := span.within
  have short := span.short
  have firstSector := span.firstSector
  have lastSector := span.lastSector
  omega

/-- A granted request lies inside the file. -/
theorem exists_span (short : hdr.fileLength ≤ 64512) (nonneg : 0 ≤ position)
    (fits : position + numBytes < 2147483648)
    (granted : ¬(numBytes ≤ 0 ∨ position ≥ hdr.fileLength)) :
    ∃ start count first last : Nat, position = start ∧
      transferCount hdr.fileLength numBytes position = count ∧
      clip hdr.fileLength numBytes position = count ∧
      Span hdr start count first last := by
  have positive : 0 < transferCount hdr.fileLength numBytes position := by
    unfold transferCount
    rw [if_neg granted]
    omega
  have clipped := clip_eq (toInt_inRange _) nonneg fits granted
  obtain ⟨start, rfl⟩ := Int.eq_ofNat_of_zero_le nonneg
  exact ⟨start, _, _, _, rfl, rfl, clipped, positive,
    (transferCount_le positive).2.1, short, rfl, rfl⟩

/-- What the numbers of a granted request come to. -/
theorem Span.numbers (span : Span hdr start count first last) :
    divRoundDown (start : Int) sectorSize = first ∧
      lastSectorOf (count : Int) (start : Int) = last ∧
      1 + (last : Int) - first = ((last + 1 - first : Nat) : Int) ∧
      (start : Int) - first * sectorSize = ((start - 512 * first : Nat) : Int) := by
  have bounds := span.bounds
  have size := sectorSize_eq
  refine ⟨?_, ?_, ?_, ?_⟩
  · rw [divRoundDown_nat, span.firstSector]
  · rw [lastSectorOf_nat span.positive (by omega), span.lastSector]
  · omega
  · rw [size]
    omega

/-- Where its first and last sector stand in the file and in the buffer. -/
theorem Span.places (span : Span hdr start count first last) :
    (first : Int) * sectorSize = ((512 * first : Nat) : Int) ∧
      wrap32 ((last : Int) * sectorSize) = ((512 * last : Nat) : Int) ∧
      wrap32 (((last : Int) - first) * sectorSize) = ((512 * (last - first) : Nat) : Int) := by
  have bounds := span.bounds
  rw [sectorSize_eq, wrap32_eq (by unfold InRange; omega), wrap32_eq (by unfold InRange; omega)]
  omega

private theorem Span.lastInside (covers : hdr.Covers sectors)
    (span : Span hdr start count first last) : last < sectors.length := by
  have positive := span.positive
  have within := span.within
  rw [← span.lastSector]
  exact covers.inside (by omega)

/-- A read returns the logical content of the requested range, clipped to
the file. -/
theorem readAt_covered (file : OpenFile) (covers : file.hdr.Covers sectors)
    (disk : Disk) (numBytes position : Int) (nonneg : 0 ≤ position)
    (fits : position + numBytes < 2147483648) (fresh : Nat → Byte) :
    file.readAt disk numBytes position fresh = .ok (slice (disk.fileByte sectors) position.toNat
        (transferCount file.hdr.fileLength numBytes position)) := by
  by_cases refused : numBytes ≤ 0 ∨ position ≥ file.hdr.fileLength
  · simp [readAt, transferCount, refused, slice]
  · obtain ⟨start, count, first, last, rfl, counted, clipped, span⟩ :=
      exists_span covers.length_le nonneg fits refused
    obtain ⟨firstEq, lastEq, total, place⟩ := span.numbers
    have bounds := span.bounds
    have lastInside := span.lastInside covers
    rw [counted]
    obtain ⟨filled, success, sameSize, contents⟩ :=
      readSectors_spec covers disk first (last + 1 - first) 0 ⟨512 * (last + 1 - first), fresh⟩
        (by omega) (by simp)
    simp only [Nat.add_zero] at success
    simp only at sameSize
    have loaded : filled.load ((start - 512 * first : Nat) : Int) count =
        some (slice (disk.fileByte sectors) start count) := by
      rw [Block.load_eq filled (by omega) (by omega)]
      congr 1
      unfold slice
      apply List.map_congr_left
      intro index member
      have inside : index < count := List.mem_range.mp member
      rw [contents, if_pos (by omega)]
      congr 1
      omega
    simp only [readAt, if_neg refused, clipped, firstEq, lastEq, total, place]
    rw [newBlock_sectors _ (by omega)]
    simp only [ok_bind, Int.toNat_natCast, success, byteCount_nat]
    rw [loaded]
    rfl

/-! ## Writing -/

/-- The sector which stands in the buffer at a place. -/
private def bufferSector (buf : Block) (done : Nat) : Sector :=
  Sector.ofBytes fun offset =>
    (slice buf.get (512 * done) sectorSize).getD offset 0#8

private theorem writeSectors_succ (covers : hdr.Covers sectors) (disk : Disk)
    (inside : first + done < sectors.length) {buf : Block}
    (room : 512 * (done + 1) ≤ buf.size) (count : Nat) :
    writeSectors hdr first buf (count + 1) ((first + done : Nat) : Int)
        disk =
      writeSectors hdr first buf count ((first + (done + 1) : Nat) : Int)
        (disk.set (sectors.get ⟨first + done, inside⟩) (bufferSector buf done)) := by
  have direct := covers.direct
  have limit : numDirect = 126 := rfl
  have size : sectorSize = 512 := rfl
  obtain ⟨word, found, value⟩ := byteToSector_eq covers inside
  have next : ((first + done : Nat) : Int) + 1 = ((first + (done + 1) : Nat) : Int) := by omega
  simp only [writeSectors, found, ok_bind, bufferOffset_eq (by omega : done < 126)]
  rw [Block.load_eq buf (by omega) (by omega), next]
  simp only [inBounds_some, ok_bind, value, Disk.writeSector_val]
  rfl

private theorem writeSectors_spec (covers : hdr.Covers sectors) (first : Nat)
    (buf : Block) (count done : Nat) (disk : Disk)
    (within : first + done + count ≤ sectors.length)
    (room : 512 * (done + count) ≤ buf.size) :
    ∃ written, writeSectors hdr first buf count
        ((first + done : Nat) : Int) disk = .ok written ∧
      (∀ sector,
        (∀ index, first + done ≤ index → index < first + done + count →
          sectors[index]? ≠ some sector) →
        written.sectors sector = disk.sectors sector) ∧
      ∀ offset, 512 * (first + done) ≤ offset →
        offset < 512 * (first + done + count) →
        written.fileByte sectors offset = buf.get (offset - 512 * first) := by
  induction count generalizing done disk with
  | zero =>
    refine ⟨disk, rfl, fun _ _ => rfl, ?_⟩
    intro offset lower upper
    omega
  | succ count induction =>
    have inside : first + done < sectors.length := by omega
    rw [writeSectors_succ covers disk inside (by omega) count]
    let target := sectors.get ⟨first + done, inside⟩
    have entry : sectors[first + done]? = some target := by
      simp [target, inside]
    obtain ⟨written, success, frame, contents⟩ :=
      induction (done + 1) (disk.set target (bufferSector buf done)) (by omega) (by omega)
    have targetLater : ∀ index, first + (done + 1) ≤ index →
        index < first + (done + 1) + count →
        sectors[index]? ≠ some target := by
      intro index lower upper same
      have indexInside : index < sectors.length := by omega
      have sameIndex := (List.getElem?_inj indexInside covers.distinct).mp (same.trans entry.symm)
      omega
    refine ⟨written, success, ?_, ?_⟩
    · intro sector untouched
      rw [frame sector (by
        intro index lower upper
        exact untouched index (by omega) (by omega))]
      apply Disk.set_other
      rintro rfl
      exact untouched (first + done) (by omega) (by omega) entry
    · intro offset lower upper
      by_cases later : 512 * (first + (done + 1)) ≤ offset
      · exact contents offset later (by omega)
      · have size : sectorSize = 512 := rfl
        have quotient : offset / sectorSize = first + done := by
          rw [size]
          omega
        have position : offset % sectorSize < sectorSize :=
          Nat.mod_lt _ (by rw [size]; omega)
        have cell : 512 * done + offset % sectorSize = offset - 512 * first := by
          rw [size]
          omega
        simp only [Disk.fileByte, quotient, entry]
        rw [frame target targetLater, Disk.set_same, bufferSector,
          Sector.byte_ofBytes _ position, slice_getD _ position, cell]

section

variable (file : OpenFile) (covers : file.hdr.Covers sectors) (disk : Disk)
include file covers disk

/-- Reading a partly written sector into the buffer loads the logical
content of that sector, up to the end of the file. -/
private theorem prefill_spec (needed : Bool) (index place : Nat) (buf : Block)
    (inside : (512 * index : Int) < file.hdr.fileLength) (room : 512 * (place + 1) ≤ buf.size)
    (fresh : Nat → Byte) :
    ∃ filled, file.prefill disk needed ((512 * index : Nat) : Int)
        ((512 * place : Nat) : Int) fresh buf = .ok filled ∧
      filled.size = buf.size ∧
      ∀ offset, filled.get offset =
        if needed = true ∧ 512 * place ≤ offset ∧
            offset < 512 * (place + 1) ∧
            (512 * index + (offset - 512 * place) : Int) < file.hdr.fileLength then
          disk.fileByte sectors (512 * index + (offset - 512 * place))
        else buf.get offset := by
  cases needed with
  | false =>
    refine ⟨buf, rfl, rfl, ?_⟩
    intro offset
    simp
  | true =>
    have longest := covers.length_le
    have size := sectorSize_eq
    have read := file.readAt_covered covers disk sectorSize
      ((512 * index : Nat) : Int) (by omega) (by omega) fresh
    generalize counted : transferCount file.hdr.fileLength sectorSize
      ((512 * index : Nat) : Int) = count at read
    have countEq : (count : Int) = min 512 (file.hdr.fileLength - 512 * index) := by
      rw [← counted]
      unfold transferCount
      rw [if_neg (by omega)]
      omega
    rw [Int.toNat_natCast] at read
    refine ⟨⟨buf.size, splice buf.get (512 * place)
      (slice (disk.fileByte sectors) (512 * index) count)⟩, ?_, rfl, fun offset => ?_⟩
    · simp only [prefill, if_true, read, ok_bind]
      rw [Block.store_eq buf (by omega) (by rw [slice_length]; omega)]
      rfl
    · simp only [splice_slice, true_and]
      by_cases loaded : 512 * place ≤ offset ∧ offset < 512 * place + count
      · rw [if_pos loaded, if_pos (by omega)]
      · rw [if_neg loaded, if_neg (by omega)]

/-- After both prefills and the copy, the buffer of a write holds the new
logical content of the sectors it covers. -/
private theorem fillBuffer_spec (span : Span file.hdr start count first last) (data : List Byte)
    (length : data.length = count) {firstAligned lastAligned : Bool}
    (atFirst : firstAligned = true → start = 512 * first)
    (atLast : lastAligned = true → start + count = 512 * (last + 1)) (fresh : Nat → Nat → Byte) :
    ∃ filledFirst filledLast full, file.prefill disk (!firstAligned) ((512 * first : Nat) : Int)
        ((512 * 0 : Nat) : Int) (fresh 1)
        ⟨512 * (last + 1 - first), fresh 0⟩ = .ok filledFirst ∧
      file.prefill disk (!lastAligned && ((first : Int) ≠ (last : Int) || firstAligned))
        ((512 * last : Nat) : Int) ((512 * (last - first) : Nat) : Int)
        (fresh 2) filledFirst = .ok filledLast ∧
      filledLast.store ((start - 512 * first : Nat) : Int) data =
        some full ∧
      full.size = 512 * (last + 1 - first) ∧
      ∀ offset : Nat, 512 * first ≤ offset → offset < 512 * (last + 1) →
        (offset : Int) < file.hdr.fileLength →
        full.get (offset - 512 * first) = splice (disk.fileByte sectors) start data offset := by
  obtain ⟨firstLower, firstUpper, lastLower, lastUpper, ordered, small⟩ :=
    span.bounds
  have within := span.within
  obtain ⟨filledFirst, firstSuccess, firstSize, firstContents⟩ :=
    prefill_spec file covers disk (!firstAligned) first 0 ⟨512 * (last + 1 - first), fresh 0⟩
      (by omega) (by simp only; omega) (fresh 1)
  simp only at firstSize
  obtain ⟨filledLast, lastSuccess, lastSize, lastContents⟩ :=
    prefill_spec file covers disk (!lastAligned && ((first : Int) ≠ (last : Int) || firstAligned))
      last (last - first) filledFirst
      (by omega) (by omega) (fresh 2)
  refine ⟨filledFirst, filledLast, _, firstSuccess, lastSuccess,
    Block.store_eq _ (by omega) (by omega), by simp only; omega, ?_⟩
  intro offset lower upper below
  change splice filledLast.get (start - 512 * first) data (offset - 512 * first) = _
  by_cases written : start ≤ offset ∧ offset < start + count
  · rw [splice_inside _ (by omega) (by omega), splice_inside _ written.1 (by omega)]
    congr 1
    omega
  · rw [splice_outside _ (by omega), splice_outside _ (by omega), lastContents]
    split
    · congr 1
      omega
    · rename_i notLast
      rw [firstContents]
      split
      · congr 1
        omega
      · rename_i notFirst
        exfalso
        by_cases early : offset < start
        · have unaligned : firstAligned = false := by
            cases firstAligned with
            | false => rfl
            | true => have := atFirst rfl; omega
          exact notFirst ⟨by simp [unaligned], by omega, by omega, by omega⟩
        · have unaligned : lastAligned = false := by
            cases lastAligned with
            | false => rfl
            | true => have := atLast rfl; omega
          by_cases alone : first = last ∧ firstAligned = false
          · exact notFirst ⟨by simp [alone.2], by omega, by omega, by omega⟩
          · refine notLast ⟨?_, by omega, by omega, by omega⟩
            rw [unaligned]
            cases firstAligned with
            | true => simp
            | false =>
              have differ : first ≠ last := fun same => alone ⟨same, rfl⟩
              simpa using differ

private theorem writeAt_granted (span : Span file.hdr start count first last)
    (granted : ¬(numBytes ≤ 0 ∨ (start : Int) ≥ file.hdr.fileLength))
    (clipped : clip file.hdr.fileLength numBytes start = count) {source : List Byte}
    (enough : count ≤ source.length) (fresh : Nat → Nat → Byte) :
    ∃ written,
      file.writeAt disk source numBytes start fresh =
        .ok ((count : Int), written) ∧
      (∀ sector,
        (∀ index, first ≤ index → index ≤ last →
          sectors[index]? ≠ some sector) →
        written.sectors sector = disk.sectors sector) ∧
      ∀ offset : Nat, 512 * first ≤ offset → offset < 512 * (last + 1) →
        (offset : Int) < file.hdr.fileLength →
        written.fileByte sectors offset = splice (disk.fileByte sectors) start (source.take count)
            offset := by
  have bounds := span.bounds
  obtain ⟨firstEq, lastEq, total, place⟩ := span.numbers
  obtain ⟨firstPlace, lastPlace, lastOffset⟩ := span.places
  have size := sectorSize_eq
  generalize atFirst : decide ((start : Int) = (first : Int) * sectorSize) = firstAligned
  generalize atLast : decide (wrap32 ((start : Int) + count) =
    wrap32 (((last : Int) + 1) * sectorSize)) = lastAligned
  have firstStart : firstAligned = true → start = 512 * first := by
    intro aligned
    rw [aligned, size, decide_eq_true_iff] at atFirst
    omega
  have lastEnd : lastAligned = true → start + count = 512 * (last + 1) := by
    intro aligned
    rw [aligned, size, wrap32_eq (by unfold InRange; omega),
      wrap32_eq (by unfold InRange; omega), decide_eq_true_iff] at atLast
    omega
  obtain ⟨filledFirst, filledLast, full, firstSuccess, lastSuccess, stored, fullSize, contents⟩ :=
    fillBuffer_spec file covers disk span (source.take count)
      (by simp [enough]) firstStart lastEnd fresh
  have loaded : Block.load
      ⟨source.length, fun offset => source.getD offset 0#8⟩ 0 count =
      some (source.take count) := by
    rw [Block.load_eq _ (by omega) (by simp only; omega)]
    exact congrArg some (slice_ofList source enough)
  have lastInside := span.lastInside covers
  obtain ⟨written, writeSuccess, frame, stores⟩ :=
    writeSectors_spec covers first full (last + 1 - first) 0 disk
      (by omega) (by rw [fullSize]; omega)
  refine ⟨written, ?_, ?_, ?_⟩
  rotate_left
  · intro sector untouched
    apply frame
    intro index lower upper
    exact untouched index (by omega) (by omega)
  · intro offset lower upper below
    rw [stores offset (by omega) (by omega), contents offset lower upper below]
  simp only [Nat.mul_zero, Nat.cast_zero] at firstSuccess
  simp only [writeAt, if_neg granted, clipped, firstEq, lastEq]
  simp only [total, place, atFirst, atLast, lastPlace, lastOffset]
  rw [newBlock_sectors _ (by omega)]
  simp only [ok_bind, firstPlace, firstSuccess, lastSuccess, byteCount_nat, Int.toNat_natCast]
  rw [loaded]
  simp only [inBounds_some, ok_bind]
  rw [stored]
  simp only [Nat.add_zero] at writeSuccess
  simp only [inBounds_some, ok_bind, writeSuccess]
  rfl

end

variable {written : Disk}

/-- Sectors which keep their data keep the logical content they hold. -/
private theorem fileByte_eq_of_outside (covers : hdr.Covers sectors) {disk : Disk} {offset : Nat}
    (frame : ∀ sector,
      (∀ index, first ≤ index → index ≤ last →
        sectors[index]? ≠ some sector) →
      written.sectors sector = disk.sectors sector)
    (outside : offset / 512 < first ∨ last < offset / 512) :
    written.fileByte sectors offset = disk.fileByte sectors offset := by
  have quotient : offset / sectorSize = offset / 512 := rfl
  unfold Disk.fileByte
  rw [quotient]
  cases entry : sectors[offset / 512]? with
  | none => rfl
  | some sector =>
    have inside : offset / 512 < sectors.length :=
      (List.getElem?_eq_some_iff.mp entry).1
    have kept := frame sector (by
      intro index lower upper same
      have sameIndex := (List.getElem?_inj inside covers.distinct).mp (entry.trans same.symm)
      omega)
    simp only [kept]

/-- A write transfers the clipped request, splices it into the logical
content, and changes only sectors which overlap the written range. -/
theorem writeAt_covered (file : OpenFile) (covers : file.hdr.Covers sectors)
    (disk : Disk) (numBytes position : Int) (nonneg : 0 ≤ position)
    (fits : position + numBytes < 2147483648) (source : List Byte)
    (enough : transferCount file.hdr.fileLength numBytes position ≤ source.length)
    (fresh : Nat → Nat → Byte) :
    ∃ written,
      file.writeAt disk source numBytes position fresh =
        .ok ((transferCount file.hdr.fileLength numBytes position : Nat),
          written) ∧
      (∀ sector, (∀ offset : Nat, position ≤ offset →
          (offset : Int) < position +
            transferCount file.hdr.fileLength numBytes position →
          sectors[offset / sectorSize]? ≠ some sector) →
        written.sectors sector = disk.sectors sector) ∧
      ∀ offset : Nat, (offset : Int) < file.hdr.fileLength →
        written.fileByte sectors offset = splice (disk.fileByte sectors) position.toNat
            (source.take (transferCount file.hdr.fileLength numBytes position))
            offset := by
  by_cases refused : numBytes ≤ 0 ∨ position ≥ file.hdr.fileLength
  · refine ⟨disk, ?_, fun _ _ => rfl, ?_⟩
    · simp [writeAt, transferCount, refused]
    · intro offset _
      simp [transferCount, refused]
  · obtain ⟨start, count, first, last, rfl, counted, clipped, span⟩ :=
      exists_span covers.length_le nonneg fits refused
    rw [counted] at enough ⊢
    rw [Int.toNat_natCast]
    have bounds := span.bounds
    have positive := span.positive
    obtain ⟨written, success, frame, contents⟩ :=
      writeAt_granted file covers disk span refused clipped enough fresh
    refine ⟨written, success, ?_, ?_⟩
    · intro sector untouched
      apply frame
      intro index lower upper
      have inside : max start (512 * index) / sectorSize = index := by
        have size : sectorSize = 512 := rfl
        rw [size]
        omega
      rw [← inside]
      exact untouched _ (by omega) (by omega)
    · intro offset below
      by_cases covered : 512 * first ≤ offset ∧ offset < 512 * (last + 1)
      · exact contents offset covered.1 covered.2 below
      · have taken : (source.take count).length = count := by
          simp [enough]
        rw [splice_outside _ (by omega)]
        exact fileByte_eq_of_outside covers frame (by omega)

/-- A write replaces the clipped range of the file's contents by the first
bytes of the buffer and changes only sectors in which that range lies. -/
theorem writeAt_replaces_range (file : OpenFile) (covers : file.hdr.Covers sectors) (disk : Disk)
    (numBytes position : Int) (nonneg : 0 ≤ position)
    (fits : position + numBytes < 2147483648) (source : List Byte)
    (enough : transferCount file.hdr.fileLength numBytes position ≤ source.length)
    (fresh : Nat → Nat → Byte) :
    ∃ (count : Nat) (written : Disk),
      file.writeAt disk source numBytes position fresh =
        .ok ((count : Int), written) ∧
      (count : Int) = (if numBytes ≤ 0 ∨ position ≥ file.hdr.fileLength then 0
        else min numBytes (file.hdr.fileLength - position)) ∧
      slice (written.fileByte sectors) 0 file.hdr.fileLength.toNat =
        replace (slice (disk.fileByte sectors) 0 file.hdr.fileLength.toNat)
          position.toNat (source.take count) ∧
      ∀ sector, written.sectors sector ≠ disk.sectors sector →
        ∃ offset : Nat, position ≤ offset ∧
          (offset : Int) < position + count ∧
          sectors[offset / sectorSize]? = some sector := by
  obtain ⟨written, success, frame, contents⟩ := file.writeAt_covered covers
    disk numBytes position nonneg fits source enough fresh
  refine ⟨_, written, success, ?_, ?_, ?_⟩
  · unfold transferCount
    split <;> omega
  · have agree : slice (written.fileByte sectors) 0
          file.hdr.fileLength.toNat =
        slice (splice (disk.fileByte sectors) position.toNat (source.take
            (transferCount file.hdr.fileLength numBytes position))) 0
          file.hdr.fileLength.toNat := by
      apply slice_congr
      intro offset _ below
      exact contents offset (by omega)
    rw [agree]
    apply slice_splice
    intro nonempty
    have taken : 0 < transferCount file.hdr.fileLength numBytes position := by
      apply Nat.pos_of_ne_zero
      intro none
      exact nonempty (by rw [none, List.take_zero])
    have bounds := transferCount_le taken
    rw [List.length_take]
    omega
  · intro sector
    contrapose!
    exact frame sector

/-- A file of 600 bytes in two sectors, the second one below the first. -/
def twoSectorFile : OpenFile where
  hdr :=
    { numBytes := 600#32
      numSectors := 2#32
      dataSectors := fun index => if index.val = 0 then 9#32 else 5#32 }
  seekPosition := 0

def twoSectors : List SectorIndex := [⟨9, by decide⟩, ⟨5, by decide⟩]

theorem twoSectorFile_covers : twoSectorFile.hdr.Covers twoSectors := by
  constructor
  · decide
  · intro index inside
    rcases index with _ | _ | index
    · exact ⟨9#32, rfl, rfl⟩
    · exact ⟨5#32, rfl, rfl⟩
    · simp [twoSectors] at inside
  · decide
  · decide

theorem writeAt_replaces_range_across_sectors :
    ∃ (count : Nat) (written : Disk), twoSectorFile.writeAt ⟨fun _ _ => 0#8⟩ [1#8, 2#8] 2 511
        (fun _ _ => 0#8) = .ok ((count : Int), written) ∧
      (count : Int) = 2 ∧
      slice (written.fileByte twoSectors) 0 600 =
        replace (slice (Disk.fileByte ⟨fun _ _ => 0#8⟩ twoSectors) 0 600)
          511 ([1#8, 2#8].take count) ∧
      ∀ sector, written.sectors sector ≠ (fun _ => 0#8) →
        ∃ offset : Nat, (511 : Int) ≤ offset ∧
          (offset : Int) < 511 + count ∧
          twoSectors[offset / sectorSize]? = some sector :=
  twoSectorFile.writeAt_replaces_range twoSectorFile_covers
    ⟨fun _ _ => 0#8⟩ 2 511 (by decide) (by decide) [1#8, 2#8] (by decide)
    (fun _ _ => 0#8)

/-! ## Requests of any kind

A request need not fit the file: its position may be negative and its end may
wrap around.  Such a request either stops at an access outside its buffer or
outside the header's sector table, or it writes nothing. -/

/-- A writing loop which runs to its end stays inside the sector table. -/
private theorem writeSectors_range {first : Int} {buf : Block} {index : Int}
    {disk : Disk} (lower : -4194304 ≤ index) (upper : index + count ≤ 4194304)
    (nonempty : 0 < count)
    (success : writeSectors hdr first buf count index disk = .ok written) :
    0 ≤ index ∧ index + count ≤ 126 := by
  induction count generalizing index disk with
  | zero => cases nonempty
  | succ count induction =>
    obtain ⟨sector, found, success⟩ := bind_ok_inv success
    obtain ⟨data, -, success⟩ := bind_ok_inv success
    obtain ⟨next, -, success⟩ := bind_ok_inv success
    have inside : index.toNat < 126 ∧ 0 ≤ index := by
      unfold FileHeader.byteToSector at found
      rw [sectorIndex_of_offset lower (by omega)] at found
      unfold FileHeader.dataSector at found
      split at found
      · assumption
      · cases found
    by_cases more : 0 < count
    · have rest := induction (by omega) (by omega) more success
      omega
    · omega

private theorem clip_ne_zero (length : InRange fileLength) (positionRange : InRange position)
    (granted : ¬(numBytes ≤ 0 ∨ position ≥ fileLength)) :
    clip fileLength numBytes position ≠ 0 := by
  unfold InRange at length positionRange
  unfold clip
  split
  · unfold wrap32
    omega
  · omega

/-- A request whose first and last sector lie in the sector table, and whose
data lie in the buffer, does not wrap around. -/
private theorem request_fits (length : fileLength ≤ 64512) (sizeRange : InRange numBytes)
    (granted : ¬(numBytes ≤ 0 ∨ position ≥ fileLength)) (nonneg : 0 ≤ position)
    (ordered : divRoundDown position sectorSize ≤
      lastSectorOf (clip fileLength numBytes position) position)
    (direct : lastSectorOf (clip fileLength numBytes position) position < 126) :
    position + numBytes < 2147483648 := by
  unfold InRange at sizeRange
  by_contra overflow
  have wrapped : wrap32 (position + numBytes) = position + numBytes - 4294967296 := by
    unfold wrap32
    omega
  have unclipped : clip fileLength numBytes position = numBytes :=
    clip_overflow (by omega) (by unfold InRange; omega) sizeRange (not_lt.mp overflow)
  have down := divRoundDown_sectorSize position
  unfold lastSectorOf at ordered direct
  rw [unclipped, wrapped] at ordered direct
  have last := divRoundDown_sectorSize (wrap32 (position + numBytes - 4294967296 - 1))
  unfold wrap32 at last ordered direct
  omega

theorem writeAt_inv (file : OpenFile) {disk : Disk}
    (longest : file.hdr.fileLength ≤ maxFileSize) {source : List Byte}
    {result : Int} (sizeRange : InRange numBytes)
    (positionRange : InRange position) {fresh : Nat → Nat → Byte}
    (success : file.writeAt disk source numBytes position fresh = .ok (result, written)) :
    written = disk ∨
      (0 ≤ position ∧ position + numBytes < 2147483648 ∧
        transferCount file.hdr.fileLength numBytes position ≤ source.length) := by
  by_cases refused : numBytes ≤ 0 ∨ position ≥ file.hdr.fileLength
  · simp only [writeAt, if_pos refused] at success
    cases success
    exact .inl rfl
  · simp only [writeAt, if_neg refused] at success
    obtain ⟨buf, -, success⟩ := bind_ok_inv success
    obtain ⟨filledFirst, -, success⟩ := bind_ok_inv success
    obtain ⟨filledLast, -, success⟩ := bind_ok_inv success
    obtain ⟨wanted, counted, success⟩ := bind_ok_inv success
    obtain ⟨data, loaded, success⟩ := bind_ok_inv success
    obtain ⟨full, stored, success⟩ := bind_ok_inv success
    obtain ⟨next, looped, success⟩ := bind_ok_inv success
    cases success
    have length : InRange file.hdr.fileLength := toInt_inRange _
    have nonzero := clip_ne_zero length positionRange refused
    have counts := byteCount_inv counted
    obtain ⟨loadedLength, sourceBound⟩ :=
      Block.load_inside (inBounds_inv loaded)
    simp only at sourceBound
    have placed := Block.store_inside (by
      intro empty
      rw [empty, List.length_nil] at loadedLength
      omega) (inBounds_inv stored)
    have down := divRoundDown_sectorSize position
    have size := sectorSize_eq
    generalize lastEq : lastSectorOf
      (clip file.hdr.fileLength numBytes position) position = last at looped
    by_cases nonempty : 0 < 1 + last - divRoundDown position sectorSize
    · have lastLt : last < 4194304 := by
        rw [← lastEq]
        have rounded := divRoundDown_sectorSize (wrap32 (wrap32 (position +
          clip file.hdr.fileLength numBytes position) - 1))
        have range := wrap32_inRange (wrap32 (position +
          clip file.hdr.fileLength numBytes position) - 1)
        unfold InRange at range
        unfold lastSectorOf
        omega
      unfold InRange at positionRange
      have range := writeSectors_range (by omega) (by omega) (by omega) looped
      have nonneg : 0 ≤ position := by
        generalize divRoundDown position sectorSize = first at placed down range
        rw [size] at placed
        omega
      have fits := request_fits (by exact longest) sizeRange refused nonneg (by omega) (by omega)
      have exact := clip_eq length nonneg fits refused
      exact .inr ⟨nonneg, fits, by omega⟩
    · have empty : (1 + last - divRoundDown position sectorSize).toNat = 0 := by
        omega
      rw [empty] at looped
      cases looped
      exact .inl rfl

end OpenFile

end Nachos
