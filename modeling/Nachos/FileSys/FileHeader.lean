import Nachos.FileSys.Disk

/-!
# File headers

A file header locates the data sectors of a file.  In memory and on disk it
is the same table of words: the length in bytes, the number of data sectors,
and one sector number for each direct block.
-/

open Words Function

namespace Nachos

/-- `NumDirect`: the sector numbers which fit into one header sector. -/
def numDirect : Nat := (sectorSize - 2 * 4) / 4

/-- `MaxFileSize`. -/
def maxFileSize : Nat := numDirect * sectorSize

structure FileHeader where
  numBytes : Word
  numSectors : Word
  dataSectors : Fin numDirect → Word

namespace FileHeader

/-- The header as the table of words it occupies in memory. -/
def toWords (header : FileHeader) : Nat → Word
  | 0 => header.numBytes
  | 1 => header.numSectors
  | index + 2 =>
    if inside : index < numDirect then header.dataSectors ⟨index, inside⟩
    else 0#32

/-- The header held by a sector-sized piece of memory. -/
def ofImage (image : Nat → Byte) : FileHeader where
  numBytes := wordAt image 0
  numSectors := wordAt image 4
  dataSectors := fun index => wordAt image (4 * (index.val + 2))

def toSector (header : FileHeader) : Sector :=
  Sector.ofBytes (wordsToBytes header.toWords)

def ofSector (sector : Sector) : FileHeader := ofImage sector.byte

/-- `FileHeader::FileLength`. -/
def fileLength (header : FileHeader) : Int := header.numBytes.toInt

/-- `dataSectors[index]`. -/
def dataSector (header : FileHeader) (index : Int) : Result Word :=
  if inside : index.toNat < numDirect ∧ 0 ≤ index then
    .ok (header.dataSectors ⟨index.toNat, inside.1⟩)
  else .error .bounds

/-- `dataSectors[index] = sector`. -/
def setDataSector (header : FileHeader) (index : Nat) (sector : Int) :
    Result FileHeader :=
  if inside : index < numDirect then
    .ok { header with
      dataSectors := update header.dataSectors ⟨index, inside⟩ (BitVec.ofInt 32 sector) }
  else .error .bounds

/-- `FileHeader::ByteToSector`. -/
def byteToSector (header : FileHeader) (offset : Int) : Result Word :=
  header.dataSector (offset.tdiv sectorSize)

/-- The loop of `FileHeader::Allocate` from index `index` on. -/
def allocateSectors : Nat → Nat → FileHeader → BitMap Nachos.numSectors →
    Result (FileHeader × BitMap Nachos.numSectors)
  | 0, _, header, freeMap => .ok (header, freeMap)
  | count + 1, index, header, freeMap => do
    let (sector, freeMap) := freeMap.find
    let header ← header.setDataSector index sector
    allocateSectors count (index + 1) header freeMap

/-- `FileHeader::Allocate`; the header is the fresh object it is called on. -/
def allocate (header : FileHeader) (freeMap : BitMap Nachos.numSectors) (fileSize : Int) :
    Result (Bool × FileHeader × BitMap Nachos.numSectors) :=
  let count := divRoundUp fileSize sectorSize
  let header := { header with
    numBytes := BitVec.ofInt 32 fileSize
    numSectors := BitVec.ofInt 32 count }
  if (freeMap.numClear : Int) < count then
    .ok (false, header, freeMap)
  else do
    let (header, freeMap) ← allocateSectors count.toNat 0 header freeMap
    return (true, header, freeMap)

/-- The loop of `FileHeader::Deallocate` from index `index` on. -/
def deallocateSectors (header : FileHeader) :
    Nat → Nat → BitMap Nachos.numSectors → Result (BitMap Nachos.numSectors)
  | 0, _, freeMap => .ok freeMap
  | count + 1, index, freeMap => do
    let sector ← header.dataSector index
    let marked ← freeMap.checkedTest sector.toInt
    assert marked
    let freeMap ← freeMap.checkedClear sector.toInt
    deallocateSectors header count (index + 1) freeMap

/-- `FileHeader::Deallocate`. -/
def deallocate (header : FileHeader) (freeMap : BitMap Nachos.numSectors) :
    Result (BitMap Nachos.numSectors) :=
  header.deallocateSectors header.numSectors.toInt.toNat 0 freeMap

/-- `FileHeader::FetchFrom`. -/
def fetchFrom (disk : Disk) (sector : Int) : Result FileHeader := do
  let data ← disk.readSector sector
  return ofSector data

/-- `FileHeader::WriteBack`. -/
def writeBack (header : FileHeader) (disk : Disk) (sector : Int) :
    Result Disk :=
  disk.writeSector sector header.toSector

/-! ## Storing and fetching -/

theorem ofSector_toSector (header : FileHeader) : ofSector header.toSector = header := by
  have stored : ∀ index, index < 128 →
      wordAt header.toSector.byte (4 * index) = header.toWords index := by
    intro index inside
    apply wordAt_wordsToBytes
    intro offset lower upper
    have fits : offset < sectorSize := by
      unfold sectorSize
      omega
    exact Sector.byte_ofBytes _ fits
  have length : wordAt header.toSector.byte 0 = header.numBytes :=
    stored 0 (by decide)
  have count : wordAt header.toSector.byte 4 = header.numSectors :=
    stored 1 (by decide)
  have blocks : ∀ index : Fin numDirect,
      wordAt header.toSector.byte (4 * (index.val + 2)) =
        header.dataSectors index := by
    intro index
    have inside : index.val < 126 := index.isLt
    rw [stored (index.val + 2) (by omega)]
    simp [toWords]
  cases header
  simp only [ofSector, ofImage, length, count, blocks]

@[simp] theorem fetchFrom_val (disk : Disk) (sector : SectorIndex) :
    fetchFrom disk (sector.val : Int) = .ok (ofSector (disk.sectors sector)) := by
  simp only [fetchFrom, Disk.readSector_val, ok_bind]
  rfl

@[simp] theorem writeBack_val (header : FileHeader) (disk : Disk)
    (sector : SectorIndex) :
    header.writeBack disk (sector.val : Int) = .ok (disk.set sector header.toSector) := by
  simp [writeBack]

/-! ## Allocation -/

/-- The first `numSectors` entries of `dataSectors`. -/
def sectorList (header : FileHeader) : List Int :=
  ((List.ofFn header.dataSectors).take header.numSectors.toInt.toNat).map BitVec.toInt

/-- The header with `results` recorded at `count` entries from `index` on. -/
def record (header : FileHeader) (index count : Nat) (results : List Int) :
    FileHeader :=
  { header with
    dataSectors := fun position =>
      if index ≤ position.val ∧ position.val < index + count then
        BitVec.ofInt 32 (results.getD (position.val - index) 0)
      else header.dataSectors position }

theorem allocateSectors_eq (count index : Nat) (header : FileHeader)
    (freeMap : BitMap Nachos.numSectors)
    (fits : index + count ≤ numDirect) :
    allocateSectors count index header freeMap =
      .ok (header.record index count (freeMap.findMany count).1, (freeMap.findMany count).2) := by
  induction count generalizing index header freeMap with
  | zero =>
    have outside : ∀ position : Fin numDirect,
        ¬(index ≤ position.val ∧ position.val < index + 0) := by
      intro position
      omega
    simp only [allocateSectors, BitMap.findMany, record, outside, if_false]
  | succ count induction =>
    have inside : index < numDirect := by omega
    have rest := induction (index + 1) { header with
        dataSectors := update header.dataSectors ⟨index, inside⟩ (BitVec.ofInt 32 freeMap.find.1) }
      freeMap.find.2 (by omega)
    simp only [allocateSectors, setDataSector, inside, dite_true, ok_bind]
    rw [rest]
    simp only [BitMap.findMany, record, Except.ok.injEq, Prod.mk.injEq,
      FileHeader.mk.injEq, and_true, true_and]
    funext position
    by_cases before : position.val < index
    · have notRest : ¬(index + 1 ≤ position.val ∧ position.val < index + 1 + count) := by omega
      have notAll : ¬(index ≤ position.val ∧ position.val < index + (count + 1)) := by omega
      have other : position ≠ ⟨index, inside⟩ := by
        intro equal
        have value : position.val = index := congrArg Fin.val equal
        omega
      simp only [if_neg notRest, if_neg notAll, update_of_ne other]
    · by_cases here : position.val = index
      · have same : position = ⟨index, inside⟩ := Fin.ext here
        have notRest : ¬(index + 1 ≤ position.val ∧ position.val < index + 1 + count) := by omega
        have within : index ≤ position.val ∧ position.val < index + (count + 1) := by omega
        simp only [if_neg notRest, if_pos within]
        simp [same]
      · have other : position ≠ ⟨index, inside⟩ := by
          intro equal
          exact here (congrArg Fin.val equal)
        by_cases later : position.val < index + 1 + count
        · have inRest : index + 1 ≤ position.val ∧ position.val < index + 1 + count := by omega
          have inAll : index ≤ position.val ∧ position.val < index + (count + 1) := by omega
          have shifted : position.val - index = (position.val - (index + 1)) + 1 := by omega
          simp only [if_pos inRest, if_pos inAll, shifted, List.getD_cons_succ]
        · have notRest : ¬(index + 1 ≤ position.val ∧ position.val < index + 1 + count) := by omega
          have notAll : ¬(index ≤ position.val ∧ position.val < index + (count + 1)) := by omega
          simp only [if_neg notRest, if_neg notAll, update_of_ne other]

theorem divRoundUp_sectorSize_le {size : Int} (small : size ≤ maxFileSize) :
    divRoundUp size sectorSize ≤ numDirect := by
  have rounded := divRoundUp_sectorSize size
  have direct : (numDirect : Int) = 126 := rfl
  have limit : (maxFileSize : Int) = 64512 := rfl
  omega

theorem divRoundUp_sectorSize_inRange {size : Int} (inRange : InRange size) :
    InRange (divRoundUp size sectorSize) := by
  have rounded := divRoundUp_sectorSize size
  unfold InRange at inRange ⊢
  omega

theorem allocate_refused (header : FileHeader) {freeMap : BitMap Nachos.numSectors} {fileSize : Int}
    (full : (freeMap.numClear : Int) < divRoundUp fileSize sectorSize) :
    ∃ partialHeader, header.allocate freeMap fileSize = .ok (false, partialHeader, freeMap) := by
  simp only [allocate, if_pos full]
  exact ⟨_, rfl⟩

/-- A successful allocation takes different clear sectors, records exactly
them in the header, and marks exactly them. -/
theorem allocate_granted (header : FileHeader) {freeMap : BitMap Nachos.numSectors} {fileSize : Int}
    (inRange : InRange fileSize) (small : fileSize ≤ maxFileSize)
    (room : divRoundUp fileSize sectorSize ≤ freeMap.numClear) :
    ∃ (allocated : FileHeader) (marked : BitMap Nachos.numSectors)
      (found : List SectorIndex),
      header.allocate freeMap fileSize = .ok (true, allocated, marked) ∧
      allocated.fileLength = fileSize ∧
      allocated.numSectors.toInt = divRoundUp fileSize sectorSize ∧
      allocated.sectorList = found.map (fun sector => (sector.val : Int)) ∧
      (freeMap.findMany (divRoundUp fileSize sectorSize).toNat).1 =
        found.map (fun sector => (sector.val : Int)) ∧
      found.Nodup ∧
      (∀ sector ∈ found, freeMap.test sector = false) ∧
      ∀ other, marked.test other = (decide (other ∈ found) || freeMap.test other) := by
  have fits : 0 + (divRoundUp fileSize sectorSize).toNat ≤ numDirect := by
    have bound := divRoundUp_sectorSize_le small
    omega
  have enough : (divRoundUp fileSize sectorSize).toNat ≤
      freeMap.numClear := by omega
  obtain ⟨found, results, length, distinct, clear, marks⟩ :=
    BitMap.findMany_spec enough
  have notFull : ¬(freeMap.numClear : Int) <
      divRoundUp fileSize sectorSize := by omega
  have countRange := divRoundUp_sectorSize_inRange inRange
  let sized : FileHeader := { header with
    numBytes := BitVec.ofInt 32 fileSize
    numSectors := BitVec.ofInt 32 (divRoundUp fileSize sectorSize) }
  let count := (divRoundUp fileSize sectorSize).toNat
  refine ⟨sized.record 0 count (freeMap.findMany count).1, _, found,
    ?_, ?_, ?_, ?_, results, distinct, clear, marks⟩
  · simp only [allocate, if_neg notFull]
    rw [allocateSectors_eq _ _ _ _ fits]
    rfl
  · exact toInt_ofInt_eq inRange
  · exact toInt_ofInt_eq countRange
  · unfold sectorList
    simp only [record, sized, count, toInt_ofInt_eq countRange, results]
    apply List.ext_getElem
    · simp only [List.length_map, List.length_take, List.length_ofFn]
      omega
    · intro index leftBound rightBound
      have inFound : index < found.length := by
        simpa using rightBound
      have inCount : index < 0 + (divRoundUp fileSize sectorSize).toNat := by omega
      have recorded :=
        toInt_ofInt_eq (sector_inRange (found.get ⟨index, inFound⟩))
      simp only [List.getElem_map, List.getElem_take, List.getElem_ofFn,
        Nat.zero_le, inCount, and_self, if_true, Nat.sub_zero,
        List.getD_eq_getElem?_getD]
      simpa [inFound] using recorded

/-! ## Deallocation -/

private theorem deallocateSectors_spec (header : FileHeader)
    (sectors : List SectorIndex) (index : Nat)
    (freeMap : BitMap Nachos.numSectors)
    (recorded : ∀ position (inside : position < sectors.length),
      ∃ word, header.dataSector ((index + position : Nat) : Int) = .ok word ∧
        word.toInt = ((sectors.get ⟨position, inside⟩).val : Int))
    (distinct : sectors.Nodup)
    (marked : ∀ sector ∈ sectors, freeMap.test sector = true) :
    ∃ cleared,
      header.deallocateSectors sectors.length index freeMap = .ok cleared ∧
      ∀ other, cleared.test other = (!decide (other ∈ sectors) && freeMap.test other) := by
  induction sectors generalizing index freeMap with
  | nil => exact ⟨freeMap, by simp [deallocateSectors]⟩
  | cons sector sectors induction =>
    obtain ⟨word, stored, value⟩ := recorded 0 (by simp)
    simp only [Nat.add_zero, List.get_eq_getElem, List.getElem_cons_zero] at stored value
    have firstAbsent := (List.nodup_cons.mp distinct).1
    have headMarked := marked sector (by simp)
    obtain ⟨cleared, success, tests⟩ := induction (index + 1) (freeMap.clear sector) (by
        intro position inside
        have shifted := recorded (position + 1) (by
          simp only [List.length_cons]
          omega)
        have sum : index + (position + 1) = index + 1 + position := by
          omega
        simpa [sum] using shifted)
      (List.nodup_cons.mp distinct).2 (by
        intro other member
        have different : other ≠ sector := by
          rintro rfl
          exact firstAbsent member
        simp [different, marked other (by simp [member])])
    refine ⟨cleared, ?_, ?_⟩
    · simp only [List.length_cons, deallocateSectors, stored, ok_bind,
        value, BitMap.checkedTest, BitMap.checkedClear,
        BitMap.checkIndex_val, headMarked, assert]
      exact success
    · intro other
      rw [tests other, BitMap.test_clear]
      by_cases same : other = sector <;> simp [same]

/-- Deallocating a header whose sectors are different, in range and marked
passes every `ASSERT` and clears exactly those sectors. -/
theorem deallocate_spec (header : FileHeader) {freeMap : BitMap Nachos.numSectors}
    {sectors : List SectorIndex}
    (listed : header.sectorList = sectors.map (fun sector => (sector.val : Int)))
    (count : header.numSectors.toInt ≤ numDirect)
    (distinct : sectors.Nodup)
    (marked : ∀ sector ∈ sectors, freeMap.test sector = true) :
    ∃ cleared, header.deallocate freeMap = .ok cleared ∧
      ∀ other, cleared.test other = (!decide (other ∈ sectors) && freeMap.test other) := by
  have length : sectors.length = header.numSectors.toInt.toNat := by
    have lengths := congrArg List.length listed
    simp only [sectorList, List.length_map, List.length_take, List.length_ofFn] at lengths
    omega
  have recorded : ∀ position (inside : position < sectors.length),
      ∃ word, header.dataSector ((0 + position : Nat) : Int) = .ok word ∧
        word.toInt = ((sectors.get ⟨position, inside⟩).val : Int) := by
    intro position inside
    have direct : position < numDirect := by omega
    refine ⟨header.dataSectors ⟨position, direct⟩, ?_, ?_⟩
    · simp [dataSector, direct]
    · have entry := congrArg (fun entries => entries[position]?) listed
      simp only [sectorList, ← length, List.getElem?_map,
        List.getElem?_take_of_lt inside, List.getElem?_ofFn, direct,
        dite_true, Option.map_some, List.getElem?_eq_getElem inside,
        Option.some.injEq] at entry
      exact entry
  unfold deallocate
  rw [← length]
  exact deallocateSectors_spec header sectors 0 freeMap recorded distinct marked

end FileHeader

end Nachos
