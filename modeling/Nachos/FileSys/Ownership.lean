import Nachos.FileSys.Metadata

/-!
# Sector ownership

A `Layout` says where each directory entry keeps its header and its data.
`Consistent` ties the layout to the bytes on the disk: every in-use entry
owns its own sectors, and the free map marks exactly the owned sectors and
those of the metadata files.  Every operation of the file system succeeds on
a consistent disk and leaves a consistent disk behind.
-/

open Words Memory Function

namespace Nachos

/-- The data sector of the free map file of a formatted disk. -/
def freeMapData : SectorIndex := ⟨2, by decide⟩

def directoryData : SectorIndex := ⟨3, by decide⟩

theorem ne_metadata {sector : SectorIndex} (apart : sector.val < 2 ∨ 4 ≤ sector.val) :
    sector ≠ freeMapData ∧ sector ≠ directoryData := by
  constructor
  all_goals
    rintro rfl
    exact absurd apart (by decide)

namespace Disk

def freeMap (disk : Disk) : BitMap numSectors :=
  BitMap.ofImage (disk.sectors freeMapData).byte

def directory (disk : Disk) : Directory numDirEntries :=
  Directory.ofImage (disk.sectors directoryData).byte

/-- The header stored in a sector. -/
def header (disk : Disk) (sector : SectorIndex) : FileHeader :=
  FileHeader.ofSector (disk.sectors sector)

end Disk

/-- Where the entries of the directory keep their headers and data. -/
structure Layout where
  home : Fin numDirEntries → SectorIndex
  blocks : Fin numDirEntries → List SectorIndex

namespace Layout

def set (layout : Layout) (index : Fin numDirEntries) (home : SectorIndex)
    (blocks : List SectorIndex) : Layout where
  home := update layout.home index home
  blocks := update layout.blocks index blocks

/-- The sectors which belong to an entry. -/
def owned (layout : Layout) (directory : Directory numDirEntries)
    (index : Fin numDirEntries) : List SectorIndex :=
  if (directory.table index).inUse then
    layout.home index :: layout.blocks index
  else []

theorem owned_used {layout : Layout} {directory : Directory numDirEntries}
    {index : Fin numDirEntries}
    (used : (directory.table index).inUse = true) :
    layout.owned directory index = layout.home index :: layout.blocks index := by
  simp [owned, used]

theorem owned_unused {layout : Layout} {directory : Directory numDirEntries}
    {index : Fin numDirEntries}
    (unused : (directory.table index).inUse = false) :
    layout.owned directory index = [] := by
  simp [owned, unused]

end Layout

/-- The two metadata files are in place. -/
structure FileSystem.Mounted (fs : FileSystem) : Prop where
  mapHeader : fs.disk.header freeMapSector = fs.freeMapFile.hdr
  mapMaps : fs.freeMapFile.hdr.Maps [freeMapData]
  mapLength : fs.freeMapFile.hdr.fileLength = (numWords numSectors * 4 : Nat)
  dirHeader : fs.disk.header directorySector = fs.directoryFile.hdr
  dirMaps : fs.directoryFile.hdr.Maps [directoryData]
  dirLength : fs.directoryFile.hdr.fileLength = (numDirEntries * directoryEntrySize : Nat)

/-- The entries of a directory own disjoint sets of sectors, and the free map
marks exactly these and the first four sectors. -/
structure Layout.Owns (layout : Layout)
    (directory : Directory numDirEntries) (freeMap : BitMap numSectors) :
    Prop where
  distinct : ∀ index, (layout.owned directory index).Nodup
  disjoint : ∀ left right, left ≠ right →
    (layout.owned directory left).Disjoint (layout.owned directory right)
  reserved : ∀ index, ∀ sector ∈ layout.owned directory index, 4 ≤ sector.val
  marked : ∀ sector, freeMap.test sector = true ↔
    sector.val < 4 ∨ ∃ index, sector ∈ layout.owned directory index

/-- The directory describes the files which the layout locates. -/
structure Layout.Describes (layout : Layout) (disk : Disk)
    (directory : Directory numDirEntries) : Prop where
  sector : ∀ index, (directory.table index).inUse = true →
    (directory.table index).sector.toInt = (layout.home index).val
  maps : ∀ index, (directory.table index).inUse = true →
    (disk.header (layout.home index)).Maps (layout.blocks index)
  keys : ∀ left right, (directory.table left).inUse = true →
    (directory.table right).inUse = true →
    (directory.table left).key = (directory.table right).key → left = right

structure FileSystem.Consistent (fs : FileSystem) (layout : Layout) :
    Prop where
  mounted : fs.Mounted
  owns : layout.Owns fs.disk.directory fs.disk.freeMap
  describes : layout.Describes fs.disk fs.disk.directory

/-! ## Changing one entry -/

namespace Directory

/-- The directory with one entry replaced. -/
def set (directory : Directory numDirEntries) (index : Fin numDirEntries)
    (entry : DirectoryEntry) : Directory numDirEntries :=
  ⟨update directory.table index entry⟩

@[simp] theorem set_same (directory : Directory numDirEntries)
    (index : Fin numDirEntries) (entry : DirectoryEntry) :
    (directory.set index entry).table index = entry := by
  simp [set]

theorem set_other (directory : Directory numDirEntries)
    {index other : Fin numDirEntries} (entry : DirectoryEntry)
    (different : other ≠ index) :
    (directory.set index entry).table other = directory.table other := by
  simp [set, different]

end Directory

namespace Layout

variable {layout : Layout} {directory : Directory numDirEntries}
  {freeMap changed : BitMap numSectors} {index : Fin numDirEntries}
  {entry : DirectoryEntry} {home : SectorIndex} {blocks : List SectorIndex}

theorem owned_set_same (used : entry.inUse = true) :
    (layout.set index home blocks).owned (directory.set index entry) index = home :: blocks := by
  simp [owned, used, set]

theorem owned_set_other {other : Fin numDirEntries} (different : other ≠ index) :
    (layout.set index home blocks).owned (directory.set index entry) other =
      layout.owned directory other := by
  simp [owned, set, different, Directory.set_other]

theorem owned_clear_same (unused : entry.inUse = false) :
    layout.owned (directory.set index entry) index = [] := by
  simp [owned, unused]

theorem owned_clear_other {other : Fin numDirEntries} (different : other ≠ index) :
    layout.owned (directory.set index entry) other =
      layout.owned directory other := by
  simp [owned, different, Directory.set_other]

section

variable (owns : layout.Owns directory freeMap)
include owns

theorem Owns.unowned {sector : SectorIndex} (unmarked : freeMap.test sector = false)
    (other : Fin numDirEntries) :
    sector ∉ layout.owned directory other := by
  intro member
  have mark := (owns.marked sector).mpr (.inr ⟨other, member⟩)
  rw [unmarked] at mark
  cases mark

theorem Owns.unreserved {sector : SectorIndex} (unmarked : freeMap.test sector = false) :
    4 ≤ sector.val := by
  by_contra low
  have mark := (owns.marked sector).mpr (.inl (by omega))
  rw [unmarked] at mark
  cases mark

theorem Owns.add (free : (directory.table index).inUse = false) (used : entry.inUse = true)
    (distinct : (home :: blocks).Nodup)
    (unmarked : ∀ sector ∈ home :: blocks, freeMap.test sector = false)
    (marks : ∀ sector, changed.test sector = true ↔
      sector ∈ home :: blocks ∨ freeMap.test sector = true) :
    (layout.set index home blocks).Owns (directory.set index entry)
      changed := by
  have others : ∀ other, other ≠ index →
      (layout.set index home blocks).owned (directory.set index entry)
        other = layout.owned directory other :=
    fun _ different => owned_set_other different
  have same : (layout.set index home blocks).owned
      (directory.set index entry) index = home :: blocks :=
    owned_set_same used
  refine ⟨?_, ?_, ?_, ?_⟩
  · intro other
    by_cases here : other = index
    · rw [here, same]
      exact distinct
    · rw [others other here]
      exact owns.distinct other
  · intro left right different
    by_cases leftHere : left = index
    · have rightOther : right ≠ index := fun equal =>
        different (leftHere.trans equal.symm)
      rw [leftHere, same, others right rightOther]
      intro sector new old
      exact owns.unowned (unmarked sector new) right old
    · by_cases rightHere : right = index
      · rw [rightHere, same, others left leftHere]
        intro sector old new
        exact owns.unowned (unmarked sector new) left old
      · rw [others left leftHere, others right rightHere]
        exact owns.disjoint left right different
  · intro other sector member
    by_cases here : other = index
    · rw [here, same] at member
      exact owns.unreserved (unmarked sector member)
    · rw [others other here] at member
      exact owns.reserved other sector member
  · intro sector
    rw [marks, owns.marked]
    constructor
    · rintro (new | low | ⟨other, old⟩)
      · exact .inr ⟨index, by rw [same]; exact new⟩
      · exact .inl low
      · have here : other ≠ index := by
          rintro rfl
          rw [owned_unused free] at old
          cases old
        exact .inr ⟨other, by rw [others other here]; exact old⟩
    · rintro (low | ⟨other, member⟩)
      · exact .inr (.inl low)
      · by_cases here : other = index
        · rw [here, same] at member
          exact .inl member
        · rw [others other here] at member
          exact .inr (.inr ⟨other, member⟩)

theorem Owns.drop (unused : entry.inUse = false)
    (marks : ∀ sector, changed.test sector = true ↔
      sector ∉ layout.owned directory index ∧ freeMap.test sector = true) :
    layout.Owns (directory.set index entry) changed := by
  have others : ∀ other, other ≠ index →
      layout.owned (directory.set index entry) other =
        layout.owned directory other :=
    fun _ different => owned_clear_other different
  have same : layout.owned (directory.set index entry) index = [] :=
    owned_clear_same unused
  have less : ∀ other sector,
      sector ∈ layout.owned (directory.set index entry) other ↔
        other ≠ index ∧ sector ∈ layout.owned directory other := by
    intro other sector
    by_cases here : other = index
    · simp [here, same]
    · simp [here, others other here]
  refine ⟨?_, ?_, ?_, ?_⟩
  · intro other
    by_cases here : other = index
    · simp [here, same]
    · rw [others other here]
      exact owns.distinct other
  · intro left right different sector leftMember rightMember
    exact owns.disjoint left right different ((less left sector).mp leftMember).2
      ((less right sector).mp rightMember).2
  · intro other sector member
    exact owns.reserved other sector ((less other sector).mp member).2
  · intro sector
    rw [marks, owns.marked]
    constructor
    · rintro ⟨kept, low | ⟨other, member⟩⟩
      · exact .inl low
      · refine .inr ⟨other, (less other sector).mpr ⟨?_, member⟩⟩
        rintro rfl
        exact kept member
    · rintro (low | ⟨other, member⟩)
      · refine ⟨?_, .inl low⟩
        intro held
        have high := owns.reserved index sector held
        omega
      · obtain ⟨different, held⟩ := (less other sector).mp member
        exact ⟨owns.disjoint other index different held, .inr ⟨other, held⟩⟩

end

theorem Describes.add {disk written : Disk} (describes : layout.Describes disk directory)
    (sector : entry.sector.toInt = home.val)
    (maps : (written.header home).Maps blocks)
    (fresh : ∀ other, (directory.table other).inUse = true →
      (directory.table other).key ≠ entry.key)
    (kept : ∀ other, (directory.table other).inUse = true →
      written.header (layout.home other) = disk.header (layout.home other)) :
    (layout.set index home blocks).Describes written (directory.set index entry) := by
  refine ⟨?_, ?_, ?_⟩
  · intro other
    by_cases here : other = index
    · subst other
      simpa [set] using fun _ => sector
    · simpa [set, here, Directory.set_other] using describes.sector other
  · intro other
    by_cases here : other = index
    · subst other
      simpa [set] using fun _ => maps
    · simp only [set, update_of_ne here, Directory.set_other directory entry here]
      intro used
      rw [kept other used]
      exact describes.maps other used
  · intro left right
    by_cases leftHere : left = index
    · by_cases rightHere : right = index
      · intro _ _ _
        exact leftHere.trans rightHere.symm
      · rw [leftHere, Directory.set_same, Directory.set_other directory entry rightHere]
        intro _ rightUsed equal
        exact absurd equal.symm (fresh right rightUsed)
    · by_cases rightHere : right = index
      · rw [rightHere, Directory.set_same, Directory.set_other directory entry leftHere]
        intro leftUsed _ equal
        exact absurd equal (fresh left leftUsed)
      · rw [Directory.set_other directory entry leftHere,
          Directory.set_other directory entry rightHere]
        exact describes.keys left right

theorem Describes.drop {disk written : Disk} (describes : layout.Describes disk directory)
    (unused : entry.inUse = false)
    (kept : ∀ other, (directory.table other).inUse = true →
      written.header (layout.home other) = disk.header (layout.home other)) :
    layout.Describes written (directory.set index entry) := by
  have before : ∀ other,
      ((directory.set index entry).table other).inUse = true →
        other ≠ index ∧ (directory.table other).inUse = true := by
    intro other used
    by_cases here : other = index
    · rw [here, Directory.set_same, unused] at used
      cases used
    · rw [Directory.set_other directory entry here] at used
      exact ⟨here, used⟩
  refine ⟨?_, ?_, ?_⟩
  · intro other used
    obtain ⟨here, old⟩ := before other used
    rw [Directory.set_other directory entry here]
    exact describes.sector other old
  · intro other used
    obtain ⟨here, old⟩ := before other used
    rw [kept other old]
    exact describes.maps other old
  · intro left right leftUsed rightUsed equal
    obtain ⟨leftHere, leftOld⟩ := before left leftUsed
    obtain ⟨rightHere, rightOld⟩ := before right rightUsed
    rw [Directory.set_other directory entry leftHere,
      Directory.set_other directory entry rightHere] at equal
    exact describes.keys left right leftOld rightOld equal

theorem Describes.frame {disk written : Disk} (describes : layout.Describes disk directory)
    (kept : ∀ other, (directory.table other).inUse = true →
      written.header (layout.home other) = disk.header (layout.home other)) :
    layout.Describes written directory := by
  refine ⟨describes.sector, ?_, describes.keys⟩
  intro other used
  rw [kept other used]
  exact describes.maps other used

end Layout

/-! ## Reading and writing the metadata -/

namespace FileSystem

variable {fs : FileSystem} {layout : Layout}

variable (mounted : fs.Mounted)
include mounted

theorem Mounted.readDirectory (table buffer : Nat → Byte) :
    fs.readDirectory table buffer = .ok fs.disk.directory :=
  Directory.fetchFrom_stored mounted.dirMaps mounted.dirLength (by decide)
    _ _ _

theorem Mounted.readFreeMap (words buffer : Nat → Byte) :
    fs.readFreeMap words buffer = .ok fs.disk.freeMap :=
  BitMap.fetchFrom_stored mounted.mapMaps mounted.mapLength (by decide)
    _ _ _

/-- Starting anew finds the two files on the first sectors again. -/
theorem Mounted.boot :
    ∃ booted, boot fs.disk = .ok booted ∧ booted.disk = fs.disk ∧ booted.Mounted := by
  have mapHeader := mounted.mapHeader
  have dirHeader := mounted.dirHeader
  refine ⟨⟨fs.disk, ⟨fs.freeMapFile.hdr, 0⟩, ⟨fs.directoryFile.hdr, 0⟩⟩, ?_, rfl, mapHeader,
    mounted.mapMaps, mounted.mapLength, dirHeader, mounted.dirMaps, mounted.dirLength⟩
  unfold Disk.header at mapHeader dirHeader
  simp only [FileSystem.boot, OpenFile.new, FileHeader.fetchFrom_val, ok_bind, pure_bind, mapHeader,
    dirHeader]
  rfl

theorem Mounted.writeDirectory (directory : Directory numDirEntries) (disk : Disk)
    (fresh : Nat → Nat → Byte) :
    ∃ written, directory.writeBack fs.directoryFile disk fresh =
        .ok written ∧
      (∀ other, other ≠ directoryData →
        written.sectors other = disk.sectors other) ∧
      written.directory = directory :=
  Directory.writeBack_stored mounted.dirMaps mounted.dirLength (by decide)
    _ _ _

theorem Mounted.writeFreeMap (freeMap : BitMap numSectors) (disk : Disk)
    (fresh : Nat → Nat → Byte) :
    ∃ written, freeMap.writeBack fs.freeMapFile disk fresh =
        .ok written ∧
      (∀ other, other ≠ freeMapData →
        written.sectors other = disk.sectors other) ∧
      written.freeMap = freeMap :=
  BitMap.writeBack_stored mounted.mapMaps mounted.mapLength (by decide)
    _ _ _

theorem Mounted.frame {written : Disk}
    (kept : ∀ sector : SectorIndex, sector.val < 2 →
      written.sectors sector = fs.disk.sectors sector) :
    Mounted { fs with disk := written } := by
  have mapKept : written.header freeMapSector =
      fs.disk.header freeMapSector := by
    unfold Disk.header
    rw [kept freeMapSector (by decide)]
  have dirKept : written.header directorySector =
      fs.disk.header directorySector := by
    unfold Disk.header
    rw [kept directorySector (by decide)]
  exact ⟨mapKept.trans mounted.mapHeader, mounted.mapMaps,
    mounted.mapLength, dirKept.trans mounted.dirHeader, mounted.dirMaps,
    mounted.dirLength⟩

end FileSystem

end Nachos
