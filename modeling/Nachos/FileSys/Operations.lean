import Nachos.FileSys.Ownership

/-!
# File system operations on a consistent disk

On a consistent disk `create`, `remove` and `open` never fail an `ASSERT` or
leave their buffers, and each either reports failure and changes nothing or
has the effect stated here and keeps the disk consistent.
-/

open Words Memory

namespace Nachos

namespace Layout

variable {layout : Layout} {disk : Disk} {directory : Directory numDirEntries}

theorem Describes.find_eq (describes : layout.Describes disk directory) (name : CString) :
    (directory.findIndex name = none ∧ directory.find name = -1) ∨
      ∃ index, directory.findIndex name = some index ∧
        (directory.table index).inUse = true ∧
        (directory.table index).key = name.key ∧
        directory.find name = (layout.home index).val := by
  unfold Directory.find
  cases found : directory.findIndex name with
  | none => exact .inl ⟨rfl, rfl⟩
  | some index =>
    obtain ⟨used, key⟩ := Directory.findIndex_inv found
    exact .inr ⟨index, rfl, used, key, describes.sector index used⟩

end Layout

theorem Directory.freeIndex_ne_none_iff {tableSize : Nat} {directory : Directory tableSize} :
    directory.freeIndex ≠ none ↔ ∃ index, (directory.table index).inUse = false := by
  unfold freeIndex
  rw [← Option.isSome_iff_ne_none, List.find?_isSome]
  constructor
  · rintro ⟨index, -, unused⟩
    exact ⟨index, by simpa using unused⟩
  · rintro ⟨index, unused⟩
    exact ⟨index, List.mem_finRange index, by simp [unused]⟩

namespace FileSystem

variable {fs : FileSystem} {layout : Layout}

/-- The effect of a successful `create`. -/
structure Created (fs created : FileSystem) (name : CString)
    (initialSize : Int) (index : Fin numDirEntries) (home : SectorIndex)
    (blocks : List SectorIndex) : Prop where
  absent : fs.disk.directory.findIndex name = none
  free : (fs.disk.directory.table index).inUse = false
  unmarked : ∀ sector ∈ home :: blocks, fs.disk.freeMap.test sector = false
  directory : created.disk.directory = fs.disk.directory.set index
    (Directory.filledEntry (fs.disk.directory.table index) name home.val)
  length : (created.disk.header home).fileLength = initialSize
  kept : ∀ sector, sector ≠ freeMapData → sector ≠ directoryData →
    sector ≠ home → created.disk.sectors sector = fs.disk.sectors sector

variable {home : SectorIndex}

private theorem Mounted.flushCreate (mounted : fs.Mounted) (hdr : FileHeader)
    (high : 4 ≤ home.val) (directory : Directory numDirEntries)
    (freeMap : BitMap numSectors) (fresh : Nat → Nat → Byte) :
    ∃ written,
      fs.flushCreate hdr home.val directory freeMap fresh =
        .ok { fs with disk := written } ∧
      written.header home = hdr ∧ written.directory = directory ∧
      written.freeMap = freeMap ∧
      ∀ sector, sector ≠ freeMapData → sector ≠ directoryData →
        sector ≠ home →
        written.sectors sector = fs.disk.sectors sector := by
  obtain ⟨listed, dirSuccess, dirFrame, dirStored⟩ :=
    mounted.writeDirectory directory (fs.disk.set home hdr.toSector) fresh
  obtain ⟨written, mapSuccess, mapFrame, mapStored⟩ :=
    mounted.writeFreeMap freeMap listed (later fresh 3)
  obtain ⟨notMap, notDirectory⟩ := ne_metadata (.inr high)
  refine ⟨written, ?_, ?_, ?_, mapStored, ?_⟩
  · simp only [FileSystem.flushCreate, FileHeader.writeBack_val, ok_bind, dirSuccess, mapSuccess]
    rfl
  · unfold Disk.header
    rw [mapFrame home notMap, dirFrame home notDirectory, Disk.set_same,
      FileHeader.ofSector_toSector]
  · rw [← dirStored]
    unfold Disk.directory
    rw [mapFrame directoryData (by decide)]
  · intro sector otherMap otherDirectory otherHome
    rw [mapFrame sector otherMap, dirFrame sector otherDirectory, Disk.set_other _ _ otherHome]

/-- Headers of files stay in place when only unowned sectors and the metadata
are written. -/
theorem Consistent.headers_kept (consistent : fs.Consistent layout)
    {written : Disk} (changed : SectorIndex → Prop)
    (unowned : ∀ sector, changed sector → ∀ index, sector ∉ layout.owned fs.disk.directory index)
    (kept : ∀ sector, sector ≠ freeMapData → sector ≠ directoryData →
      ¬changed sector → written.sectors sector = fs.disk.sectors sector) :
    ∀ index, (fs.disk.directory.table index).inUse = true →
      written.header (layout.home index) = fs.disk.header (layout.home index) := by
  intro index used
  have member : layout.home index ∈ layout.owned fs.disk.directory index := by
    rw [Layout.owned_used used]
    exact List.mem_cons_self
  obtain ⟨notMap, notDirectory⟩ := ne_metadata (.inr (consistent.owns.reserved index _ member))
  unfold Disk.header
  rw [kept _ notMap notDirectory fun touched => unowned _ touched index member]

variable {index : Fin numDirEntries} {initialSize : Int} {name : CString}

theorem Consistent.created_headers (consistent : fs.Consistent layout)
    {created : FileSystem} {blocks : List SectorIndex}
    (effect : Created fs created name initialSize index home blocks) :
    ∀ other, (fs.disk.directory.table other).inUse = true →
      created.disk.header (layout.home other) = fs.disk.header (layout.home other) := by
  apply consistent.headers_kept (fun sector => sector = home)
  · rintro sector rfl other
    exact consistent.owns.unowned (effect.unmarked _ (by simp)) other
  · exact effect.kept

private theorem Consistent.created (consistent : fs.Consistent layout)
    {created : FileSystem} {blocks : List SectorIndex}
    (effect : Created fs created name initialSize index home blocks)
    (files : created.freeMapFile = fs.freeMapFile ∧ created.directoryFile = fs.directoryFile)
    (maps : (created.disk.header home).Maps blocks)
    (distinct : (home :: blocks).Nodup)
    (marks : ∀ sector, created.disk.freeMap.test sector = true ↔
      sector ∈ home :: blocks ∨ fs.disk.freeMap.test sector = true) :
    created.Consistent (layout.set index home blocks) := by
  have high : 4 ≤ home.val :=
    consistent.owns.unreserved (effect.unmarked home (by simp))
  have low : ∀ sector : SectorIndex, sector.val < 2 →
      created.disk.sectors sector = fs.disk.sectors sector := by
    intro sector below
    obtain ⟨notMap, notDirectory⟩ := ne_metadata (.inl below)
    apply effect.kept sector notMap notDirectory
    rintro rfl
    omega
  refine ⟨?_, ?_, ?_⟩
  · have mounted := consistent.mounted.frame low
    rw [← files.1, ← files.2] at mounted
    exact mounted
  · rw [effect.directory]
    exact consistent.owns.add effect.free rfl distinct effect.unmarked marks
  · rw [effect.directory]
    apply consistent.describes.add
    · exact toInt_ofInt_eq (sector_inRange home)
    · exact maps
    · intro other used
      rw [Directory.filledEntry_key]
      exact (Directory.findIndex_none_iff _ name).mp effect.absent other used
    · exact consistent.created_headers effect

private theorem Consistent.create_granted (consistent : fs.Consistent layout)
    (name : CString) (inRange : InRange initialSize)
    (small : initialSize ≤ maxFileSize)
    (absent : fs.disk.directory.findIndex name = none)
    (free : fs.disk.directory.freeIndex = some index)
    (clear : fs.disk.freeMap.test home = false)
    (taken : fs.disk.freeMap.find = ((home.val : Int), fs.disk.freeMap.mark home))
    (room : divRoundUp initialSize sectorSize ≤
      (fs.disk.freeMap.mark home).numClear) (fresh : Nat → Nat → Byte) :
    ∃ created index home blocks,
      fs.create name initialSize fresh = .ok (true, created) ∧
      Created fs created name initialSize index home blocks ∧
      created.Consistent (layout.set index home blocks) := by
  have mounted := consistent.mounted
  have unlisted : fs.disk.directory.find name = -1 := by
    simp [Directory.find, absent]
  have found : ((home.val : Nat) : Int) ≠ -1 := by omega
  obtain ⟨hdr, freeMap, blocks, allocated, length, count, listed, -,
    distinct, unmarked, marks⟩ := FileHeader.allocate_granted
      (FileHeader.ofImage (fresh 4)) inRange small room
  obtain ⟨written, flushed, header, directory, stored, kept⟩ :=
    mounted.flushCreate hdr (consistent.owns.unreserved clear) (fs.disk.directory.set index
        (Directory.filledEntry (fs.disk.directory.table index) name
          home.val)) freeMap (later fresh 5)
  have blockClear : ∀ sector ∈ blocks, sector ≠ home ∧ fs.disk.freeMap.test sector = false := by
    intro sector member
    have still := unmarked sector member
    rw [BitMap.test_mark, Bool.or_eq_false_iff] at still
    exact ⟨by simpa using still.1, still.2⟩
  have effect : Created fs { fs with disk := written } name initialSize
      index home blocks := by
    refine ⟨absent, Directory.freeIndex_inv free, ?_, directory, ?_, kept⟩
    · intro sector member
      rcases List.mem_cons.mp member with rfl | later
      · exact clear
      · exact (blockClear sector later).2
    · change (written.header home).fileLength = initialSize
      rw [header, length]
  refine ⟨{ fs with disk := written }, index, home, blocks, ?_, effect, ?_⟩
  · simp only [FileSystem.create, mounted.readDirectory,
      mounted.readFreeMap, ok_bind, unlisted, taken, if_neg found,
      Directory.add, absent, free, allocated]
    change (fs.flushCreate hdr home.val _ freeMap (later fresh 5) >>=
      fun fs => Except.ok (true, fs)) = _
    rw [Directory.set] at flushed
    rw [flushed]
    rfl
  · apply consistent.created effect ⟨rfl, rfl⟩
    · change (written.header home).Maps blocks
      rw [header]
      exact ⟨by rw [length]; exact small, by rw [count, length], listed, distinct⟩
    · refine List.nodup_cons.mpr ⟨?_, distinct⟩
      intro member
      exact (blockClear home member).1 rfl
    · intro sector
      change written.freeMap.test sector = true ↔ _
      rw [stored, marks, BitMap.test_mark, Bool.or_eq_true,
        Bool.or_eq_true, decide_eq_true_iff, decide_eq_true_iff,
        List.mem_cons]
      exact or_left_comm.trans or_assoc.symm

/-- What `create` needs: an absent name, a free entry, and free sectors for
the header and the data. -/
structure Creatable (fs : FileSystem) (name : CString)
    (initialSize : Int) : Prop where
  absent : fs.disk.directory.findIndex name = none
  entry : fs.disk.directory.freeIndex ≠ none
  home : 0 < fs.disk.freeMap.numClear
  room : divRoundUp initialSize sectorSize + 1 ≤ fs.disk.freeMap.numClear

theorem Consistent.create_of_creatable (consistent : fs.Consistent layout)
    (creatable : fs.Creatable name initialSize) (inRange : InRange initialSize)
    (small : initialSize ≤ maxFileSize) (fresh : Nat → Nat → Byte) :
    ∃ created index home blocks,
      fs.create name initialSize fresh = .ok (true, created) ∧
      Created fs created name initialSize index home blocks ∧
      created.Consistent (layout.set index home blocks) := by
  obtain ⟨home, clear, taken⟩ := BitMap.find_of_clear creatable.home
  obtain ⟨index, free⟩ := Option.ne_none_iff_exists'.mp creatable.entry
  have room : divRoundUp initialSize sectorSize ≤ (fs.disk.freeMap.mark home).numClear := by
    have fewer := BitMap.numClear_mark clear
    have enough := creatable.room
    omega
  exact consistent.create_granted name inRange small creatable.absent free clear taken room fresh

/-- Whatever is missing, `create` reports failure before anything is
written. -/
theorem Consistent.create_of_not_creatable (consistent : fs.Consistent layout)
    (missing : ¬fs.Creatable name initialSize) (fresh : Nat → Nat → Byte) :
    fs.create name initialSize fresh = .ok (false, fs) := by
  have mounted := consistent.mounted
  rcases consistent.describes.find_eq name with
    ⟨absent, unlisted⟩ | ⟨index, _, _, _, listed⟩
  · by_cases full : fs.disk.freeMap.numClear = 0
    · simp only [FileSystem.create, mounted.readDirectory,
        mounted.readFreeMap, ok_bind, unlisted, BitMap.find_of_full full]
      rfl
    · obtain ⟨home, clear, taken⟩ := BitMap.find_of_clear (Nat.pos_of_ne_zero full)
      have found : ((home.val : Nat) : Int) ≠ -1 := by omega
      cases free : fs.disk.directory.freeIndex with
      | none =>
        simp only [FileSystem.create, mounted.readDirectory,
          mounted.readFreeMap, ok_bind, unlisted, taken, if_neg found,
          Directory.add, absent, free]
        rfl
      | some index =>
        have tooFew : ((fs.disk.freeMap.mark home).numClear : Int) <
            divRoundUp initialSize sectorSize := by
          by_contra enough
          apply missing
          constructor
          · exact absent
          · rw [free]
            exact Option.some_ne_none index
          · exact Nat.pos_of_ne_zero full
          · have fewer := BitMap.numClear_mark clear
            omega
        obtain ⟨partialHeader, refused⟩ :=
          FileHeader.allocate_refused (FileHeader.ofImage (fresh 4)) tooFew
        simp only [FileSystem.create, mounted.readDirectory,
          mounted.readFreeMap, ok_bind, unlisted, taken, if_neg found,
          Directory.add, absent, free, refused]
        rfl
  · have found : fs.disk.directory.find name ≠ -1 := by
      rw [listed]
      omega
    simp only [FileSystem.create, mounted.readDirectory, ok_bind, if_pos found]
    rfl

/-- `create` either fails and changes nothing, or adds a file with the given
length under the absent name. -/
theorem Consistent.create (consistent : fs.Consistent layout) (name : CString)
    (inRange : InRange initialSize) (small : initialSize ≤ maxFileSize)
    (fresh : Nat → Nat → Byte) :
    fs.create name initialSize fresh = .ok (false, fs) ∨
      ∃ created index home blocks,
        fs.create name initialSize fresh = .ok (true, created) ∧
        Created fs created name initialSize index home blocks ∧
        created.Consistent (layout.set index home blocks) := by
  by_cases creatable : fs.Creatable name initialSize
  · exact .inr (consistent.create_of_creatable creatable inRange small fresh)
  · exact .inl (consistent.create_of_not_creatable creatable fresh)

/-- The effect of a successful `remove`. -/
structure Removed (fs removed : FileSystem) (name : CString)
    (index : Fin numDirEntries) : Prop where
  listed : fs.disk.directory.findIndex name = some index
  directory : removed.disk.directory = fs.disk.directory.set index
    { fs.disk.directory.table index with inUse := false }
  kept : ∀ sector, sector ≠ freeMapData → sector ≠ directoryData →
    removed.disk.sectors sector = fs.disk.sectors sector

section

variable (consistent : fs.Consistent layout)
include consistent

theorem Consistent.removed_headers {removed : FileSystem} (effect : Removed fs removed name index) :
    ∀ other, (fs.disk.directory.table other).inUse = true →
      removed.disk.header (layout.home other) = fs.disk.header (layout.home other) := by
  apply consistent.headers_kept (fun _ => False)
  · intro _ impossible
    exact impossible.elim
  · intro sector otherMap otherDirectory _
    exact effect.kept sector otherMap otherDirectory

/-- `remove` fails exactly for absent names, and otherwise frees the sectors
of the file and forgets its entry. -/
theorem Consistent.remove (name : CString) (fresh : Nat → Nat → Byte) :
    (fs.disk.directory.findIndex name = none ∧
      fs.remove name fresh = .ok (false, fs)) ∨
    ∃ removed index,
      fs.remove name fresh = .ok (true, removed) ∧
      Removed fs removed name index ∧ removed.Consistent layout := by
  have mounted := consistent.mounted
  rcases consistent.describes.find_eq name with
    ⟨absent, unlisted⟩ | ⟨index, found, used, _, listed⟩
  · refine .inl ⟨absent, ?_⟩
    simp only [FileSystem.remove, mounted.readDirectory, ok_bind, unlisted]
    rfl
  · have maps := consistent.describes.maps index used
    have owned : layout.owned fs.disk.directory index = layout.home index :: layout.blocks index :=
      Layout.owned_used used
    have marked : ∀ sector ∈ layout.blocks index, fs.disk.freeMap.test sector = true := by
      intro sector member
      refine (consistent.owns.marked sector).mpr (.inr ⟨index, ?_⟩)
      rw [owned]
      exact List.mem_cons_of_mem _ member
    obtain ⟨cleared, success, tests⟩ :=
      FileHeader.deallocate_spec (fs.disk.header (layout.home index)) maps.listed (by
          rw [maps.count]
          exact FileHeader.divRoundUp_sectorSize_le maps.length_le)
        maps.distinct marked
    let entry : DirectoryEntry :=
      { fs.disk.directory.table index with inUse := false }
    obtain ⟨mapped, mapSuccess, mapFrame, mapStored⟩ :=
      mounted.writeFreeMap (cleared.clear (layout.home index)) fs.disk (later fresh 4)
    obtain ⟨written, dirSuccess, dirFrame, dirStored⟩ :=
      mounted.writeDirectory (fs.disk.directory.set index entry) mapped (later fresh 7)
    have freeMapStored : written.freeMap = cleared.clear (layout.home index) := by
      rw [← mapStored]
      unfold Disk.freeMap
      rw [dirFrame freeMapData (by decide)]
    have kept : ∀ sector, sector ≠ freeMapData → sector ≠ directoryData →
        written.sectors sector = fs.disk.sectors sector := by
      intro sector otherMap otherDirectory
      rw [dirFrame sector otherDirectory, mapFrame sector otherMap]
    have effect : Removed fs { fs with disk := written } name index :=
      ⟨found, dirStored, kept⟩
    refine .inr ⟨{ fs with disk := written }, index, ?_, effect, ?_, ?_, ?_⟩
    · have present : ((layout.home index).val : Int) ≠ -1 := by omega
      unfold Disk.header at success
      simp only [FileSystem.remove, mounted.readDirectory, ok_bind, listed,
        if_neg present, FileHeader.fetchFrom_val, mounted.readFreeMap,
        success, BitMap.checkedClear, BitMap.checkIndex_val, pure_bind,
        Directory.remove, found, mapSuccess]
      rw [Directory.set] at dirSuccess
      simp only [entry] at dirSuccess
      rw [dirSuccess]
      rfl
    · apply mounted.frame
      intro sector low
      obtain ⟨notMap, notDirectory⟩ := ne_metadata (.inl low)
      exact kept sector notMap notDirectory
    · change layout.Owns written.directory written.freeMap
      rw [dirStored, freeMapStored]
      apply consistent.owns.drop rfl
      intro sector
      rw [owned, BitMap.test_clear, tests sector]
      simp only [Bool.and_eq_true, Bool.not_eq_true', decide_eq_false_iff_not,
        List.mem_cons, not_or, and_assoc]
    · change layout.Describes written written.directory
      rw [dirStored]
      have headers := consistent.removed_headers effect
      exact consistent.describes.drop rfl headers

theorem Consistent.open (name : CString) (fresh : Nat → Nat → Byte) :
    (fs.disk.directory.findIndex name = none ∧
      fs.open name fresh = .ok none) ∨
    ∃ index, fs.disk.directory.findIndex name = some index ∧
      (fs.disk.directory.table index).inUse = true ∧
      (fs.disk.directory.table index).key = name.key ∧
      fs.open name fresh = .ok (some ⟨fs.disk.header (layout.home index), 0⟩) := by
  have mounted := consistent.mounted
  rcases consistent.describes.find_eq name with
    ⟨absent, unlisted⟩ | ⟨index, found, used, key, listed⟩
  · refine .inl ⟨absent, ?_⟩
    simp only [FileSystem.open, mounted.readDirectory, ok_bind, unlisted]
    rfl
  · refine .inr ⟨index, found, used, key, ?_⟩
    have present : ((layout.home index).val : Int) ≥ 0 := by omega
    simp only [FileSystem.open, mounted.readDirectory, ok_bind, listed,
      if_pos present, OpenFile.new, FileHeader.fetchFrom_val]
    rfl

/-- Writing the data sectors of one file keeps the disk consistent. -/
theorem Consistent.frame (used : (fs.disk.directory.table index).inUse = true) {written : Disk}
    (kept : ∀ sector, sector ∉ layout.blocks index →
      written.sectors sector = fs.disk.sectors sector) :
    Consistent { fs with disk := written } layout ∧
      written.directory = fs.disk.directory ∧
      ∀ other, (fs.disk.directory.table other).inUse = true →
        written.header (layout.home other) = fs.disk.header (layout.home other) := by
  have owned : layout.owned fs.disk.directory index =
      layout.home index :: layout.blocks index := Layout.owned_used used
  have low : ∀ sector : SectorIndex, sector.val < 4 →
      written.sectors sector = fs.disk.sectors sector := by
    intro sector below
    apply kept
    intro member
    have high := consistent.owns.reserved index sector (by
      rw [owned]
      exact List.mem_cons_of_mem _ member)
    omega
  have sameDirectory : written.directory = fs.disk.directory := by
    unfold Disk.directory
    rw [low directoryData (by decide)]
  have sameMap : written.freeMap = fs.disk.freeMap := by
    unfold Disk.freeMap
    rw [low freeMapData (by decide)]
  have headers : ∀ other, (fs.disk.directory.table other).inUse = true →
      written.header (layout.home other) = fs.disk.header (layout.home other) := by
    intro other otherUsed
    have otherOwned : layout.home other ∈ layout.owned fs.disk.directory other := by
      rw [Layout.owned_used otherUsed]
      exact List.mem_cons_self
    unfold Disk.header
    rw [kept]
    intro member
    by_cases same : other = index
    · have distinct := consistent.owns.distinct index
      rw [owned, ← same] at distinct
      rw [← same] at member
      exact (List.nodup_cons.mp distinct).1 member
    · refine consistent.owns.disjoint other index same otherOwned ?_
      rw [owned]
      exact List.mem_cons_of_mem _ member
  refine ⟨⟨?_, ?_, ?_⟩, sameDirectory, headers⟩
  · exact consistent.mounted.frame fun sector below => low sector (by omega)
  · change layout.Owns written.directory written.freeMap
    rw [sameDirectory, sameMap]
    exact consistent.owns
  · change layout.Describes written written.directory
    rw [sameDirectory]
    exact consistent.describes.frame headers

end

/-! ## Formatting -/

variable {freeMap : BitMap numSectors}

/-- Allocating a file of one sector takes the least clear sector. -/
private theorem allocate_single (header : FileHeader) (sector : SectorIndex)
    {fileSize : Nat} (positive : 0 < fileSize) (small : fileSize ≤ 512)
    (clear : freeMap.test sector = false)
    (below : ∀ other, other < sector → freeMap.test other = true) :
    ∃ allocated marked,
      header.allocate freeMap fileSize = .ok (true, allocated, marked) ∧
      allocated.fileLength = fileSize ∧ allocated.Maps [sector] ∧
      ∀ other, marked.test other = (decide (other = sector) || freeMap.test other) := by
  have one : divRoundUp fileSize sectorSize = 1 := by
    have rounded := divRoundUp_sectorSize fileSize
    omega
  have inRange : InRange (fileSize : Int) := by
    unfold InRange
    omega
  have limited : (fileSize : Int) ≤ maxFileSize := by
    have limit : (maxFileSize : Int) = 64512 := rfl
    rw [limit]
    omega
  have room : divRoundUp fileSize sectorSize ≤ (freeMap.numClear : Int) := by
    have some := BitMap.numClear_pos clear
    omega
  obtain ⟨allocated, marked, found, success, length, count, listed, results, distinct, -, marks⟩ :=
      FileHeader.allocate_granted header inRange limited room
  have taken : found = [sector] := by
    rw [one] at results
    simp only [Int.toNat_one, BitMap.findMany, BitMap.find_first clear below] at results
    obtain ⟨first, rfl⟩ := List.length_eq_one_iff.mp (by
      simpa using (congrArg List.length results).symm)
    simp only [List.map_cons, List.map_nil, List.cons.injEq, and_true] at results
    rw [List.cons.injEq]
    exact ⟨Fin.ext (by omega), rfl⟩
  subst taken
  refine ⟨allocated, marked, success, length, ?_, by simpa using marks⟩
  exact ⟨by rw [length]; exact limited, by rw [count, length], listed, distinct⟩

/-- The free map of an empty disk marks the first `count` sectors. -/
private def MarksFirst (freeMap : BitMap numSectors) (count : Nat) : Prop :=
  ∀ sector, freeMap.test sector = decide (sector.val < count)

private theorem MarksFirst.next {changed : BitMap numSectors}
    {sector : SectorIndex} (first : MarksFirst freeMap sector.val)
    (tests : ∀ other, changed.test other = (decide (other = sector) || freeMap.test other)) :
    MarksFirst changed (sector.val + 1) := by
  intro other
  rw [tests other, first other, ← Bool.decide_or]
  congr 1
  rw [Fin.ext_iff, eq_iff_iff]
  omega

private theorem MarksFirst.allocate {sector : SectorIndex}
    (first : MarksFirst freeMap sector.val) (header : FileHeader)
    (fileSize : Nat) (positive : 0 < fileSize) (small : fileSize ≤ 512) :
    ∃ allocated marked,
      header.allocate freeMap fileSize = .ok (true, allocated, marked) ∧
      allocated.fileLength = fileSize ∧ allocated.Maps [sector] ∧
      MarksFirst marked (sector.val + 1) := by
  obtain ⟨allocated, marked, success, length, maps, tests⟩ :=
    allocate_single header sector positive small (by rw [first]; simp) (by
        intro other below
        rw [first]
        simpa using below)
  exact ⟨allocated, marked, success, length, maps, first.next tests⟩

/-- Formatting succeeds and gives a consistent disk without files. -/
theorem format_spec (disk : Disk) (fresh : Nat → Nat → Byte) :
    ∃ fs layout, format disk fresh = .ok fs ∧ fs.Consistent layout ∧
      ∀ index, (fs.disk.directory.table index).inUse = false := by
  have zero : MarksFirst (newFreeMap (fresh 0)) freeMapSector.val := by
    intro sector
    simp [newFreeMap, freeMapSector]
  have one : MarksFirst ((newFreeMap (fresh 0)).mark freeMapSector)
      directorySector.val := zero.next (BitMap.test_mark _ _)
  have two : MarksFirst (((newFreeMap (fresh 0)).mark freeMapSector).mark
      directorySector) freeMapData.val := one.next (BitMap.test_mark _ _)
  obtain ⟨mapHdr, mapMarked, mapSuccess, mapLength, mapMaps, three⟩ :=
    two.allocate (FileHeader.ofImage (fresh 2)) freeMapFileSize (by decide) (by decide)
  have threeHere : MarksFirst mapMarked directoryData.val := three
  obtain ⟨dirHdr, freeMap, dirSuccess, dirLength, dirMaps, four⟩ :=
    threeHere.allocate (FileHeader.ofImage (fresh 3)) directoryFileSize (by decide) (by decide)
  let headed : Disk := (disk.set freeMapSector mapHdr.toSector).set directorySector dirHdr.toSector
  have mapStored : headed.header freeMapSector = mapHdr := by
    unfold Disk.header
    rw [Disk.set_other _ _ (by decide), Disk.set_same, FileHeader.ofSector_toSector]
  have dirStored : headed.header directorySector = dirHdr := by
    unfold Disk.header
    rw [Disk.set_same, FileHeader.ofSector_toSector]
  have mounted : Mounted ⟨headed, ⟨mapHdr, 0⟩, ⟨dirHdr, 0⟩⟩ :=
    ⟨mapStored, mapMaps, mapLength, dirStored, dirMaps, dirLength⟩
  obtain ⟨mapped, mapWritten, mapFrame, mapResult⟩ :=
    mounted.writeFreeMap freeMap headed (later fresh 4)
  obtain ⟨written, dirWritten, dirFrame, dirResult⟩ :=
    mounted.writeDirectory (newDirectory (fresh 1)) mapped (later fresh 7)
  have freeMapResult : written.freeMap = freeMap := by
    rw [← mapResult]
    unfold Disk.freeMap
    rw [dirFrame freeMapData (by decide)]
  have empty : ∀ index, (written.directory.table index).inUse = false := by
    intro index
    rw [dirResult]
    rfl
  refine ⟨⟨written, ⟨mapHdr, 0⟩, ⟨dirHdr, 0⟩⟩,
    ⟨fun _ => freeMapSector, fun _ => []⟩, ?_, ⟨?_, ?_, ?_⟩, empty⟩
  · unfold Disk.header at mapStored dirStored
    simp only [format, BitMap.checkedMark, BitMap.checkIndex_val, ok_bind,
      pure_bind, mapSuccess, dirSuccess, assert, if_true,
      FileHeader.writeBack_val, OpenFile.new, FileHeader.fetchFrom_val]
    simp only [headed] at mapStored dirStored mapWritten
    simp only [mapStored, dirStored, mapWritten, dirWritten, ok_bind]
    rfl
  · apply mounted.frame
    intro sector low
    obtain ⟨notMap, notDirectory⟩ := ne_metadata (.inl low)
    rw [dirFrame sector notDirectory, mapFrame sector notMap]
  · have nothing : ∀ index, Layout.owned
        ⟨fun _ => freeMapSector, fun _ => []⟩ written.directory index = [] :=
      fun index => Layout.owned_unused (empty index)
    change Layout.Owns _ written.directory written.freeMap
    refine ⟨by simp [nothing], by simp [nothing], by simp [nothing], ?_⟩
    · intro sector
      have count : directoryData.val + 1 = 4 := rfl
      rw [freeMapResult, four sector, count, decide_eq_true_iff]
      simp only [nothing, List.not_mem_nil, exists_false, or_false]
  · change Layout.Describes _ written written.directory
    constructor <;> simp [empty]

/-! ## Room for a file -/

theorem creatable_iff (nonneg : 0 ≤ initialSize) :
    fs.Creatable name initialSize ↔
      (∀ index, (fs.disk.directory.table index).inUse = true →
        (fs.disk.directory.table index).key ≠ name.key) ∧
      (∃ index, (fs.disk.directory.table index).inUse = false) ∧
      1 + (initialSize + (sectorSize - 1)) / sectorSize ≤
        fs.disk.freeMap.numClear := by
  have size := sectorSize_eq
  have rounded := divRoundUp_sectorSize initialSize
  rw [size]
  constructor
  · intro creatable
    have room := creatable.room
    refine ⟨?_, ?_, by omega⟩
    · exact (Directory.findIndex_none_iff _ name).mp creatable.absent
    · exact Directory.freeIndex_ne_none_iff.mp creatable.entry
  · rintro ⟨absent, unused, room⟩
    constructor
    · exact (Directory.findIndex_none_iff _ name).mpr absent
    · exact Directory.freeIndex_ne_none_iff.mpr unused
    · omega
    · omega

theorem format_creatable (disk : Disk) (fresh : Nat → Nat → Byte) :
    ∃ fs layout, format disk fresh = .ok fs ∧ fs.Consistent layout ∧ fs.Creatable [97#8] 600 := by
  obtain ⟨fs, layout, formatted, consistent, unused⟩ :=
    format_spec disk fresh
  refine ⟨fs, layout, formatted, consistent, ?_⟩
  have clear : ∀ sector : SectorIndex, 4 ≤ sector.val → fs.disk.freeMap.test sector = false := by
    intro sector high
    apply Bool.eq_false_of_not_eq_true
    rw [consistent.owns.marked]
    rintro (low | ⟨index, member⟩)
    · omega
    · rw [Layout.owned_unused (unused index)] at member
      exact List.not_mem_nil member
  let some : Finset SectorIndex :=
    {⟨4, by decide⟩, ⟨5, by decide⟩, ⟨6, by decide⟩}
  have enough : some ⊆ fs.disk.freeMap.clearBits := by
    intro sector member
    refine Finset.mem_filter.mpr ⟨Finset.mem_univ sector, clear sector ?_⟩
    revert member
    simp only [some, Finset.mem_insert, Finset.mem_singleton]
    rintro (rfl | rfl | rfl) <;> decide
  have count := Finset.card_le_card enough
  rw [← BitMap.numClear_eq_card] at count
  have three : some.card = 3 := by decide
  have size : (600 + ((sectorSize : Int) - 1)) / sectorSize = 2 := by decide
  rw [creatable_iff (by decide), size]
  refine ⟨?_, ⟨⟨0, by decide⟩, unused _⟩, by omega⟩
  intro index used
  rw [unused index] at used
  cases used

end FileSystem

end Nachos
