import Nachos.FileSys.Refinement

/-!
# Creating a file and removing it again

On a consistent disk `create` succeeds exactly if the name is absent, the
directory has a free entry, and there are free sectors for the header and
the data.  If it fails, the disk is as before, at whatever point it gives
up.  `remove` undoes a `create`: it finds the same sectors again, through the
header on the disk, and gives them back.
-/

open Words Memory

namespace Nachos

namespace Directory

variable {tableSize : Nat} {directory : Directory tableSize}

/-- Only the entries which are in use matter to `Find`. -/
theorem find_congr {changed : Directory tableSize}
    (agree : ∀ index, changed.table index = directory.table index ∨
      (changed.table index).inUse = false ∧ (directory.table index).inUse = false)
    (name : CString) : changed.find name = directory.find name := by
  have matching : changed.matchesName name = directory.matchesName name := by
    funext index
    unfold matchesName
    rcases agree index with same | ⟨unused, unused'⟩
    · rw [same]
    · rw [unused, unused']
      rfl
  have same : changed.findIndex name = directory.findIndex name := by
    unfold findIndex
    rw [matching]
  unfold find
  rw [same]
  cases found : directory.findIndex name with
  | none => rfl
  | some index =>
    have used := (findIndex_inv found).1
    rcases agree index with kept | ⟨-, unused⟩
    · simp only [kept]
    · rw [used] at unused
      cases unused

end Directory

namespace FileSystem

variable {fs : FileSystem} {layout : Layout}

theorem fileSize_inRange {size : Int} (nonneg : 0 ≤ size)
    (small : size ≤ maxFileSize) : InRange size := by
  have limit : (maxFileSize : Int) = 64512 := rfl
  unfold InRange
  omega

/-- On a consistent disk `create` returns `TRUE` exactly if no entry in use
has the name, an entry is free, and there are sectors for the header and for
the data; if it returns `FALSE` it has written nothing. -/
theorem create_succeeds_iff (consistent : fs.Consistent layout)
    (name : CString) (initialSize : Int) (nonneg : 0 ≤ initialSize)
    (small : initialSize ≤ maxFileSize) (fresh : Nat → Nat → Byte) :
    ∃ success after,
      fs.create name initialSize fresh = .ok (success, after) ∧
      (success = true ↔
        (∀ index, (fs.disk.directory.table index).inUse = true →
          (fs.disk.directory.table index).key ≠ name.key) ∧
        (∃ index, (fs.disk.directory.table index).inUse = false) ∧
        1 + (initialSize + (sectorSize - 1)) / sectorSize ≤
          fs.disk.freeMap.numClear) ∧
      (success = false → ∀ sector, after.disk.sectors sector = fs.disk.sectors sector) := by
  have inRange := fileSize_inRange nonneg small
  rw [← creatable_iff nonneg]
  by_cases creatable : fs.Creatable name initialSize
  · obtain ⟨created, -, -, -, success, -, -⟩ :=
      consistent.create_of_creatable creatable inRange small fresh
    refine ⟨true, created, success, iff_of_true rfl creatable, ?_⟩
    rintro ⟨⟩
  · refine ⟨false, fs, consistent.create_of_not_creatable creatable fresh,
      iff_of_false (by decide) creatable, ?_⟩
    intro _ sector
    rfl

theorem create_succeeds_iff_small_file :
    ∃ fs after, format ⟨fun _ _ => 0#8⟩ (fun _ _ => 0#8) = .ok fs ∧
      fs.create [97#8] 600 (fun _ _ => 0#8) = .ok (true, after) := by
  obtain ⟨fs, layout, formatted, consistent, creatable⟩ :=
    format_creatable ⟨fun _ _ => 0#8⟩ (fun _ _ => 0#8)
  obtain ⟨success, after, created, granted, -⟩ :=
    create_succeeds_iff consistent [97#8] 600 (by decide) (by decide) (fun _ _ => 0#8)
  rw [granted.mpr ((creatable_iff (by decide)).mp creatable)] at created
  exact ⟨fs, after, formatted, created⟩

/-! ## The way back -/

variable {home : SectorIndex} {index : Fin numDirEntries} {initialSize : Int}

theorem Consistent.owned_kept (consistent : fs.Consistent layout)
    {written : Disk} (clear : fs.disk.freeMap.test home = false)
    (kept : ∀ sector, sector ≠ freeMapData → sector ≠ directoryData →
      sector ≠ home → written.sectors sector = fs.disk.sectors sector)
    {sector : SectorIndex}
    (owned : sector ∈ layout.owned fs.disk.directory index) :
    written.sectors sector = fs.disk.sectors sector := by
  obtain ⟨notMap, notDirectory⟩ := ne_metadata (.inr (consistent.owns.reserved index sector owned))
  apply kept sector notMap notDirectory
  rintro rfl
  exact consistent.owns.unowned clear index owned

theorem Created.found {created : FileSystem} {name : CString} {blocks : List SectorIndex}
    (effect : Created fs created name initialSize index home blocks)
    {changed : Layout} (consistent : created.Consistent changed)
    {found : Option (Fin numDirEntries)}
    (search : created.disk.directory.findIndex name = found) :
    found = some index := by
  have used : (created.disk.directory.table index).inUse = true := by
    rw [effect.directory, Directory.set_same]
    rfl
  have key : (created.disk.directory.table index).key = name.key := by
    rw [effect.directory, Directory.set_same, Directory.filledEntry_key]
  cases found with
  | none =>
    exact absurd key ((Directory.findIndex_none_iff _ name).mp search index used)
  | some other =>
    obtain ⟨otherUsed, otherKey⟩ := Directory.findIndex_inv search
    rw [consistent.describes.keys other index otherUsed used (otherKey.trans key.symm)]

theorem Directory.set_set (directory : Directory numDirEntries)
    (index : Fin numDirEntries) (first second : DirectoryEntry) :
    (directory.set index first).set index second =
      directory.set index second := by
  simp only [Directory.set, Function.update_idem]

theorem Consistent.created_of_create (consistent : fs.Consistent layout)
    {name : CString} (nonneg : 0 ≤ initialSize)
    (small : initialSize ≤ maxFileSize) {fresh : Nat → Nat → Byte}
    {created : FileSystem}
    (success : fs.create name initialSize fresh = .ok (true, created)) :
    ∃ index home blocks,
      Created fs created name initialSize index home blocks ∧
      created.Consistent (layout.set index home blocks) := by
  rcases consistent.create name (fileSize_inRange nonneg small) small fresh
    with failed | ⟨_, index, home, blocks, granted, effect, later⟩
  · rw [failed] at success
    cases success
  · rw [granted] at success
    cases success
    exact ⟨index, home, blocks, effect, later⟩

theorem Created.remove {created : FileSystem} {name : CString} {blocks : List SectorIndex}
    (effect : Created fs created name initialSize index home blocks)
    {changed : Layout} (consistent : created.Consistent changed)
    (fresh : Nat → Nat → Byte) :
    ∃ restored, created.remove name fresh = .ok (true, restored) ∧
      Removed created restored name index ∧
      restored.Consistent changed := by
  rcases consistent.remove name fresh with
    ⟨absent, -⟩ | ⟨restored, found, removed, removal, final⟩
  · cases effect.found consistent absent
  · cases effect.found consistent removal.listed
    exact ⟨restored, removed, removal, final⟩

section Emptied

variable {directory : Directory numDirEntries} {index : Fin numDirEntries} {entry : DirectoryEntry}
  (unused : entry.inUse = false)
  (free : (directory.table index).inUse = false)

include unused free

theorem Layout.owned_emptied (layout : Layout) (home : SectorIndex)
    (blocks : List SectorIndex) (other : Fin numDirEntries) :
    (layout.set index home blocks).owned (directory.set index entry) other =
      layout.owned directory other := by
  by_cases here : other = index
  · rw [here, Layout.owned_unused (by rw [Directory.set_same, unused]), Layout.owned_unused free]
  · exact Layout.owned_set_other here

theorem Directory.find_emptied (name : CString) :
    (directory.set index entry).find name = directory.find name := by
  apply Directory.find_congr
  intro position
  by_cases here : position = index
  · rw [here, Directory.set_same]
    exact .inr ⟨unused, free⟩
  · exact .inl (Directory.set_other _ _ here)

end Emptied

/-- A file keeps its header and its contents if what changes is the metadata
and a sector which was free. -/
theorem Consistent.file_kept (consistent : fs.Consistent layout)
    {written : Disk} (clear : fs.disk.freeMap.test home = false)
    (kept : ∀ sector, sector ≠ freeMapData → sector ≠ directoryData →
      sector ≠ home → written.sectors sector = fs.disk.sectors sector)
    (used : (fs.disk.directory.table index).inUse = true) :
    written.header (layout.home index) =
        fs.disk.header (layout.home index) ∧
      layout.contents written index = layout.contents fs.disk index := by
  have owned : ∀ sector ∈ layout.owned fs.disk.directory index,
      written.sectors sector = fs.disk.sectors sector :=
    fun sector member => consistent.owned_kept clear kept member
  rw [Layout.owned_used used] at owned
  have header : written.header (layout.home index) = fs.disk.header (layout.home index) := by
    unfold Disk.header
    rw [owned _ List.mem_cons_self]
  refine ⟨header, ?_⟩
  apply Consistent.contents_kept rfl header
  intro sector member
  exact owned sector (List.mem_cons_of_mem _ member)

/-- Removing a file which has just been created succeeds, and brings back
the free map, the answers of the directory, and leaves all other files as
they were. -/
theorem create_then_remove_restores (consistent : fs.Consistent layout)
    (name : CString) (initialSize : Int) (nonneg : 0 ≤ initialSize)
    (small : initialSize ≤ maxFileSize)
    (createFresh removeFresh : Nat → Nat → Byte) {created : FileSystem}
    (success : fs.create name initialSize createFresh = .ok (true, created)) :
    ∃ restored,
      created.remove name removeFresh = .ok (true, restored) ∧
      (∀ sector, restored.disk.freeMap.test sector =
        fs.disk.freeMap.test sector) ∧
      (∀ other, restored.disk.directory.find other =
        fs.disk.directory.find other) ∧
      ∀ index, (fs.disk.directory.table index).inUse = true →
        restored.disk.directory.table index =
          fs.disk.directory.table index ∧
        restored.disk.header (layout.home index) =
          fs.disk.header (layout.home index) ∧
        layout.contents restored.disk index = layout.contents fs.disk index := by
  obtain ⟨index, home, blocks, effect, later⟩ :=
    consistent.created_of_create nonneg small success
  obtain ⟨restored, removed, removal, final⟩ :=
    effect.remove later removeFresh
  let entry : DirectoryEntry :=
    { created.disk.directory.table index with inUse := false }
  have directory : restored.disk.directory =
      fs.disk.directory.set index entry := by
    rw [removal.directory, effect.directory, Directory.set_set, ← effect.directory]
  have unused : entry.inUse = false := rfl
  refine ⟨restored, removed, ?_, ?_, ?_⟩
  · intro sector
    rw [Bool.eq_iff_iff, final.owns.marked, consistent.owns.marked, directory]
    simp only [Layout.owned_emptied unused effect.free]
  · intro other
    rw [directory, Directory.find_emptied unused effect.free]
  · intro other used
    have different : other ≠ index := by
      rintro rfl
      rw [effect.free] at used
      cases used
    refine ⟨?_, consistent.file_kept (effect.unmarked home (by simp)) ?_ used⟩
    · rw [directory, Directory.set_other _ _ different]
    · intro sector notMap notDirectory notHome
      rw [removal.kept sector notMap notDirectory, effect.kept sector notMap notDirectory notHome]

theorem create_then_remove_restores_small_file :
    ∃ fs created restored,
      format ⟨fun _ _ => 0#8⟩ (fun _ _ => 0#8) = .ok fs ∧
      fs.create [97#8] 600 (fun _ _ => 0#8) = .ok (true, created) ∧
      created.remove [97#8] (fun _ _ => 0#8) = .ok (true, restored) ∧
      ∀ sector, restored.disk.freeMap.test sector =
        fs.disk.freeMap.test sector := by
  obtain ⟨fs, layout, formatted, consistent, creatable⟩ :=
    format_creatable ⟨fun _ _ => 0#8⟩ (fun _ _ => 0#8)
  obtain ⟨created, -, -, -, success, -, -⟩ :=
    consistent.create_of_creatable creatable (fileSize_inRange (by decide) (by decide)) (by decide)
      (fun _ _ => 0#8)
  obtain ⟨restored, removed, bits, -, -⟩ :=
    create_then_remove_restores consistent [97#8] 600 (by decide)
      (by decide) (fun _ _ => 0#8) (fun _ _ => 0#8) success
  exact ⟨fs, created, restored, formatted, success, removed, bits⟩

end FileSystem

end Nachos
