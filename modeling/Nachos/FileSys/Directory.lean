import Nachos.FileSys.OpenFile

/-!
# Directories

A directory is a fixed table of entries, looked up by the first
`fileNameMaxLen` characters of a name.  The table is stored as it stands in
memory: twenty bytes an entry, with the flag, the header sector and the name
at their C offsets.
-/

open Words Memory

namespace Nachos

def fileNameMaxLen : Nat := 9

/-- `sizeof(DirectoryEntry)`. -/
def directoryEntrySize : Nat := 20

structure DirectoryEntry where
  inUse : Bool
  sector : Word
  name : Fin (fileNameMaxLen + 1) → Byte

/-- What a name is compared by. -/
def CString.key (name : CString) : List Byte :=
  keyFrom name.at fileNameMaxLen 0

namespace DirectoryEntry

def nameAt (entry : DirectoryEntry) (index : Nat) : Byte :=
  if inside : index < fileNameMaxLen + 1 then entry.name ⟨index, inside⟩
  else 0#8

def key (entry : DirectoryEntry) : List Byte :=
  keyFrom entry.nameAt fileNameMaxLen 0

/-- The entry as it lies in memory; nothing reads the padding. -/
def byte (entry : DirectoryEntry) (offset : Nat) : Byte :=
  if offset = 0 then if entry.inUse then 1#8 else 0#8
  else if offset < 4 then 0#8
  else if offset < 8 then byteOf entry.sector (offset - 4)
  else entry.nameAt (offset - 8)

/-- The entry which starts at offset `base` of a piece of memory. -/
def ofImage (image : Nat → Byte) (base : Nat) : DirectoryEntry where
  inUse := image base ≠ 0#8
  sector := wordAt image (base + 4)
  name := fun index => image (base + 8 + index.val)

end DirectoryEntry

structure Directory (tableSize : Nat) where
  table : Fin tableSize → DirectoryEntry

namespace Directory

variable {tableSize : Nat}

/-- `Directory::Directory`: only the flags of the fresh table are set. -/
def new (fresh : Fin tableSize → DirectoryEntry) : Directory tableSize :=
  ⟨fun index => { fresh index with inUse := false }⟩

/-- The test of the loop in `FindIndex`. -/
def matchesName (directory : Directory tableSize) (name : CString) (index : Fin tableSize) : Bool :=
  (directory.table index).inUse &&
    strncmpEqual (directory.table index).nameAt name.at fileNameMaxLen 0

/-- `Directory::FindIndex`, with `none` for `-1`. -/
def findIndex (directory : Directory tableSize) (name : CString) : Option (Fin tableSize) :=
  (List.finRange tableSize).find? (directory.matchesName name)

/-- `Directory::Find`. -/
def find (directory : Directory tableSize) (name : CString) : Int :=
  match directory.findIndex name with
  | some index => (directory.table index).sector.toInt
  | none => -1

/-- The first entry which is not in use. -/
def freeIndex (directory : Directory tableSize) : Option (Fin tableSize) :=
  (List.finRange tableSize).find? fun index =>
    !(directory.table index).inUse

/-- The entry which `Add` leaves in place of `old`. -/
def filledEntry (old : DirectoryEntry) (name : CString) (newSector : Int) : DirectoryEntry where
  inUse := true
  sector := BitVec.ofInt 32 newSector
  name := fun index =>
    strncpy old.nameAt name.at fileNameMaxLen index.val

/-- `Directory::Add`. -/
def add (directory : Directory tableSize) (name : CString)
    (newSector : Int) : Bool × Directory tableSize :=
  match directory.findIndex name with
  | some _ => (false, directory)
  | none =>
    match directory.freeIndex with
    | some index =>
      (true, ⟨Function.update directory.table index
        (filledEntry (directory.table index) name newSector)⟩)
    | none => (false, directory)

/-- `Directory::Remove`. -/
def remove (directory : Directory tableSize) (name : CString) : Bool × Directory tableSize :=
  match directory.findIndex name with
  | some index =>
    (true, ⟨Function.update directory.table index { directory.table index with inUse := false }⟩)
  | none => (false, directory)

/-- The table as it lies in memory. -/
def image (directory : Directory tableSize) (offset : Nat) : Byte :=
  if inside : offset / directoryEntrySize < tableSize then
    (directory.table ⟨offset / directoryEntrySize, inside⟩).byte (offset % directoryEntrySize)
  else 0#8

def ofImage (image : Nat → Byte) : Directory tableSize :=
  ⟨fun index =>
    DirectoryEntry.ofImage image (directoryEntrySize * index.val)⟩

/-- `tableSize * sizeof(DirectoryEntry)` as an `int`. -/
def byteSize (tableSize : Nat) : Int :=
  wrap32 (tableSize * directoryEntrySize)

/-- `Directory::FetchFrom` into the table of `directory`. -/
def fetchFrom (directory : Directory tableSize) (file : OpenFile)
    (disk : Disk) (fresh : Nat → Byte) : Result (Directory tableSize) := do
  let data ← file.readAt disk (byteSize tableSize) 0 fresh
  return ofImage (splice directory.image 0 data)

/-- `Directory::WriteBack`. -/
def writeBack (directory : Directory tableSize) (file : OpenFile)
    (disk : Disk) (fresh : Nat → Nat → Byte) : Result Disk := do
  let (_, disk) ← file.writeAt disk (slice directory.image 0 (tableSize * directoryEntrySize))
    (byteSize tableSize) 0 fresh
  return disk

/-! ## The stored table -/

private theorem ofImage_byte (entry : DirectoryEntry) {image : Nat → Byte} {base : Nat}
    (agree : ∀ offset, offset < directoryEntrySize → image (base + offset) = entry.byte offset) :
    DirectoryEntry.ofImage image base = entry := by
  have size : directoryEntrySize = 20 := rfl
  have flag : decide (image base ≠ 0#8) = entry.inUse := by
    have stored := agree 0 (by omega)
    rw [Nat.add_zero] at stored
    rw [stored]
    cases used : entry.inUse <;> simp [DirectoryEntry.byte, used]
  have sector : wordAt image (base + 4) = entry.sector := by
    apply wordAt_byteOf
    intro index inside
    have stored := agree (4 + index) (by omega)
    rw [← Nat.add_assoc] at stored
    have notPadding : ¬4 + index < 4 := by omega
    have inSector : 4 + index < 8 := by omega
    rw [stored]
    simp [DirectoryEntry.byte, notPadding, inSector]
  have name : (fun index : Fin (fileNameMaxLen + 1) =>
      image (base + 8 + index.val)) = entry.name := by
    funext index
    have inside : index.val < 10 := index.isLt
    have stored := agree (8 + index.val) (by omega)
    rw [← Nat.add_assoc] at stored
    have notPadding : ¬8 + index.val < 4 := by omega
    have inName : index.val < fileNameMaxLen + 1 := index.isLt
    rw [stored]
    simp only [DirectoryEntry.byte, DirectoryEntry.nameAt, notPadding]
    simp [inName]
  cases entry
  simp only [DirectoryEntry.ofImage, flag, sector, name]

theorem ofImage_eq (directory : Directory tableSize) {memory : Nat → Byte}
    (agree : ∀ offset, offset < tableSize * directoryEntrySize →
      memory offset = directory.image offset) :
    ofImage memory = directory := by
  have size : directoryEntrySize = 20 := rfl
  cases directory with
  | mk table =>
    simp only [ofImage, mk.injEq]
    funext index
    apply ofImage_byte
    intro offset inside
    have row : (directoryEntrySize * index.val + offset) / directoryEntrySize = index.val := by
      rw [size]
      omega
    have column : (directoryEntrySize * index.val + offset) % directoryEntrySize = offset := by
      rw [size]
      omega
    have bound := index.isLt
    rw [agree _ (by rw [size] at inside ⊢; omega)]
    simp only [image, row, column, bound, dite_true]

/-! ## Looking up, adding and removing -/

theorem matchesName_iff (directory : Directory tableSize) (name : CString) (index : Fin tableSize) :
    directory.matchesName name index = true ↔
      (directory.table index).inUse = true ∧ (directory.table index).key = name.key := by
  unfold matchesName
  rw [Bool.and_eq_true, strncmpEqual_iff]
  rfl

theorem findIndex_inv {directory : Directory tableSize} {name : CString}
    {index : Fin tableSize} (found : directory.findIndex name = some index) :
    (directory.table index).inUse = true ∧ (directory.table index).key = name.key :=
  (directory.matchesName_iff name index).mp (List.find?_some found)

theorem findIndex_none_iff (directory : Directory tableSize) (name : CString) :
    directory.findIndex name = none ↔
      ∀ index, (directory.table index).inUse = true → (directory.table index).key ≠ name.key := by
  unfold findIndex
  rw [List.find?_eq_none]
  constructor
  · intro absent index used same
    exact absent index (List.mem_finRange index)
      ((directory.matchesName_iff name index).mpr ⟨used, same⟩)
  · intro absent index _ found
    have both := (directory.matchesName_iff name index).mp found
    exact absent index both.1 both.2

theorem freeIndex_inv {directory : Directory tableSize}
    {index : Fin tableSize} (found : directory.freeIndex = some index) :
    (directory.table index).inUse = false := by
  simpa using List.find?_some found

@[simp] theorem filledEntry_key (old : DirectoryEntry) (name : CString)
    (newSector : Int) : (filledEntry old name newSector).key = name.key := by
  unfold DirectoryEntry.key CString.key
  rw [← keyFrom_strncpy old.nameAt name.at fileNameMaxLen]
  apply keyFrom_congr
  intro position _ inside
  have stored : position < fileNameMaxLen + 1 := by omega
  simp [DirectoryEntry.nameAt, filledEntry, stored]

end Directory

end Nachos
