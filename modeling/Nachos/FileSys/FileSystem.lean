import Nachos.FileSys.Directory

/-!
# The file system

The free map and the directory are themselves files, whose headers sit in
the first two sectors.  Each operation brings fresh copies of both into
memory, works on the copies, and writes back what it changed.  The argument
`fresh` gives what the blocks allocated by an operation happen to hold, one
image for each allocation.
-/

open Words Memory

namespace Nachos

namespace BitMap

variable {numBits : Nat}

/-- The words of the map as they lie in memory. -/
def image (bits : BitMap numBits) : Nat → Byte :=
  wordsToBytes fun index =>
    if inside : index < numWords numBits then bits.map ⟨index, inside⟩
    else 0#32

def ofImage (image : Nat → Byte) : BitMap numBits :=
  ⟨fun index => wordAt image (4 * index.val)⟩

/-- `numWords * sizeof(unsigned)` as an `int`. -/
def byteSize (numBits : Nat) : Int := wrap32 (numWords numBits * 4)

/-- `BitMap::FetchFrom`. -/
def fetchFrom (bits : BitMap numBits) (file : OpenFile) (disk : Disk)
    (fresh : Nat → Byte) : Result (BitMap numBits) := do
  let data ← file.readAt disk (byteSize numBits) 0 fresh
  return ofImage (splice bits.image 0 data)

/-- `BitMap::WriteBack`. -/
def writeBack (bits : BitMap numBits) (file : OpenFile) (disk : Disk)
    (fresh : Nat → Nat → Byte) : Result Disk := do
  let (_, disk) ← file.writeAt disk
    (slice bits.image 0 (numWords numBits * 4)) (byteSize numBits) 0 fresh
  return disk

end BitMap

/-- `FreeMapSector`. -/
def freeMapSector : SectorIndex := ⟨0, by decide⟩

def directorySector : SectorIndex := ⟨1, by decide⟩

def freeMapFileSize : Nat := numSectors / bitsInByte

def numDirEntries : Nat := 10

def directoryFileSize : Nat := directoryEntrySize * numDirEntries

/-- `new BitMap(NumSectors)`. -/
def newFreeMap (fresh : Nat → Byte) : BitMap numSectors :=
  BitMap.new (BitMap.ofImage fresh).map

/-- `new Directory(NumDirEntries)`. -/
def newDirectory (fresh : Nat → Byte) : Directory numDirEntries :=
  Directory.new (Directory.ofImage fresh).table

structure FileSystem where
  disk : Disk
  freeMapFile : OpenFile
  directoryFile : OpenFile

namespace FileSystem

/-- The fresh images from the `count`th allocation on. -/
def later (fresh : Nat → Nat → Byte) (count : Nat) : Nat → Nat → Byte :=
  fun index => fresh (count + index)

/-- `FileSystem::FileSystem(TRUE)`. -/
def format (disk : Disk) (fresh : Nat → Nat → Byte) :
    Result FileSystem := do
  let freeMap := newFreeMap (fresh 0)
  let directory := newDirectory (fresh 1)
  let freeMap ← freeMap.checkedMark freeMapSector.val
  let freeMap ← freeMap.checkedMark directorySector.val
  let (mapGranted, mapHdr, freeMap) ←
    (FileHeader.ofImage (fresh 2)).allocate freeMap freeMapFileSize
  assert mapGranted
  let (dirGranted, dirHdr, freeMap) ←
    (FileHeader.ofImage (fresh 3)).allocate freeMap directoryFileSize
  assert dirGranted
  let disk ← mapHdr.writeBack disk freeMapSector.val
  let disk ← dirHdr.writeBack disk directorySector.val
  let freeMapFile ← OpenFile.new disk freeMapSector.val
  let directoryFile ← OpenFile.new disk directorySector.val
  let disk ← freeMap.writeBack freeMapFile disk (later fresh 4)
  let disk ← directory.writeBack directoryFile disk (later fresh 7)
  return ⟨disk, freeMapFile, directoryFile⟩

/-- `FileSystem::FileSystem(FALSE)`. -/
def boot (disk : Disk) : Result FileSystem := do
  let freeMapFile ← OpenFile.new disk freeMapSector.val
  let directoryFile ← OpenFile.new disk directorySector.val
  return ⟨disk, freeMapFile, directoryFile⟩

/-- The directory as every operation first reads it. -/
def readDirectory (fs : FileSystem) (table buffer : Nat → Byte) :
    Result (Directory numDirEntries) :=
  (newDirectory table).fetchFrom fs.directoryFile fs.disk buffer

def readFreeMap (fs : FileSystem) (words buffer : Nat → Byte) : Result (BitMap numSectors) :=
  (newFreeMap words).fetchFrom fs.freeMapFile fs.disk buffer

/-- The part of `Create` after the new entry and header are made: flush all
changes back to disk. -/
def flushCreate (fs : FileSystem) (hdr : FileHeader) (sector : Int)
    (directory : Directory numDirEntries) (freeMap : BitMap numSectors)
    (fresh : Nat → Nat → Byte) : Result FileSystem := do
  let disk ← hdr.writeBack fs.disk sector
  let disk ← directory.writeBack fs.directoryFile disk fresh
  let disk ← freeMap.writeBack fs.freeMapFile disk (later fresh 3)
  return { fs with disk := disk }

/-- `FileSystem::Create`. -/
def create (fs : FileSystem) (name : CString) (initialSize : Int)
    (fresh : Nat → Nat → Byte) : Result (Bool × FileSystem) := do
  let directory ← fs.readDirectory (fresh 0) (fresh 1)
  if directory.find name ≠ -1 then return (false, fs) else
  let freeMap ← fs.readFreeMap (fresh 2) (fresh 3)
  let (sector, freeMap) := freeMap.find
  if sector = -1 then return (false, fs) else
  let (added, directory) := directory.add name sector
  if !added then return (false, fs) else
  let (granted, hdr, freeMap) ←
    (FileHeader.ofImage (fresh 4)).allocate freeMap initialSize
  if !granted then return (false, fs) else
  let fs ← fs.flushCreate hdr sector directory freeMap (later fresh 5)
  return (true, fs)

/-- `FileSystem::Open`. -/
def «open» (fs : FileSystem) (name : CString) (fresh : Nat → Nat → Byte) :
    Result (Option OpenFile) := do
  let directory ← fs.readDirectory (fresh 0) (fresh 1)
  let sector := directory.find name
  if sector ≥ 0 then
    let file ← OpenFile.new fs.disk sector
    return some file
  else return none

/-- `FileSystem::Remove`. -/
def remove (fs : FileSystem) (name : CString) (fresh : Nat → Nat → Byte) :
    Result (Bool × FileSystem) := do
  let directory ← fs.readDirectory (fresh 0) (fresh 1)
  let sector := directory.find name
  if sector = -1 then return (false, fs) else
  let fileHdr ← FileHeader.fetchFrom fs.disk sector
  let freeMap ← fs.readFreeMap (fresh 2) (fresh 3)
  let freeMap ← fileHdr.deallocate freeMap
  let freeMap ← freeMap.checkedClear sector
  let (_, directory) := directory.remove name
  let disk ← freeMap.writeBack fs.freeMapFile fs.disk (later fresh 4)
  let disk ← directory.writeBack fs.directoryFile disk (later fresh 7)
  return (true, { fs with disk := disk })

end FileSystem

end Nachos
