import Nachos.FileSys.FileHeader

/-!
# Open files

`readAt` and `writeAt` turn byte requests into whole-sector transfers through
an intermediate buffer.  Positions and counts are signed host integers, so
every sum and product is taken modulo the word size, and every access to the
buffer or to `dataSectors` is checked against its bounds.
-/

open Words Memory

namespace Nachos

structure OpenFile where
  hdr : FileHeader
  seekPosition : Int

namespace OpenFile

/-- `OpenFile::OpenFile`: bring the header into memory. -/
def new (disk : Disk) (sector : Int) : Result OpenFile := do
  let hdr ← FileHeader.fetchFrom disk sector
  return ⟨hdr, 0⟩

/-- A byte count handed to `bcopy`; a negative one runs out of every
buffer. -/
def byteCount (numBytes : Int) : Result Nat :=
  if 0 ≤ numBytes then .ok numBytes.toNat else .error .bounds

/-- The request clipped to the end of the file. -/
def clip (fileLength numBytes position : Int) : Int :=
  if wrap32 (position + numBytes) > fileLength then
    wrap32 (fileLength - position)
  else numBytes

/-- `divRoundDown(position + numBytes - 1, SectorSize)`. -/
def lastSectorOf (numBytes position : Int) : Int :=
  divRoundDown (wrap32 (wrap32 (position + numBytes) - 1)) sectorSize

/-- The loop of `ReadAt` which fills the buffer, from sector `i` on. -/
def readSectors (hdr : FileHeader) (disk : Disk) (firstSector : Int) :
    Nat → Int → Block → Result Block
  | 0, _, buf => .ok buf
  | count + 1, i, buf => do
    let sector ← hdr.byteToSector (wrap32 (i * sectorSize))
    let data ← disk.readSector sector.toInt
    let buf ← inBounds (buf.store (wrap32 ((i - firstSector) * sectorSize))
      (slice data.byte 0 sectorSize))
    readSectors hdr disk firstSector count (i + 1) buf

/-- `OpenFile::ReadAt`; the result is what is copied out, and its length is
the returned count.  `fresh` is what the new buffer happens to hold. -/
def readAt (file : OpenFile) (disk : Disk) (numBytes position : Int)
    (fresh : Nat → Byte) : Result (List Byte) :=
  let fileLength := file.hdr.fileLength
  if numBytes ≤ 0 ∨ position ≥ fileLength then .ok [] else
  let numBytes := clip fileLength numBytes position
  let firstSector := divRoundDown position sectorSize
  let lastSector := lastSectorOf numBytes position
  let count := 1 + lastSector - firstSector
  do
    let buf ← newBlock (wrap32 (count * sectorSize)) fresh
    let buf ← readSectors file.hdr disk firstSector count.toNat firstSector buf
    let wanted ← byteCount numBytes
    inBounds (buf.load (position - firstSector * sectorSize) wanted)

/-- The loop of `WriteAt` which writes the buffer back, from sector `i`
on. -/
def writeSectors (hdr : FileHeader) (firstSector : Int) (buf : Block) :
    Nat → Int → Disk → Result Disk
  | 0, _, disk => .ok disk
  | count + 1, i, disk => do
    let sector ← hdr.byteToSector (wrap32 (i * sectorSize))
    let data ← inBounds (buf.load (wrap32 ((i - firstSector) * sectorSize)) sectorSize)
    let disk ← disk.writeSector sector.toInt (Sector.ofBytes fun offset => data.getD offset 0#8)
    writeSectors hdr firstSector buf count (i + 1) disk

/-- `ReadAt(&buf[offset], SectorSize, position)`, if `needed`. -/
def prefill (file : OpenFile) (disk : Disk) (needed : Bool)
    (position offset : Int) (fresh : Nat → Byte) (buf : Block) :
    Result Block :=
  if needed then do
    let data ← file.readAt disk sectorSize position fresh
    inBounds (buf.store offset data)
  else .ok buf

/-- `OpenFile::WriteAt` of the bytes in `source`.  `fresh n` is what the `n`th
buffer allocated by the call happens to hold. -/
def writeAt (file : OpenFile) (disk : Disk) (source : List Byte)
    (numBytes position : Int) (fresh : Nat → Nat → Byte) :
    Result (Int × Disk) :=
  let fileLength := file.hdr.fileLength
  if numBytes ≤ 0 ∨ position ≥ fileLength then .ok (0, disk) else
  let numBytes := clip fileLength numBytes position
  let firstSector := divRoundDown position sectorSize
  let lastSector := lastSectorOf numBytes position
  let count := 1 + lastSector - firstSector
  let firstAligned : Bool := position = firstSector * sectorSize
  let lastAligned : Bool := wrap32 (position + numBytes) = wrap32 ((lastSector + 1) * sectorSize)
  do
    let buf ← newBlock (wrap32 (count * sectorSize)) (fresh 0)
    let buf ← file.prefill disk (!firstAligned) (firstSector * sectorSize) 0 (fresh 1) buf
    let buf ← file.prefill disk (!lastAligned && (firstSector ≠ lastSector || firstAligned))
      (wrap32 (lastSector * sectorSize))
      (wrap32 ((lastSector - firstSector) * sectorSize)) (fresh 2) buf
    let wanted ← byteCount numBytes
    let data ← inBounds (Block.load ⟨source.length, fun offset => source.getD offset 0#8⟩ 0 wanted)
    let buf ← inBounds (buf.store (position - firstSector * sectorSize) data)
    let disk ← writeSectors file.hdr firstSector buf count.toNat firstSector disk
    return (numBytes, disk)

/-- `OpenFile::Read`. -/
def read (file : OpenFile) (disk : Disk) (numBytes : Int)
    (fresh : Nat → Byte) : Result (List Byte × OpenFile) := do
  let data ← file.readAt disk numBytes file.seekPosition fresh
  return (data, { file with
    seekPosition := wrap32 (file.seekPosition + data.length) })

/-- `OpenFile::Write`. -/
def write (file : OpenFile) (disk : Disk) (source : List Byte)
    (numBytes : Int) (fresh : Nat → Nat → Byte) :
    Result (Int × OpenFile × Disk) := do
  let (result, disk) ←
    file.writeAt disk source numBytes file.seekPosition fresh
  return (result, { file with
    seekPosition := wrap32 (file.seekPosition + result) }, disk)

/-- `OpenFile::GetCurrentPos`. -/
def getCurrentPos (file : OpenFile) : Int := file.seekPosition

end OpenFile

end Nachos
