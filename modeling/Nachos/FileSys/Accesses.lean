import Nachos.FileSys.Transfer
import Nachos.Lib.Traced

/-!
# What reads and writes access

`ReadAt` and `WriteAt` once more, with a log of their accesses to
`dataSectors` and to the intermediate buffer.  Without the log they are the
functions of before.  All accesses are in bounds unless the end of the
request is too large for a host integer: then the request is not clipped.
-/

open Words Memory

namespace Nachos

inductive Access where
  | dataSectors (index : Int)
  | buffer (size : Nat) (offset : Int) (count : Nat)

/-- The index is that of a sector of the file, and the bytes lie in the
buffer. -/
def Access.InBounds (numSectors : Int) : Access → Prop
  | .dataSectors index => 0 ≤ index ∧ index < numSectors
  | .buffer size offset count => 0 ≤ offset ∧ offset + count ≤ size

abbrev Logged (α : Type) := Traced Access Fault α

namespace Logged

def byteToSector (hdr : FileHeader) (offset : Int) : Logged Word := do
  Traced.emit (.dataSectors (offset.tdiv sectorSize))
  Traced.lift (hdr.byteToSector offset)

def load (buf : Block) (offset : Int) (count : Nat) : Logged (List Byte) := do
  Traced.emit (.buffer buf.size offset count)
  Traced.lift (inBounds (buf.load offset count))

def store (buf : Block) (offset : Int) (data : List Byte) :
    Logged Block := do
  Traced.emit (.buffer buf.size offset data.length)
  Traced.lift (inBounds (buf.store offset data))

/-! ## The logged functions -/

def readSectors (hdr : FileHeader) (disk : Disk) (firstSector : Int) :
    Nat → Int → Block → Logged Block
  | 0, _, buf => pure buf
  | count + 1, i, buf => do
    let sector ← byteToSector hdr (wrap32 (i * sectorSize))
    let data ← Traced.lift (disk.readSector sector.toInt)
    let buf ← store buf (wrap32 ((i - firstSector) * sectorSize)) (slice data.byte 0 sectorSize)
    readSectors hdr disk firstSector count (i + 1) buf

def readAt (file : OpenFile) (disk : Disk) (numBytes position : Int)
    (fresh : Nat → Byte) : Logged (List Byte) :=
  let fileLength := file.hdr.fileLength
  if numBytes ≤ 0 ∨ position ≥ fileLength then pure [] else
  let numBytes := OpenFile.clip fileLength numBytes position
  let firstSector := divRoundDown position sectorSize
  let lastSector := OpenFile.lastSectorOf numBytes position
  let count := 1 + lastSector - firstSector
  do
    let buf ← Traced.lift (newBlock (wrap32 (count * sectorSize)) fresh)
    let buf ← readSectors file.hdr disk firstSector count.toNat firstSector buf
    let wanted ← Traced.lift (OpenFile.byteCount numBytes)
    load buf (position - firstSector * sectorSize) wanted

def writeSectors (hdr : FileHeader) (firstSector : Int) (buf : Block) :
    Nat → Int → Disk → Logged Disk
  | 0, _, disk => pure disk
  | count + 1, i, disk => do
    let sector ← byteToSector hdr (wrap32 (i * sectorSize))
    let data ← load buf (wrap32 ((i - firstSector) * sectorSize)) sectorSize
    let disk ← Traced.lift (disk.writeSector sector.toInt
      (Sector.ofBytes fun offset => data.getD offset 0#8))
    writeSectors hdr firstSector buf count (i + 1) disk

def prefill (file : OpenFile) (disk : Disk) (needed : Bool)
    (position offset : Int) (fresh : Nat → Byte) (buf : Block) :
    Logged Block :=
  if needed then do
    let data ← readAt file disk sectorSize position fresh
    store buf offset data
  else pure buf

def writeAt (file : OpenFile) (disk : Disk) (source : List Byte)
    (numBytes position : Int) (fresh : Nat → Nat → Byte) :
    Logged (Int × Disk) :=
  let fileLength := file.hdr.fileLength
  if numBytes ≤ 0 ∨ position ≥ fileLength then pure (0, disk) else
  let numBytes := OpenFile.clip fileLength numBytes position
  let firstSector := divRoundDown position sectorSize
  let lastSector := OpenFile.lastSectorOf numBytes position
  let count := 1 + lastSector - firstSector
  let firstAligned : Bool := position = firstSector * sectorSize
  let lastAligned : Bool := wrap32 (position + numBytes) = wrap32 ((lastSector + 1) * sectorSize)
  do
    let buf ← Traced.lift (newBlock (wrap32 (count * sectorSize)) (fresh 0))
    let buf ← prefill file disk (!firstAligned) (firstSector * sectorSize) 0 (fresh 1) buf
    let buf ← prefill file disk (!lastAligned && (firstSector ≠ lastSector || firstAligned))
      (wrap32 (lastSector * sectorSize))
      (wrap32 ((lastSector - firstSector) * sectorSize)) (fresh 2) buf
    let wanted ← Traced.lift (OpenFile.byteCount numBytes)
    let data ← Traced.lift (inBounds
      (Block.load ⟨source.length, fun offset => source.getD offset 0#8⟩ 0 wanted))
    let buf ← store buf (position - firstSector * sectorSize) data
    let disk ← writeSectors file.hdr firstSector buf count.toNat firstSector disk
    return (numBytes, disk)

/-! ## Without the log -/

section

variable (hdr : FileHeader) (file : OpenFile) (disk : Disk) (buf : Block) (source : List Byte)
  (firstSector i numBytes position offset : Int) (count : Nat) (needed : Bool)
  (fresh : Nat → Byte)

@[simp] theorem result_byteToSector :
    (byteToSector hdr offset).result = hdr.byteToSector offset := by
  simp [byteToSector]

@[simp] theorem result_load :
    (load buf offset count).result = inBounds (buf.load offset count) := by
  simp [load]

@[simp] theorem result_store :
    (store buf offset source).result = inBounds (buf.store offset source) := by
  simp [store]

@[simp] theorem result_readSectors :
    (readSectors hdr disk firstSector count i buf).result =
      OpenFile.readSectors hdr disk firstSector count i buf := by
  induction count generalizing i buf with
  | zero => rfl
  | succ count induction =>
    simp [readSectors, OpenFile.readSectors, induction]

@[simp] theorem result_readAt :
    (readAt file disk numBytes position fresh).result =
      file.readAt disk numBytes position fresh := by
  unfold readAt OpenFile.readAt
  dsimp only
  split
  · rfl
  · simp

@[simp] theorem result_writeSectors :
    (writeSectors hdr firstSector buf count i disk).result =
      OpenFile.writeSectors hdr firstSector buf count i disk := by
  induction count generalizing i disk with
  | zero => rfl
  | succ count induction =>
    simp [writeSectors, OpenFile.writeSectors, induction]

@[simp] theorem result_prefill :
    (prefill file disk needed position offset fresh buf).result =
      file.prefill disk needed position offset fresh buf := by
  unfold prefill OpenFile.prefill
  split
  · simp
  · rfl

@[simp] theorem result_writeAt (fresh : Nat → Nat → Byte) :
    (writeAt file disk source numBytes position fresh).result =
      file.writeAt disk source numBytes position fresh := by
  unfold writeAt OpenFile.writeAt
  dsimp only
  split
  · rfl
  · simp
    rfl

end

/-! ## Requests whose end fits -/

end Logged

/-- The length of the file is allowed, and its sectors are on the disk. -/
structure FileHeader.Sectored (hdr : FileHeader) : Prop where
  nonneg : 0 ≤ hdr.fileLength
  short : hdr.fileLength ≤ maxFileSize
  stored : ∀ index : Nat,
    (index : Int) < divRoundUp hdr.fileLength sectorSize →
    ∃ (sector : SectorIndex) (word : Word),
      hdr.dataSector (index : Int) = .ok word ∧ word.toInt = (sector.val : Int)

/-- Nothing is transferred, or the end of the request is a host integer. -/
def EndFits (fileLength numBytes position : Int) : Prop :=
  numBytes ≤ 0 ∨ position ≥ fileLength ∨ position + numBytes < 2147483648

instance (fileLength numBytes position : Int) : Decidable (EndFits fileLength numBytes position) :=
  inferInstanceAs (Decidable (_ ∨ _ ∨ _))

theorem EndFits.of_granted {fileLength numBytes position : Int}
    (endFits : EndFits fileLength numBytes position)
    (granted : ¬(numBytes ≤ 0 ∨ position ≥ fileLength)) :
    position + numBytes < 2147483648 := by
  unfold EndFits at endFits
  omega

namespace Logged

open Traced OpenFile

/-- The access is in bounds for a file with this header. -/
abbrev Permitted (hdr : FileHeader) : Access → Prop :=
  Access.InBounds (divRoundUp hdr.fileLength sectorSize)

variable {hdr : FileHeader}

theorem safe_byteToSector (sectored : hdr.Sectored) {index : Nat}
    (inside : (index : Int) < divRoundUp hdr.fileLength sectorSize) :
    Safe (Permitted hdr) (byteToSector hdr (wrap32 (index * sectorSize)))
      fun word => ∃ sector : SectorIndex, word.toInt = (sector.val : Int) := by
  have short : hdr.fileLength ≤ 64512 := sectored.short
  have rounded := divRoundUp_sectorSize hdr.fileLength
  have index_eq : (wrap32 ((index : Int) * sectorSize)).tdiv sectorSize =
      index :=
    sectorIndex_of_offset (by omega) (by omega)
  obtain ⟨sector, word, found, value⟩ := sectored.stored index inside
  apply Safe.bind (safe_emit _)
  · intro _ _
    refine safe_lift ?_ ⟨sector, value⟩
    unfold FileHeader.byteToSector
    rw [index_eq, found]
  · rw [index_eq]
    exact ⟨Int.natCast_nonneg index, inside⟩

theorem safe_load {buf : Block} {offset count : Nat} (fits : offset + count ≤ buf.size) :
    Safe (Permitted hdr) (load buf (offset : Int) count) fun data => data.length = count := by
  apply Safe.bind (safe_emit _)
  · intro _ _
    apply safe_lift
    · rw [Block.load_eq buf (Int.natCast_nonneg _) (by omega), inBounds_some]
    · exact slice_length _ _ _
  · exact ⟨Int.natCast_nonneg _, by exact_mod_cast fits⟩

theorem safe_store {buf : Block} {offset : Nat} {data : List Byte}
    (fits : offset + data.length ≤ buf.size) :
    Safe (Permitted hdr) (store buf (offset : Int) data) fun after => after.size = buf.size := by
  apply Safe.bind (safe_emit _)
  · intro _ _
    apply safe_lift
    · rw [Block.store_eq buf (Int.natCast_nonneg _) (by omega), inBounds_some]
    · rfl
  · exact ⟨Int.natCast_nonneg _, by exact_mod_cast fits⟩

theorem safe_done {α : Type} {result : Result α} {value : α} (success : result = .ok value) :
    Safe (Permitted hdr) (lift result) fun _ => True :=
  safe_lift success trivial

theorem safe_newBlock {count : Nat} (small : count < 4194304) (fresh : Nat → Byte) :
    Safe (Permitted hdr) (lift (newBlock (wrap32 ((count : Int) * sectorSize)) fresh))
      fun buf => buf.size = 512 * count :=
  safe_lift (newBlock_sectors count small fresh) rfl

theorem safe_byteCount (count : Nat) :
    Safe (Permitted hdr) (lift (byteCount (count : Int))) fun wanted => wanted = count :=
  safe_lift (byteCount_nat count) rfl

theorem safe_source {source : List Byte} {count : Nat} (enough : count ≤ source.length) :
    Safe (Permitted hdr) (lift (inBounds (Block.load
        ⟨source.length, fun offset => source.getD offset 0#8⟩ 0 count)))
      fun data => data.length = count := by
  apply safe_lift
  · rw [Block.load_eq _ (le_refl 0) (by simpa using enough), inBounds_some]
  · exact slice_length _ _ _

theorem safe_readSectors (sectored : hdr.Sectored) (disk : Disk)
    (first count done : Nat) (buf : Block)
    (within : ((first + done + count : Nat) : Int) ≤ divRoundUp hdr.fileLength sectorSize)
    (room : 512 * (done + count) ≤ buf.size) :
    Safe (Permitted hdr) (readSectors hdr disk first count ((first + done : Nat) : Int) buf)
      fun filled => filled.size = buf.size := by
  have short : hdr.fileLength ≤ 64512 := sectored.short
  have rounded := divRoundUp_sectorSize hdr.fileLength
  have size : sectorSize = 512 := rfl
  induction count generalizing done buf with
  | zero => exact safe_pure rfl
  | succ count induction =>
    apply (safe_byteToSector sectored (by omega)).bind
    rintro word ⟨sector, value⟩
    rw [value]
    apply (safe_done (disk.readSector_val sector)).bind
    intro data _
    rw [bufferOffset_eq (by omega)]
    apply (safe_store (by rw [slice_length]; omega)).bind
    intro after sameSize
    have next : ((first + done : Nat) : Int) + 1 = ((first + (done + 1) : Nat) : Int) := by omega
    rw [next, ← sameSize]
    exact induction (done + 1) after (by omega) (by omega)

theorem safe_writeSectors (sectored : hdr.Sectored) (first count done : Nat)
    (buf : Block) (disk : Disk)
    (within : ((first + done + count : Nat) : Int) ≤ divRoundUp hdr.fileLength sectorSize)
    (room : 512 * (done + count) ≤ buf.size) :
    Safe (Permitted hdr) (writeSectors hdr first buf count ((first + done : Nat) : Int) disk)
      fun _ => True := by
  have short : hdr.fileLength ≤ 64512 := sectored.short
  have rounded := divRoundUp_sectorSize hdr.fileLength
  have size : sectorSize = 512 := rfl
  induction count generalizing done disk with
  | zero => exact safe_pure trivial
  | succ count induction =>
    apply (safe_byteToSector sectored (by omega)).bind
    rintro word ⟨sector, value⟩
    rw [bufferOffset_eq (by omega), value]
    apply (safe_load (by omega)).bind
    intro data _
    apply (safe_done (disk.writeSector_val sector _)).bind
    intro after _
    have next : ((first + done : Nat) : Int) + 1 = ((first + (done + 1) : Nat) : Int) := by omega
    rw [next]
    exact induction (done + 1) after (by omega) (by omega)

theorem span_within {start count first last : Nat} (nonneg : 0 ≤ hdr.fileLength)
    (span : Span hdr start count first last) :
    ((first + 0 + (last + 1 - first) : Nat) : Int) ≤ divRoundUp hdr.fileLength sectorSize := by
  have bounds := span.bounds
  have within := span.within
  have rounded := divRoundUp_sectorSize hdr.fileLength
  omega

variable {file : OpenFile} {numBytes position : Int}

section

variable (sectored : file.hdr.Sectored) (disk : Disk)
include sectored disk

theorem safe_readAt (nonneg : 0 ≤ position)
    (endFits : EndFits file.hdr.fileLength numBytes position) (fresh : Nat → Byte) :
    Safe (Permitted file.hdr) (readAt file disk numBytes position fresh)
      fun data => data.length = transferCount file.hdr.fileLength numBytes position := by
  unfold readAt
  dsimp only
  by_cases refused : numBytes ≤ 0 ∨ position ≥ file.hdr.fileLength
  · rw [if_pos refused]
    apply safe_pure
    rw [transferCount, if_pos refused, List.length_nil]
  · have short : file.hdr.fileLength ≤ 64512 := sectored.short
    obtain ⟨start, count, first, last, rfl, counted, clipped, span⟩ :=
      exists_span short nonneg (endFits.of_granted refused) refused
    obtain ⟨firstEq, lastEq, total, place⟩ := span.numbers
    have bounds := span.bounds
    rw [counted, if_neg refused, firstEq, clipped, lastEq, total, place]
    apply (safe_newBlock (by omega) fresh).bind
    intro buf bufSize
    rw [Int.toNat_natCast]
    apply (safe_readSectors sectored disk first (last + 1 - first) 0 buf
      (span_within sectored.nonneg span) (by omega)).bind
    intro filled sameSize
    have room : start - 512 * first + count ≤ filled.size := by omega
    apply (safe_byteCount count).bind
    rintro wanted rfl
    exact safe_load room

theorem safe_prefill (needed : Bool) {position offset : Nat} (small : position < 65536)
    (fresh : Nat → Byte) {buf : Block} (room : offset + 512 ≤ buf.size) :
    Safe (Permitted file.hdr) (prefill file disk needed (position : Int) (offset : Int) fresh buf)
      fun after => after.size = buf.size := by
  have size := sectorSize_eq
  unfold prefill
  split
  · apply (safe_readAt sectored disk (Int.natCast_nonneg position)
      (.inr (.inr (by omega))) fresh).bind
    intro data length
    apply safe_store
    have count : data.length ≤ 512 := by
      rw [length, transferCount]
      split <;> omega
    omega
  · exact safe_pure rfl

theorem safe_writeAt {source : List Byte} (nonneg : 0 ≤ position)
    (endFits : EndFits file.hdr.fileLength numBytes position)
    (enough : transferCount file.hdr.fileLength numBytes position ≤ source.length)
    (fresh : Nat → Nat → Byte) :
    Safe (Permitted file.hdr) (writeAt file disk source numBytes position fresh)
      fun result => result.1 = transferCount file.hdr.fileLength numBytes position := by
  unfold writeAt
  dsimp only
  by_cases refused : numBytes ≤ 0 ∨ position ≥ file.hdr.fileLength
  · rw [if_pos refused]
    apply safe_pure
    rw [transferCount, if_pos refused]
    rfl
  · have short : file.hdr.fileLength ≤ 64512 := sectored.short
    obtain ⟨start, count, first, last, rfl, counted, clipped, span⟩ :=
      exists_span short nonneg (endFits.of_granted refused) refused
    obtain ⟨firstEq, lastEq, total, place⟩ := span.numbers
    obtain ⟨firstOffset, lastOffset, lastPlace⟩ := span.places
    have bounds := span.bounds
    rw [counted] at enough ⊢
    rw [if_neg refused, firstEq, clipped, lastEq, total, place, firstOffset,
      lastOffset, lastPlace, Int.toNat_natCast]
    apply (safe_newBlock (by omega) (fresh 0)).bind
    intro empty emptySize
    apply (safe_prefill sectored disk _ (by omega) (fresh 1)
      (show 0 + 512 ≤ empty.size by omega)).bind
    intro headed headedSize
    apply (safe_prefill sectored disk _ (by omega) (fresh 2)
      (show 512 * (last - first) + 512 ≤ headed.size by omega)).bind
    intro filled filledSize
    apply (safe_byteCount count).bind
    rintro wanted rfl
    apply (safe_source enough).bind
    intro data dataLength
    apply (safe_store (by omega)).bind
    intro buf bufSize
    apply (safe_writeSectors sectored first (last + 1 - first) 0 buf disk
      (span_within sectored.nonneg span) (by omega)).bind
    intro after _
    exact safe_pure rfl

end

/-! ## Requests whose end does not fit -/

theorem writeAt_count {disk written : Disk} {source : List Byte} {result : Int}
    {fresh : Nat → Nat → Byte}
    (granted : ¬(numBytes ≤ 0 ∨ position ≥ file.hdr.fileLength))
    (success : file.writeAt disk source numBytes position fresh = .ok (result, written)) :
    result = clip file.hdr.fileLength numBytes position := by
  unfold OpenFile.writeAt at success
  dsimp only at success
  rw [if_neg granted] at success
  obtain ⟨buf, -, success⟩ := bind_ok_inv success
  obtain ⟨headed, -, success⟩ := bind_ok_inv success
  obtain ⟨filled, -, success⟩ := bind_ok_inv success
  obtain ⟨wanted, -, success⟩ := bind_ok_inv success
  obtain ⟨data, -, success⟩ := bind_ok_inv success
  obtain ⟨stored, -, success⟩ := bind_ok_inv success
  obtain ⟨after, -, success⟩ := bind_ok_inv success
  cases success
  rfl

end Logged

/-! ## The contract -/

/-- A read returns a count which fits the rest of the file, after accesses
which are all in bounds. -/
def ReadInBounds (file : OpenFile) (disk : Disk) (numBytes position : Int)
    (fresh : Nat → Byte) : Prop :=
  Traced.Safe (Logged.Permitted file.hdr) (Logged.readAt file disk numBytes position fresh)
    fun data => (data.length : Int) ≤ max 0 (file.hdr.fileLength - position)

def WriteInBounds (file : OpenFile) (disk : Disk) (source : List Byte)
    (numBytes position : Int) (fresh : Nat → Nat → Byte) : Prop :=
  Traced.Safe (Logged.Permitted file.hdr) (Logged.writeAt file disk source numBytes position fresh)
    fun result => 0 ≤ result.1 ∧ result.1 ≤ max 0 (file.hdr.fileLength - position)

section

open OpenFile

theorem transferCount_le_rest (fileLength numBytes position : Int) :
    (transferCount fileLength numBytes position : Int) ≤ max 0 (fileLength - position) := by
  unfold transferCount
  split <;> omega

variable {file : OpenFile} {disk : Disk} {source : List Byte}
  {numBytes position : Word} {fresh : Nat → Byte}
  {contents : Nat → Nat → Byte}

/-- Without the end in range, the count is larger than the rest of the
file. -/
theorem clip_of_not_endFits (length : 0 ≤ file.hdr.fileLength)
    (wraps : ¬EndFits file.hdr.fileLength numBytes.toInt position.toInt) :
    ¬(numBytes.toInt ≤ 0 ∨ position.toInt ≥ file.hdr.fileLength) ∧
      max 0 (file.hdr.fileLength - position.toInt) <
        clip file.hdr.fileLength numBytes.toInt position.toInt := by
  have lengthRange : InRange file.hdr.fileLength := toInt_inRange _
  have positionRange := toInt_inRange position
  unfold EndFits at wraps
  push Not at wraps
  obtain ⟨positive, inside, overflow⟩ := wraps
  rw [clip_overflow length positionRange (toInt_inRange numBytes) overflow]
  unfold InRange at lengthRange
  omega

theorem readInBounds_iff (sectored : file.hdr.Sectored) (nonneg : 0 ≤ position.toInt) :
    ReadInBounds file disk numBytes.toInt position.toInt fresh ↔
      EndFits file.hdr.fileLength numBytes.toInt position.toInt := by
  constructor
  · rintro ⟨-, data, success, bound⟩
    by_contra wraps
    obtain ⟨granted, large⟩ := clip_of_not_endFits sectored.nonneg wraps
    rw [Logged.result_readAt] at success
    rw [readAt_length granted success] at bound
    omega
  · intro endFits
    apply (Logged.safe_readAt sectored disk nonneg endFits fresh).mono
    intro data length
    rw [length]
    exact transferCount_le_rest _ _ _

theorem writeInBounds_iff (sectored : file.hdr.Sectored) (nonneg : 0 ≤ position.toInt)
    (enough : transferCount file.hdr.fileLength numBytes.toInt position.toInt ≤ source.length) :
    WriteInBounds file disk source numBytes.toInt position.toInt contents ↔
      EndFits file.hdr.fileLength numBytes.toInt position.toInt := by
  constructor
  · rintro ⟨-, ⟨result, written⟩, success, -, bound⟩
    by_contra wraps
    obtain ⟨granted, large⟩ := clip_of_not_endFits sectored.nonneg wraps
    rw [Logged.result_writeAt] at success
    rw [Logged.writeAt_count granted success] at bound
    omega
  · intro endFits
    apply (Logged.safe_writeAt sectored disk nonneg endFits enough contents).mono
    intro result count
    rw [count]
    exact ⟨Int.natCast_nonneg _, transferCount_le_rest _ _ _⟩

end

/-- Reads and writes stay in bounds exactly when the end of the request can
be computed. -/
theorem inBounds_iff_endFits (file : OpenFile) (disk : Disk)
    (source : List Byte) (numBytes position : Word) (fresh : Nat → Byte)
    (contents : Nat → Nat → Byte) (sectored : file.hdr.Sectored)
    (nonneg : 0 ≤ position.toInt)
    (enough : OpenFile.transferCount file.hdr.fileLength numBytes.toInt
      position.toInt ≤ source.length) :
    (ReadInBounds file disk numBytes.toInt position.toInt fresh ↔
      EndFits file.hdr.fileLength numBytes.toInt position.toInt) ∧
    (WriteInBounds file disk source numBytes.toInt position.toInt contents ↔
      EndFits file.hdr.fileLength numBytes.toInt position.toInt) :=
  ⟨readInBounds_iff sectored nonneg, writeInBounds_iff sectored nonneg enough⟩

theorem twoSectorFile_sectored : OpenFile.twoSectorFile.hdr.Sectored where
  nonneg := by decide
  short := by decide
  stored := by
    intro index inside
    change (index : Int) < 2 at inside
    rcases index with _ | _ | index
    · exact ⟨⟨9, by decide⟩, 9#32, rfl, rfl⟩
    · exact ⟨⟨5, by decide⟩, 5#32, rfl, rfl⟩
    · omega

theorem inBounds_iff_endFits_across_sectors :
    ReadInBounds OpenFile.twoSectorFile ⟨fun _ _ => 0#8⟩ (2#32).toInt
        (511#32).toInt (fun _ => 0#8) ∧
      WriteInBounds OpenFile.twoSectorFile ⟨fun _ _ => 0#8⟩ [1#8, 2#8]
        (2#32).toInt (511#32).toInt fun _ _ => 0#8 := by
  have settled := inBounds_iff_endFits OpenFile.twoSectorFile
    ⟨fun _ _ => 0#8⟩ [1#8, 2#8] 2#32 511#32 (fun _ => 0#8)
    (fun _ _ => 0#8) twoSectorFile_sectored (by decide) (by decide)
  exact ⟨settled.1.mpr (by decide), settled.2.mpr (by decide)⟩

/-- The largest count, from the second byte on. -/
theorem largest_count_unclipped : ¬ReadInBounds OpenFile.twoSectorFile ⟨fun _ _ => 0#8⟩
      (0x7fffffff#32).toInt (1#32).toInt fun _ => 0#8 := by
  rw [readInBounds_iff twoSectorFile_sectored (by decide)]
  decide

end Nachos
