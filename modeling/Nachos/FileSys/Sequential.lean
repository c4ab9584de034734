import Nachos.FileSys.Transfer

/-!
# Reading and writing in sequence

`Read` and `Write` work at the position which the previous call left.  Files
are copied by writing chunks one after another and printed by reading until a
call returns nothing.  However the bytes are cut, the chunks put their
concatenation into the file, and the reads give it back, as long as no read
inside the file asks for more bytes than a host integer can count from its
start.
-/

open Words Memory

namespace Nachos

namespace OpenFile

/-- What a call returned, and the position before and after it. -/
structure Call where
  returned : Int
  before : Int
  after : Int

def Call.Advances (call : Call) : Prop :=
  call.returned = call.after - call.before

/-- Write chunks one after another.  `fresh n` is what the buffers of the
`n`th call happen to hold. -/
def writeChunks (fresh : Nat → Nat → Nat → Byte) :
    Nat → List (List Byte) → OpenFile → Disk → Result (List Call × Disk)
  | _, [], _, disk => .ok ([], disk)
  | turn, chunk :: chunks, file, disk => do
    let (returned, next, disk) ←
      file.write disk chunk chunk.length (fresh turn)
    let (calls, disk) ← writeChunks fresh (turn + 1) chunks next disk
    return (⟨returned, file.getCurrentPos, next.getCurrentPos⟩ :: calls, disk)

/-- `while ((amountRead = openFile->Read(buffer, size)) > 0)`, where the
`n`th call asks for `sizes n` bytes.  The result is what the calls return, or
nothing if the loop has not ended after `fuel` calls. -/
def readUntilEmpty (disk : Disk) (sizes : Nat → Word) (fresh : Nat → Nat → Byte) :
    Nat → Nat → OpenFile → Result (Option (List Byte × List Call))
  | 0, _, _ => .ok none
  | fuel + 1, turn, file => do
    let (data, next) ←
      file.read disk (sizes turn).toInt (fresh turn)
    let call : Call :=
      ⟨data.length, file.getCurrentPos, next.getCurrentPos⟩
    if data = [] then return some ([], [call])
    let rest ← readUntilEmpty disk sizes fresh fuel (turn + 1) next
    return rest.map fun rest => (data ++ rest.1, call :: rest.2)

/-- Open the file with header sector `home` and write the chunks. -/
def writeFile (disk : Disk) (home : SectorIndex)
    (chunks : List (List Byte)) (fresh : Nat → Nat → Nat → Byte) :
    Result (List Call × Disk) := do
  let file ← OpenFile.new disk home.val
  writeChunks fresh 0 chunks file disk

/-- Open the file with header sector `home` and read until nothing is
left. -/
def readFile (disk : Disk) (home : SectorIndex) (sizes : Nat → Word)
    (fresh : Nat → Nat → Byte) (fuel : Nat) :
    Result (Option (List Byte × List Call)) := do
  let file ← OpenFile.new disk home.val
  readUntilEmpty disk sizes fresh fuel 0 file

theorem new_val (disk : Disk) (home : SectorIndex) :
    OpenFile.new disk home.val = .ok ⟨.ofSector (disk.sectors home), 0⟩ := by
  simp [OpenFile.new]

variable {hdr : FileHeader} {sectors : List SectorIndex}

/-! ## Writing -/

private theorem write_chunk (covers : hdr.Covers sectors) (disk : Disk)
    (position : Nat) {chunk : List Byte} (nonempty : chunk ≠ [])
    (fits : (position + chunk.length : Int) ≤ hdr.fileLength)
    (fresh : Nat → Nat → Byte) :
    ∃ written,
      write ⟨hdr, position⟩ disk chunk chunk.length fresh =
        .ok ((chunk.length : Int),
          ⟨hdr, ((position + chunk.length : Nat) : Int)⟩, written) ∧
      slice (written.fileByte sectors) 0 (position + chunk.length) =
        slice (disk.fileByte sectors) 0 position ++ chunk ∧
      ∀ sector, sector ∉ sectors → written.sectors sector = disk.sectors sector := by
  have short := covers.length_le
  have positive : 0 < chunk.length := List.length_pos_iff.mpr nonempty
  have whole : transferCount hdr.fileLength chunk.length position =
      chunk.length := by
    unfold transferCount
    split <;> omega
  obtain ⟨written, success, frame, contents⟩ :=
    writeAt_covered ⟨hdr, position⟩ covers disk chunk.length position
      (by omega) (by omega) chunk (by rw [whole]) fresh
  change ∀ offset : Nat, (offset : Int) < hdr.fileLength → _ at contents
  rw [whole, Int.toNat_natCast, List.take_length] at contents
  rw [whole] at success
  have range : InRange ((position : Int) + chunk.length) := by
    unfold InRange
    omega
  refine ⟨written, ?_, ?_, ?_⟩
  · simp only [write, success, ok_bind, wrap32_eq range]
    rw [Int.natCast_add]
    rfl
  · rw [slice_add, Nat.zero_add]
    congr 1
    · apply slice_congr
      intro offset _ below
      rw [contents offset (by simp only [Nat.zero_add] at below; omega)]
      apply splice_outside
      omega
    · apply List.ext_getElem
      · simp
      · intro index _ inside
        have spliced := contents (position + index) (by omega)
        rw [splice_inside _ (by omega) (by omega)] at spliced
        simp [slice, spliced, inside]
  · intro sector foreign
    apply frame
    intro offset _ _ same
    exact foreign (List.mem_of_getElem? same)

theorem writeChunks_spec (covers : hdr.Covers sectors)
    (fresh : Nat → Nat → Nat → Byte) {chunks : List (List Byte)}
    (nonempty : ∀ chunk ∈ chunks, chunk ≠ []) (turn : Nat) (disk : Disk)
    (position : Nat)
    (fits : (position + chunks.flatten.length : Int) ≤ hdr.fileLength) :
    ∃ calls written,
      writeChunks fresh turn chunks ⟨hdr, position⟩ disk =
        .ok (calls, written) ∧
      (∀ call ∈ calls, call.Advances) ∧
      slice (written.fileByte sectors) 0
          (position + chunks.flatten.length) =
        slice (disk.fileByte sectors) 0 position ++ chunks.flatten ∧
      ∀ sector, sector ∉ sectors → written.sectors sector = disk.sectors sector := by
  induction chunks generalizing turn disk position with
  | nil =>
    refine ⟨[], disk, rfl, by simp, by simp, ?_⟩
    intro sector _
    rfl
  | cons chunk chunks induction =>
    rw [List.flatten_cons, List.length_append] at fits ⊢
    have first : chunk ≠ [] := nonempty chunk List.mem_cons_self
    obtain ⟨between, success, appended, keptFirst⟩ :=
      write_chunk covers disk position first (by omega) (fresh turn)
    obtain ⟨calls, written, rest, advances, contents, keptRest⟩ :=
      induction (fun chunk member => nonempty chunk (List.mem_cons_of_mem _ member))
        (turn + 1) between (position + chunk.length) (by omega)
    refine ⟨⟨chunk.length, position, (position + chunk.length : Nat)⟩ ::
      calls, written, ?_, ?_, ?_, ?_⟩
    · simp only [writeChunks, success, rest, ok_bind]
      rfl
    · intro call member
      rcases List.mem_cons.mp member with rfl | member
      · simp only [Call.Advances]
        omega
      · exact advances call member
    · rw [← Nat.add_assoc, contents, appended, List.append_assoc]
    · intro sector foreign
      rw [keptRest sector foreign, keptFirst sector foreign]

/-! ## Reading -/

/-- How many bytes the first `turn` reads ask for. -/
def requested (sizes : Nat → Word) : Nat → Int
  | 0 => 0
  | turn + 1 => requested sizes turn + (sizes turn).toInt

/-- A read which starts inside a file of this length ends at a position
which a host integer can hold. -/
def ReadsFit (sizes : Nat → Word) (length : Int) : Prop :=
  ∀ turn, requested sizes turn < length → requested sizes (turn + 1) < 2147483648

variable {sizes : Nat → Word}

theorem requested_mono (positive : ∀ turn, 0 < (sizes turn).toInt)
    {turn later : Nat} (order : turn ≤ later) :
    requested sizes turn ≤ requested sizes later := by
  induction later, order using Nat.le_induction with
  | base => exact le_refl _
  | succ later _ induction =>
    have more := positive later
    simp only [requested]
    omega

theorem read_at_end (hdr : FileHeader) (disk : Disk)
    {position : Nat} (finished : hdr.fileLength ≤ position)
    (numBytes : Int) (inRange : InRange position) (fresh : Nat → Byte) :
    read ⟨hdr, position⟩ disk numBytes fresh = .ok ([], ⟨hdr, position⟩) := by
  have refused : numBytes ≤ 0 ∨ (position : Int) ≥ hdr.fileLength :=
    Or.inr finished
  simp only [read, readAt, if_pos refused, ok_bind, List.length_nil,
    Int.natCast_zero, Int.add_zero, wrap32_eq inRange]
  rfl

variable (covers : hdr.Covers sectors) (disk : Disk)
include covers disk

private theorem read_inside (position : Nat) {numBytes : Int} (positive : 0 < numBytes)
    (before : (position : Int) < hdr.fileLength) (fits : position + numBytes < 2147483648)
    (fresh : Nat → Byte) :
    ∃ count : Nat, (count : Int) =
        min numBytes (hdr.fileLength - position) ∧
      read ⟨hdr, position⟩ disk numBytes fresh =
        .ok (slice (disk.fileByte sectors) position count,
          ⟨hdr, ((position + count : Nat) : Int)⟩) := by
  have short := covers.length_le
  have success := readAt_covered ⟨hdr, position⟩ covers disk numBytes position (by omega) fits fresh
  generalize taken : transferCount (OpenFile.hdr ⟨hdr, position⟩).fileLength
    numBytes position = count at success
  change transferCount hdr.fileLength numBytes position = count at taken
  have amount : (count : Int) = min numBytes (hdr.fileLength - position) := by
    rw [← taken]
    unfold transferCount
    split <;> omega
  have range : InRange ((position : Int) + count) := by
    unfold InRange
    omega
  refine ⟨count, amount, ?_⟩
  simp only [read, success, ok_bind, slice_length, wrap32_eq range, Int.toNat_natCast]
  rw [Int.natCast_add]
  rfl

/-- From any position the loop returns the rest of the file. -/
theorem readUntilEmpty_spec (positive : ∀ turn, 0 < (sizes turn).toInt)
    (fit : ReadsFit sizes hdr.fileLength) (fresh : Nat → Nat → Byte) {length : Nat}
    (whole : (length : Int) = hdr.fileLength) (fuel turn position : Nat)
    (reached : (position : Int) = min (requested sizes turn) length)
    (enough : length - position < fuel) :
    ∃ calls,
      readUntilEmpty disk sizes fresh fuel turn ⟨hdr, position⟩ =
        .ok (some (slice (disk.fileByte sectors) position
          (length - position), calls)) ∧
      ∀ call ∈ calls, call.Advances := by
  have short := covers.length_le
  induction fuel generalizing turn position with
  | zero => omega
  | succ fuel induction =>
    by_cases finished : length ≤ position
    · have range : InRange position := by
        unfold InRange
        omega
      have atEnd : hdr.fileLength ≤ position := by omega
      have none := read_at_end hdr disk atEnd (sizes turn).toInt range (fresh turn)
      refine ⟨[⟨0, position, position⟩], ?_, ?_⟩
      · have left : length - position = 0 := by omega
        simp only [readUntilEmpty, none, ok_bind, left]
        rfl
      · intro call member
        rw [List.mem_singleton.mp member]
        simp [Call.Advances]
    · have inside : requested sizes turn < hdr.fileLength := by omega
      have next := fit turn inside
      simp only [requested] at next
      obtain ⟨count, amount, success⟩ := read_inside covers disk
        position (positive turn) (by omega) (by omega) (fresh turn)
      have some := positive turn
      have nonempty : slice (disk.fileByte sectors) position count ≠ [] := by
        apply List.ne_nil_of_length_pos
        rw [slice_length]
        omega
      have later : ((position + count : Nat) : Int) = min (requested sizes (turn + 1)) length := by
        simp only [requested]
        omega
      obtain ⟨calls, rest, advances⟩ :=
        induction (turn + 1) _ later (by omega)
      refine ⟨⟨count, position, (position + count : Nat)⟩ :: calls, ?_, ?_⟩
      · simp only [readUntilEmpty, success, ok_bind, if_neg nonempty,
          rest, slice_length, getCurrentPos]
        have split : length - position = count + (length - (position + count)) := by omega
        rw [split, slice_add]
        rfl
      · intro call member
        rcases List.mem_cons.mp member with rfl | member
        · simp only [Call.Advances]
          omega
        · exact advances call member

/-- A loop which returns no more than the rest of the file made no read whose
end wraps around: such a read is not clipped to the file. -/
private theorem fits_of_readUntilEmpty (positive : ∀ turn, 0 < (sizes turn).toInt)
    (fresh : Nat → Nat → Byte) {length : Nat} (whole : (length : Int) = hdr.fileLength)
    {fuel turn : Nat} (position : Nat)
    (reached : (position : Int) = min (requested sizes turn) length) {output : List Byte}
    {calls : List Call}
    (success : readUntilEmpty disk sizes fresh fuel turn ⟨hdr, position⟩ =
      .ok (some (output, calls)))
    (bounded : output.length ≤ length - position) {later : Nat} (order : turn ≤ later)
    (inside : requested sizes later < length) :
    requested sizes (later + 1) < 2147483648 := by
  have short := covers.length_le
  induction fuel generalizing turn position output calls with
  | zero => cases success
  | succ fuel induction =>
    have start : requested sizes turn < length :=
      lt_of_le_of_lt (requested_mono positive order) inside
    have more := positive turn
    simp only [readUntilEmpty] at success
    obtain ⟨⟨data, next⟩, called, success⟩ := bind_ok_inv success
    by_cases fits : position + (sizes turn).toInt < 2147483648
    · obtain ⟨count, amount, expected⟩ := read_inside covers disk
        position more (by omega) fits (fresh turn)
      rw [expected] at called
      cases called
      rcases Nat.lt_or_ge turn later with before | last
      · have nonempty : slice (disk.fileByte sectors) position count ≠ [] := by
          apply List.ne_nil_of_length_pos
          rw [slice_length]
          omega
        have nextInside : requested sizes (turn + 1) < length :=
          lt_of_le_of_lt (requested_mono positive before) inside
        simp only [if_neg nonempty] at success
        obtain ⟨rest, restRun, success⟩ := bind_ok_inv success
        cases rest with
        | none => cases success
        | some rest =>
          cases success
          rw [List.length_append, slice_length] at bounded
          simp only [requested] at nextInside
          refine induction _ ?_ restRun ?_ before
          · simp only [requested]
            omega
          · omega
      · have same : later = turn := by omega
        rw [same]
        simp only [requested]
        omega
    · exfalso
      obtain ⟨read, readRun, called⟩ := bind_ok_inv called
      cases called
      have granted : ¬((sizes turn).toInt ≤ 0 ∨ (position : Int) ≥ hdr.fileLength) := by omega
      have amount := readAt_length granted readRun
      have range := toInt_inRange (sizes turn)
      have unclipped : clip hdr.fileLength (sizes turn).toInt position = (sizes turn).toInt :=
        clip_overflow (by omega) (by unfold InRange; omega) range (by omega)
      have taken : data.length ≤ output.length := by
        by_cases empty : data = []
        · simp [empty]
        · simp only [if_neg empty] at success
          obtain ⟨rest, -, success⟩ := bind_ok_inv success
          cases rest with
          | none => cases success
          | some rest =>
            cases success
            rw [List.length_append]
            omega
      change (data.length : Int) = clip hdr.fileLength (sizes turn).toInt position at amount
      rw [unclipped] at amount
      omega

end OpenFile

/-! ## Writing a file and reading it back -/

/-- A file with its header in sector `home` and its data in `sectors`. -/
structure Disk.Stores (disk : Disk) (home : SectorIndex)
    (sectors : List SectorIndex) : Prop where
  covers : (FileHeader.ofSector (disk.sectors home)).Covers sectors
  apart : home ∉ sectors

namespace OpenFile

/-- The chunks are written, a fresh handle reads exactly their concatenation
before a read returns nothing, and every call returns the number of bytes by
which it moved the position. -/
def StreamsBack (disk : Disk) (home : SectorIndex) (chunks : List (List Byte)) (sizes : Nat → Word)
    (writeFresh : Nat → Nat → Nat → Byte) (readFresh : Nat → Nat → Byte) :
    Prop :=
  ∃ writes written,
    writeFile disk home chunks writeFresh = .ok (writes, written) ∧
    (∀ call ∈ writes, call.Advances) ∧
    ∃ fuel reads,
      readFile written home sizes readFresh fuel =
        .ok (some (chunks.flatten, reads)) ∧
      ∀ call ∈ reads, call.Advances

variable {disk : Disk} {home : SectorIndex} {sectors : List SectorIndex}
  {chunks : List (List Byte)} {sizes : Nat → Word}

section

variable (stores : disk.Stores home sectors) (nonempty : ∀ chunk ∈ chunks, chunk ≠ [])
  (whole : (chunks.flatten.length : Int) = (FileHeader.ofSector (disk.sectors home)).fileLength)
include stores nonempty whole

private theorem writeFile_spec (fresh : Nat → Nat → Nat → Byte) :
    ∃ calls written,
      writeFile disk home chunks fresh = .ok (calls, written) ∧
      (∀ call ∈ calls, call.Advances) ∧
      slice (written.fileByte sectors) 0 chunks.flatten.length =
        chunks.flatten ∧
      written.sectors home = disk.sectors home := by
  obtain ⟨calls, written, success, advances, contents, kept⟩ :=
    writeChunks_spec stores.covers fresh nonempty 0 disk 0 (by omega)
  refine ⟨calls, written, ?_, advances, ?_, kept home stores.apart⟩
  · simp only [writeFile, new_val, ok_bind]
    exact success
  · rw [Nat.zero_add] at contents
    exact contents

theorem streamsBack_of_readsFit (positive : ∀ turn, 0 < (sizes turn).toInt)
    (fit : ReadsFit sizes chunks.flatten.length) (writeFresh : Nat → Nat → Nat → Byte)
    (readFresh : Nat → Nat → Byte) :
    StreamsBack disk home chunks sizes writeFresh readFresh := by
  obtain ⟨writes, written, success, advances, contents, kept⟩ :=
    writeFile_spec stores nonempty whole writeFresh
  refine ⟨writes, written, success, advances, chunks.flatten.length + 1, ?_⟩
  rw [whole] at fit
  obtain ⟨reads, reading, readAdvances⟩ := readUntilEmpty_spec
    stores.covers written positive fit readFresh whole
    (chunks.flatten.length + 1) 0 0
    (by simp only [requested]; omega) (by omega)
  refine ⟨reads, ?_, readAdvances⟩
  rw [Nat.sub_zero, contents] at reading
  simp only [readFile, new_val, ok_bind, kept]
  exact reading

theorem readsFit_of_streamsBack (positive : ∀ turn, 0 < (sizes turn).toInt)
    {writeFresh : Nat → Nat → Nat → Byte} {readFresh : Nat → Nat → Byte}
    (streams : StreamsBack disk home chunks sizes writeFresh readFresh) :
    ReadsFit sizes chunks.flatten.length := by
  obtain ⟨writes, written, success, -, fuel, reads, reading, -⟩ := streams
  obtain ⟨expectedWrites, expected, expectedSuccess, -, -, kept⟩ :=
    writeFile_spec stores nonempty whole writeFresh
  rw [expectedSuccess] at success
  cases success
  simp only [readFile, new_val, ok_bind, kept] at reading
  intro turn inside
  exact fits_of_readUntilEmpty stores.covers written positive readFresh
    whole 0 (by simp only [requested]; omega) reading
    (by omega) (Nat.zero_le turn) inside

end

/-- Chunks written one after another are read back byte for byte, whatever
the sizes of the chunks and of the reads, exactly if no read which starts
inside the file asks for an end beyond the host integers. -/
theorem streams_back_iff (stores : disk.Stores home sectors)
    (nonempty : ∀ chunk ∈ chunks, chunk ≠ [])
    (whole : (chunks.flatten.length : Int) = (FileHeader.ofSector (disk.sectors home)).fileLength)
    (positive : ∀ turn, 0 < (sizes turn).toInt)
    (writeFresh : Nat → Nat → Nat → Byte)
    (readFresh : Nat → Nat → Byte) :
    StreamsBack disk home chunks sizes writeFresh readFresh ↔
      ReadsFit sizes chunks.flatten.length := by
  constructor
  · exact readsFit_of_streamsBack stores nonempty whole positive
  · intro fit
    exact streamsBack_of_readsFit stores nonempty whole positive fit writeFresh readFresh

/-- A blank disk with this header in sector 4. -/
def diskWith (hdr : FileHeader) : Disk :=
  Disk.set ⟨fun _ _ => 0#8⟩ ⟨4, by decide⟩ hdr.toSector

theorem diskWith_stores {hdr : FileHeader} (covers : hdr.Covers sectors)
    (apart : ⟨4, by decide⟩ ∉ sectors) :
    (diskWith hdr).Stores ⟨4, by decide⟩ sectors := by
  constructor
  · rw [diskWith, Disk.set_same, FileHeader.ofSector_toSector]
    exact covers
  · exact apart

theorem diskWith_twoSectorFile_stores :
    (diskWith twoSectorFile.hdr).Stores ⟨4, by decide⟩ twoSectors :=
  diskWith_stores twoSectorFile_covers (by decide)

theorem diskWith_twoSectorFile_length : (FileHeader.ofSector
      ((diskWith twoSectorFile.hdr).sectors ⟨4, by decide⟩)).fileLength =
        600 := by
  rw [diskWith, Disk.set_same, FileHeader.ofSector_toSector]
  rfl

theorem streams_back_iff_two_chunks : StreamsBack (diskWith twoSectorFile.hdr) ⟨4, by decide⟩
      [List.replicate 300 1#8, List.replicate 300 2#8] (fun _ => 512#32)
      (fun _ _ _ => 0#8) (fun _ _ => 0#8) := by
  refine (streams_back_iff diskWith_twoSectorFile_stores ?_ ?_ ?_ _ _).mpr ?_
  · intro chunk member
    rcases List.mem_pair.mp member with rfl | rfl
    · exact List.cons_ne_nil _ _
    · exact List.cons_ne_nil _ _
  · rw [diskWith_twoSectorFile_length]
    simp only [List.flatten_cons, List.flatten_nil, List.length_append,
      List.length_replicate, List.length_nil]
    rfl
  · intro turn
    decide
  · intro turn inside
    simp only [List.flatten_cons, List.flatten_nil, List.length_append,
      List.length_replicate, List.length_nil] at inside
    simp only [requested]
    have size : (512#32).toInt = 512 := rfl
    omega

/-- After one byte of a file has been read, a request for as many bytes as a
host integer can count is not clipped to the end of the file: its buffer gets
a negative size. -/
theorem huge_read_after_first_byte_fails :
    (∀ disk fresh, read ⟨twoSectorFile.hdr, 1⟩ disk 2147483647 fresh =
      .error .allocation) ∧
    ¬StreamsBack (diskWith twoSectorFile.hdr) ⟨4, by decide⟩ [List.replicate 600 1#8]
      (fun turn => if turn = 0 then 1#32 else 2147483647#32)
      (fun _ _ _ => 0#8) (fun _ _ => 0#8) := by
  constructor
  · intro disk fresh
    simp only [read, readAt, newBlock]
    rw [if_neg (by decide), if_neg (by decide +kernel)]
    rfl
  · intro streams
    have fit := readsFit_of_streamsBack diskWith_twoSectorFile_stores ?_ ?_ ?_ streams
    · have second := fit 1 (by
        simp only [List.flatten_singleton, List.length_replicate]
        decide)
      exact absurd second (by decide)
    · intro chunk member
      rw [List.mem_singleton.mp member]
      exact List.cons_ne_nil _ _
    · rw [diskWith_twoSectorFile_length, List.flatten_singleton, List.length_replicate]
      rfl
    · intro turn
      split <;> decide

end OpenFile

end Nachos
