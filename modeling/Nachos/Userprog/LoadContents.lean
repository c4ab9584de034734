import Nachos.Userprog.LoadBounds

/-!
# What the copies leave in memory

If the whole image is in the file, the copies cannot abort the machine.
When they are done, every byte of the image is at its target, because
different bytes have different targets, and all other bytes are as before.
-/

open Words Memory

namespace Nachos

namespace AddrSpace

/-- Every byte of the image up to an address is in the file, at a position
which is not negative. -/
def Complete (file : Executable) (stop : Nat) : Prop :=
  ∀ address, address < stop →
    0 ≤ filePosition file.header address ∧
    filePosition file.header address < 2147483648 ∧
    filePosition file.header address < file.contents.length

/-- The byte of the image at an address. -/
def imageByte (file : Executable) (address : Nat) : Byte :=
  file.contents.getD (filePosition file.header address).toNat 0#8

section

variable {file : Executable} {pageTable : List TranslationEntry}
  {copy : Copy} {start stop : Nat} {entry : TranslationEntry}
  {frame : Fin numPhysPages} {mainMemory after : Nat → Byte}

section

variable (fills : copy.Fills file.header start stop)
include fills

theorem filePosition_add {index : Nat} (inside : index < stop - start) :
    filePosition file.header (start + index) = filePosition file.header start + index := by
  have sameSegment := fills.sameSegment
  unfold filePosition
  split <;> split <;> omega

variable (complete : Complete file stop)
include complete

theorem position_toInt : copy.position.toInt = filePosition file.header start := by
  have bounds := complete start fills.more
  rw [fills.position]
  apply toInt_ofInt_eq
  unfold InRange
  omega

theorem position_toNat : (copy.position.toNat : Int) = filePosition file.header start := by
  have bounds := complete start fills.more
  have signed := position_toInt fills complete
  rw [← toInt_eq_toNat (by omega), signed]

theorem chunk_length : (chunk file copy).length = stop - start := by
  have more := fills.more
  have count := fills.count
  have last := complete (start + (stop - start - 1)) (by omega)
  rw [filePosition_add fills (by omega)] at last
  have position := position_toNat fills complete
  rw [chunk, List.length_take, List.length_drop]
  omega

theorem chunk_getD {index : Nat} (inside : index < stop - start) :
    (chunk file copy).getD index 0#8 = imageByte file (start + index) := by
  have count := fills.count
  have position := position_toNat fills complete
  have place : (filePosition file.header (start + index)).toNat = copy.position.toNat + index := by
    rw [filePosition_add fills inside]
    omega
  rw [imageByte, place, chunk, List.getD_eq_getElem?_getD,
    List.getElem?_take_of_lt (by omega), List.getElem?_drop,
    List.getD_eq_getElem?_getD]

theorem copyOne_complete (found : pageTable[start / pageSize]? = some entry)
    (named : entry.physicalPage = frameWord frame) :
    0 ≤ byteTarget file.header frame start ∧
      byteTarget file.header frame start + (stop - start : Nat) ≤
        memorySize ∧
      copyOne file pageTable mainMemory copy = .ok (splice mainMemory
        (byteTarget file.header frame start).toNat (chunk file copy)) ∨
    copyOne file pageTable mainMemory copy = .error .bounds := by
  have more := fills.more
  have bounds := complete start more
  have signed := position_toInt fills complete
  have length := chunk_length fills complete
  rw [copyOne_eq fills found named]
  rcases @readInto_cases file copy mainMemory (byteTarget file.header frame start) with
    ⟨negative, -⟩ | ⟨-, inside, result⟩ | ⟨-, -, result⟩
  · omega
  · left
    have nonempty : chunk file copy ≠ [] := by
      intro empty
      rw [empty, List.length_nil] at length
      omega
    obtain ⟨lower, upper⟩ := inside nonempty
    rw [length] at upper
    exact ⟨lower, upper, result⟩
  · exact .inr result

end

theorem byteTarget_injective {header : NoffHeader}
    (distinct : (pageTable.map TranslationEntry.physicalPage).Nodup)
    {other : Nat} {entry' : TranslationEntry} {frame' : Fin numPhysPages}
    {address : Nat}
    (found : pageTable[address / pageSize]? = some entry)
    (named : entry.physicalPage = frameWord frame)
    (found' : pageTable[other / pageSize]? = some entry')
    (named' : entry'.physicalPage = frameWord frame')
    (same : byteTarget header frame address =
      byteTarget header frame' other) : address = other := by
  unfold byteTarget at same
  rw [show pageSize = 512 from rfl] at found found' same
  have frames : frame = frame' := by
    apply Fin.ext
    omega
  have inside := (List.getElem?_eq_some_iff.mp found).1
  have pages : address / 512 = other / 512 := by
    have listed : address / 512 < (pageTable.map TranslationEntry.physicalPage).length := by
      rw [List.length_map]
      exact inside
    apply (List.getElem?_inj listed distinct).mp
    rw [List.getElem?_map, List.getElem?_map, found, found',
      Option.map_some, Option.map_some, named, named', frames]
  rw [frames] at same
  omega

end

/-- With the whole image in the file, copies fail only by leaving the page
table or main memory. -/
theorem Covers.bounds_of_error {file : Executable}
    {pageTable : List TranslationEntry} {copies : List Copy}
    {start stop : Nat} (covers : Covers file.header start copies stop)
    (complete : Complete file stop) (framed : Framed pageTable)
    {mainMemory : Nat → Byte} {fault : Fault}
    (failed : copyAll file pageTable copies mainMemory = .error fault) :
    fault = .bounds := by
  induction covers generalizing mainMemory with
  | done => cases failed
  | @copy start middle stop copy rest fills covers induction =>
    have soFar : Complete file middle := fun address below =>
      complete address (Nat.lt_of_lt_of_le below covers.le)
    rw [copyAll_cons] at failed
    by_cases inside : start / pageSize < pageTable.length
    · obtain ⟨entry, frame, found, named⟩ := framed.frame inside
      rcases @copyOne_complete file pageTable copy start middle entry
          frame mainMemory fills soFar found named with
        ⟨-, -, result⟩ | result
      · rw [result, ok_bind] at failed
        exact induction complete failed
      · rw [result] at failed
        cases failed
        rfl
    · rw [copyOne_behind (by rw [fills.page]; omega)] at failed
      cases failed
      rfl

/-- The bytes of the image are at their targets, and nothing else has
changed. -/
structure Copied (file : Executable) (pageTable : List TranslationEntry)
    (start stop : Nat) (before after : Nat → Byte) : Prop where
  image : ∀ address, start ≤ address → address < stop →
    ∃ entry frame, ∃ target : Nat,
      pageTable[address / pageSize]? = some entry ∧
      entry.physicalPage = frameWord frame ∧
      (target : Int) = byteTarget file.header frame address ∧
      target < memorySize ∧ after target = imageByte file address
  rest : ∀ place : Nat,
    (∀ address entry frame, start ≤ address → address < stop →
      pageTable[address / pageSize]? = some entry →
      entry.physicalPage = frameWord frame →
      (place : Int) ≠ byteTarget file.header frame address) →
    after place = before place

theorem Covers.copied {file : Executable} {pageTable : List TranslationEntry} {copies : List Copy}
    {start stop : Nat} (covers : Covers file.header start copies stop)
    (complete : Complete file stop) (framed : Framed pageTable)
    (distinct : (pageTable.map TranslationEntry.physicalPage).Nodup)
    {before after : Nat → Byte}
    (success : copyAll file pageTable copies before = .ok after) :
    Copied file pageTable start stop before after := by
  induction covers generalizing before with
  | done =>
    cases success
    exact ⟨fun address lower upper => by omega, fun _ _ => rfl⟩
  | @copy start middle stop copy rest fills covers induction =>
    have soFar : Complete file middle := fun address below =>
      complete address (Nat.lt_of_lt_of_le below covers.le)
    have length := chunk_length fills soFar
    have more := fills.more
    have later := covers.le
    rw [copyAll_cons] at success
    obtain ⟨written, one, others⟩ := bind_ok_inv success
    have inside : start / pageSize < pageTable.length := by
      by_contra behind
      rw [copyOne_behind (by rw [fills.page]; omega)] at one
      cases one
    obtain ⟨entry, frame, found, named⟩ := framed.frame inside
    rcases @copyOne_complete file pageTable copy start middle entry
        frame before fills soFar found named with
      ⟨lower, upper, result⟩ | result
    · rw [result] at one
      cases one
      have tail := induction complete others
      have samePage : ∀ index, index < middle - start →
          (start + index) / pageSize = start / pageSize := by
        intro index small
        have page := fills.samePage
        rw [show pageSize = 512 from rfl] at page ⊢
        omega
      refine ⟨?_, ?_⟩
      · intro address above below
        by_cases early : address < middle
        · obtain ⟨index, rfl⟩ := Nat.exists_eq_add_of_le above
          have page := samePage index (by omega)
          have placed : pageTable[(start + index) / pageSize]? =
              some entry := by
            rw [page]
            exact found
          have place := @byteTarget_add file copy start middle frame fills index (by omega)
          refine ⟨entry, frame,
            (byteTarget file.header frame start).toNat + index, placed,
            named, ?_, ?_, ?_⟩
          · omega
          · omega
          · rw [tail.rest, splice_inside _ (by omega) (by omega),
              Nat.add_sub_cancel_left, chunk_getD fills soFar (by omega)]
            intro other entry' frame' above' _ found' named' same
            have equal := byteTarget_injective distinct placed named
              found' named' (by rw [← same]; omega)
            omega
        · exact tail.image address (by omega) below
      · intro place apart
        rw [tail.rest place (fun address entry frame above =>
          apart address entry frame (by omega))]
        apply splice_outside
        by_contra hit
        have small : place - (byteTarget file.header frame start).toNat < middle - start := by omega
        refine apart (start + (place - (byteTarget file.header frame start).toNat)) entry
          frame (by omega) (by omega) ?_ named ?_
        · rw [samePage _ small]
          exact found
        · rw [byteTarget_add fills small]
          omega
    · rw [result] at one
      cases one

end AddrSpace

end Nachos
