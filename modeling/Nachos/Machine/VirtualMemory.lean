import Nachos.Lib.DoubleWord
import Nachos.Machine.Faults
import Nachos.Machine.UserBytes

/-!
# Laws of user memory

An access of a proper size lies within one page, and its bytes are those
which accesses to single bytes find.  What has been written is read back, and
if no two pages share a frame, reads elsewhere do not change.
-/

open Words Memory

namespace Nachos

open Register

namespace Mmu

/-! ## Where the bytes of an access are -/

variable {physAddr size : Nat} {writing : Bool} {virtAddr : Word}

theorem toNat_add_index {index : Nat} (aligned : misaligned virtAddr size = false)
    (proper : size = 1 ∨ size = 2 ∨ size = 4) (inside : index < size) :
    (virtAddr + BitVec.ofNat 32 index).toNat = virtAddr.toNat + index := by
  have within : virtAddr.toNat % 512 + size ≤ 512 := offset_fits aligned proper
  have small := virtAddr.isLt
  rw [BitVec.toNat_add, BitVec.toNat_ofNat]
  omega

theorem outcome_byte {mmu : Mmu} (proper : size = 1 ∨ size = 2 ∨ size = 4)
    (success : mmu.outcome virtAddr size writing = .ok physAddr) {index : Nat}
    (inside : index < size) :
    mmu.outcome (virtAddr + BitVec.ofNat 32 index) 1 writing = .ok (physAddr + index) := by
  obtain ⟨aligned, entry, found, checked⟩ := outcome_inv success
  obtain ⟨allowed, low, fits, place⟩ := entryOutcome_ok_iff.mp checked
  have within : virtAddr.toNat % 512 + size ≤ 512 := offset_fits aligned proper
  have page : (virtAddr.toNat + index) / pageSize = virtAddr.toNat / pageSize := by
    change (virtAddr.toNat + index) / 512 = virtAddr.toNat / 512
    omega
  have offset : (virtAddr.toNat + index) % pageSize = virtAddr.toNat % pageSize + index := by
    change (virtAddr.toNat + index) % 512 = virtAddr.toNat % 512 + index
    omega
  rw [outcome_eq, if_neg (show ¬misaligned _ 1 = true from
    Bool.false_ne_true), toNat_add_index aligned proper inside, page, offset,
    found, ok_bind, entryOutcome_ok_iff]
  exact ⟨allowed, low, by omega, by omega⟩

/-! ## Page tables in which no two pages share a frame -/

/-- Every page is mapped, writable, to a frame of its own. -/
structure OwnFrames (table : List TranslationEntry) : Prop where
  valid : ∀ entry ∈ table, entry.valid = true
  writable : ∀ entry ∈ table, entry.readOnly = false
  frames : ∀ entry ∈ table, entry.physicalPage.toNat < numPhysPages
  distinct : (table.map TranslationEntry.physicalPage).Nodup

variable {table : List TranslationEntry}

theorem find_table_inv {vpn : Nat} {entry : TranslationEntry}
    (found : find ⟨some table, none⟩ vpn = .ok entry) :
    table[vpn]? = some entry := by
  unfold find at found
  simp only at found
  split at found
  · cases found
  · rename_i stored
    split at found
    · cases found
      exact stored
    · cases found

theorem OwnFrames.injective (own : OwnFrames table) {left right : Word}
    {leftWriting rightWriting : Bool}
    (first : outcome ⟨some table, none⟩ left 1 leftWriting = .ok physAddr)
    (second : outcome ⟨some table, none⟩ right 1 rightWriting = .ok physAddr) :
    left = right := by
  obtain ⟨-, entry, found, checked⟩ := outcome_inv first
  obtain ⟨-, entry', found', checked'⟩ := outcome_inv second
  obtain ⟨-, -, -, place⟩ := entryOutcome_ok_iff.mp checked
  obtain ⟨-, -, -, place'⟩ := entryOutcome_ok_iff.mp checked'
  change physAddr = entry.physicalPage.toNat * 512 + left.toNat % 512 at place
  change physAddr = entry'.physicalPage.toNat * 512 + right.toNat % 512 at place'
  have sameFrame : entry.physicalPage = entry'.physicalPage := by
    apply BitVec.eq_of_toNat_eq
    omega
  have samePage : left.toNat / 512 = right.toNat / 512 := by
    have stored : table[left.toNat / 512]? = some entry :=
      find_table_inv found
    have stored' : table[right.toNat / 512]? = some entry' :=
      find_table_inv found'
    have inside := (List.getElem?_eq_some_iff.mp stored).1
    apply (List.getElem?_inj (by rw [List.length_map]; exact inside) own.distinct).mp
    rw [List.getElem?_map, List.getElem?_map, stored, stored',
      Option.map_some, Option.map_some, sameFrame]
  apply BitVec.eq_of_toNat_eq
  omega

end Mmu

namespace Machine

/-! ## Reading and writing -/

/-- What an access returns to its caller. -/
def returned {α : Type} : Except Stop (α × Machine) → Except Refusal α
  | .ok (value, _) => .ok value
  | .error (.raised which _) => .error (.exception which)
  | .error (.fault reason) => .error (.fault reason)

theorem raiseException_of_outside {machine : Machine}
    (outside : ¬(machine.registers loadReg).toNat < numTotalRegs)
    (which : ExceptionType) (addr : Word) :
    machine.raiseException which addr = .fault .bounds := by
  have failed : (machine.writeRegister badVAddrReg addr).delayedLoad 0#32
      0#32 = .error .bounds := by
    have kept : (machine.writeRegister badVAddrReg addr).registers loadReg =
        machine.registers loadReg := rfl
    unfold delayedLoad writeIndexed
    rw [kept, dif_neg outside]
    rfl
  unfold raiseException
  rw [failed]

/-- Whether an exception can be raised depends on the registers. -/
theorem returned_raiseException {α : Type} {left right : Machine}
    (same : left.registers = right.registers) (which : ExceptionType)
    (addr : Word) :
    (returned (.error (left.raiseException which addr)) :
        Except Refusal α) =
      returned (.error (right.raiseException which addr)) := by
  by_cases pending : (left.registers loadReg).toNat < numTotalRegs
  · obtain ⟨leftAfter, leftRaised⟩ := raiseException_eq pending which addr
    rw [same] at pending
    obtain ⟨rightAfter, rightRaised⟩ := raiseException_eq pending which addr
    rw [leftRaised, rightRaised]
    rfl
  · rw [raiseException_of_outside pending]
    rw [same] at pending
    rw [raiseException_of_outside pending]

theorem returned_readMem (machine : Machine) (addr : Word) (size : Nat) :
    returned (machine.readMem addr size) = match machine.mmu.outcome addr size false with
      | .ok physicalAddress =>
        match load machine.mainMemory physicalAddress size with
        | some value => .ok value
        | none => .error (.fault .assertion)
      | .error (.exception which) =>
        returned (.error (machine.raiseException which addr))
      | .error (.fault reason) => .error (.fault reason) := by
  unfold readMem translate Mmu.outcome
  cases machine.mmu.translate addr size false with
  | error refusal => 
    cases refusal with
    | exception which | fault reason => rfl
  | ok result => 
    obtain ⟨physicalAddress, mmu⟩ := result
    simp only [Except.map, ok_bind]
    cases load machine.mainMemory physicalAddress size with
    | none | some value => rfl

variable {value : Word}

theorem splice_stored {size : Nat} {bytes : List Byte}
    (stored : storedBytes value size = some bytes) (memory : Nat → Byte)
    (address : Nat) {index : Nat} (inside : index < size) :
    splice memory address bytes (address + index) = byteOf value index := by
  obtain ⟨length, proper⟩ := storedBytes_length stored
  rw [splice_inside _ (Nat.le_add_right _ _) (by omega), Nat.add_sub_cancel_left]
  rcases proper with rfl | rfl | rfl
  · cases stored
    interval_cases index
    rfl
  · cases stored
    interval_cases index
    · rfl
    · rfl
  · cases stored
    interval_cases index
    · rfl
    · rfl
    · rfl
    · rfl

theorem setWidth_signExtend_byte (byte : Byte) : (byte.signExtend 32).setWidth 8 = byte := by
  ext index inside
  have wide : index < 32 := by omega
  simp [BitVec.getElem_signExtend, inside, wide]

theorem toNat_signExtend_byte (byte : Byte) : (byte.signExtend 32).toNat % 256 = byte.toNat := by
  have same := congrArg BitVec.toNat (setWidth_signExtend_byte byte)
  rwa [BitVec.toNat_setWidth] at same

theorem setWidth_half (value : Word) :
    ((byteOf value 1 ++ byteOf value 0).setWidth 32).setWidth 16 =
      value.setWidth 16 := by
  have first : (byteOf value 0).toNat = value.toNat % 256 :=
    BitVec.extractLsb'_toNat 0 8 value
  have second : (byteOf value 1).toNat = value.toNat / 256 % 256 := by
    refine (BitVec.extractLsb'_toNat 8 8 value).trans ?_
    rw [Nat.shiftRight_eq_div_pow]
  apply BitVec.eq_of_toNat_eq
  rw [BitVec.toNat_setWidth, BitVec.toNat_setWidth, BitVec.toNat_setWidth,
    DoubleWord.toNat_append, first, second]
  omega

theorem load_splice {size : Nat} {bytes : List Byte}
    (stored : storedBytes value size = some bytes) (memory : Nat → Byte)
    (address : Nat) :
    ∃ again, load (splice memory address bytes) address size = some again ∧
      again.setWidth (8 * size) = value.setWidth (8 * size) := by
  have image : ∀ index, index < size →
      splice memory address bytes (address + index) = byteOf value index :=
    fun index inside => splice_stored stored memory address inside
  obtain ⟨-, rfl | rfl | rfl⟩ := storedBytes_length stored
  · refine ⟨_, rfl, ?_⟩
    rw [show splice memory address bytes address = byteOf value 0 from
      image 0 (by decide)]
    exact setWidth_signExtend_byte (byteOf value 0)
  · refine ⟨_, rfl, ?_⟩
    rw [image 1 (by decide), show splice memory address bytes address =
      byteOf value 0 from image 0 (by decide)]
    exact setWidth_half value
  · refine ⟨_, rfl, ?_⟩
    rw [wordAt_byteOf value _ _ image]

theorem load_bytes {memory : Nat → Byte} {address size : Nat} (large : size = 2 ∨ size = 4)
    (loaded : load memory address size = some value) :
    value.toNat = ∑ index ∈ Finset.range size, (memory (address + index)).toNat * 256 ^ index := by
  rcases large with rfl | rfl
  · cases loaded
    rw [BitVec.toNat_setWidth_of_le (by decide), DoubleWord.toNat_append]
    simp only [Finset.sum_range_succ, Finset.sum_range_zero, Nat.add_zero]
    ring
  · cases loaded
    unfold wordAt
    rw [DoubleWord.toNat_append, DoubleWord.toNat_append, DoubleWord.toNat_append]
    simp only [Finset.sum_range_succ, Finset.sum_range_zero, Nat.add_zero]
    ring

section

variable {machine after : Machine} {addr value : Word} {size : Nat}

theorem readMem_eq {physicalAddress : Nat}
    (placed : machine.mmu.outcome addr size false = .ok physicalAddress)
    (loaded : load machine.mainMemory physicalAddress size = some value) :
    ∃ final, machine.readMem addr size = .ok (value, final) := by
  obtain ⟨mmu, translated⟩ := Mmu.outcome_ok_iff.mp placed
  refine ⟨{ machine with mmu := mmu }, ?_⟩
  unfold readMem translate
  rw [translated]
  simp only [ok_bind, loaded]

theorem writeMem_spec (written : machine.writeMem addr size value = .ok ((), after)) :
    ∃ physicalAddress bytes,
      machine.mmu.outcome addr size true = .ok physicalAddress ∧
      storedBytes value size = some bytes ∧
      after.registers = machine.registers ∧
      after.mmu.mapping = machine.mmu.mapping ∧
      after.mainMemory = splice machine.mainMemory physicalAddress bytes := by
  obtain ⟨physicalAddress, mmu, bytes, translated, stored, rfl⟩ :=
    writeMem_inv written
  exact ⟨physicalAddress, bytes,
    Mmu.outcome_ok_iff.mpr ⟨mmu, translated⟩, stored, rfl,
    Mmu.translate_mapping translated, rfl⟩

theorem read_after_write (written : machine.writeMem addr size value = .ok ((), after)) :
    ∃ again final, after.readMem addr size = .ok (again, final) ∧
      again.setWidth (8 * size) = value.setWidth (8 * size) := by
  obtain ⟨physicalAddress, bytes, placed, stored, -, mapping, memory⟩ :=
    writeMem_spec written
  obtain ⟨again, loaded, same⟩ :=
    load_splice stored machine.mainMemory physicalAddress
  have read : after.mmu.outcome addr size false = .ok physicalAddress := by
    rw [Mmu.outcome_congr mapping]
    exact Mmu.outcome_reading placed
  rw [← memory] at loaded
  obtain ⟨final, done⟩ := readMem_eq read loaded
  exact ⟨again, final, done, same⟩

variable {table : List TranslationEntry}

/-- The bytes of two accesses to disjoint ranges are in different places. -/
theorem places_apart (own : Mmu.OwnFrames table) {other : Word} {count place place' : Nat}
    (written : Mmu.outcome ⟨some table, none⟩ addr size true = .ok place)
    (sized : size = 1 ∨ size = 2 ∨ size = 4)
    (read : Mmu.outcome ⟨some table, none⟩ other count false = .ok place')
    (proper : count = 1 ∨ count = 2 ∨ count = 4)
    (apart : other.toNat + count ≤ addr.toNat ∨
      addr.toNat + size ≤ other.toNat) {index : Nat} (inside : index < count) :
    place' + index < place ∨ place + size ≤ place' + index := by
  by_contra overlap
  have shared : place' + index = place + (place' + index - place) := by omega
  have within : place' + index - place < size := by omega
  have first := Mmu.outcome_byte proper read inside
  have second := Mmu.outcome_byte sized written within
  rw [shared] at first
  have same := congrArg BitVec.toNat (own.injective first second)
  rw [Mmu.toNat_add_index (Mmu.outcome_inv read).1 proper inside,
    Mmu.toNat_add_index (Mmu.outcome_inv written).1 sized within] at same
  omega

theorem read_elsewhere (paged : machine.mmu = ⟨some table, none⟩) (own : Mmu.OwnFrames table)
    (written : machine.writeMem addr size value = .ok ((), after))
    {other : Word} {count : Nat} (proper : count = 1 ∨ count = 2 ∨ count = 4)
    (apart : other.toNat + count ≤ addr.toNat ∨ addr.toNat + size ≤ other.toNat) :
    returned (after.readMem other count) = returned (machine.readMem other count) := by
  obtain ⟨place, bytes, placed, stored, registers, mapping, memory⟩ :=
    writeMem_spec written
  obtain ⟨length, sized⟩ := storedBytes_length stored
  rw [returned_readMem, returned_readMem, Mmu.outcome_congr mapping]
  cases read : machine.mmu.outcome other count false with
  | error refusal =>
    cases refusal with
    | exception which => exact returned_raiseException registers which other
    | fault reason => rfl
  | ok place' =>
    have same : load after.mainMemory place' count = load machine.mainMemory place' count := by
      rw [memory]
      apply load_congr
      intro _ index inside
      apply splice_outside
      rw [length]
      rw [paged] at placed read
      exact places_apart own placed sized read proper apart inside
    simp only [same]

/-- A read of several bytes is the little-endian combination of reads of
single bytes. -/
theorem read_combination {final : Machine} (large : size = 2 ∨ size = 4)
    (read : machine.readMem addr size = .ok (value, final)) :
    ∃ bytes : Nat → Word,
      (∀ index, index < size → ∃ middle,
        machine.readMem (addr + BitVec.ofNat 32 index) 1 =
          .ok (bytes index, middle)) ∧
      value.toNat = ∑ index ∈ Finset.range size, (bytes index).toNat % 256 * 256 ^ index := by
  obtain ⟨place, mmu, translated, loaded, -⟩ := readMem_inv read
  have placed := Mmu.outcome_ok_iff.mpr ⟨mmu, translated⟩
  have proper : size = 1 ∨ size = 2 ∨ size = 4 := .inr large
  refine ⟨fun index => (machine.mainMemory (place + index)).signExtend 32,
    fun index inside => readMem_eq (Mmu.outcome_byte proper placed inside) rfl, ?_⟩
  rw [load_bytes large loaded]
  apply Finset.sum_congr rfl
  intro index _
  rw [toNat_signExtend_byte]

theorem translate_ne_fault {mmu : Mmu} (configured : mmu.Configured)
    {writing : Bool} (proper : size = 1 ∨ size = 2 ∨ size = 4)
    (reason : Fault) :
    mmu.translate addr size writing ≠ .error (.fault reason) := by
  rcases Mmu.translate_cases configured addr writing proper with
    ⟨which, refused⟩ | ⟨place, changed, translated, -⟩
  · rw [refused]
    rintro ⟨⟩
  · rw [translated]
    rintro ⟨⟩

end

/-- A write to memory in which no two pages share a frame is read back, and
does not change what reads elsewhere return.  Any read of several bytes is
the combination of reads of single bytes, and the `ASSERT` on the bounds of
the physical address holds whatever the tables are. -/
theorem memory_laws (machine after : Machine)
    (table : List TranslationEntry) (addr value : Word) (size : Nat)
    (paged : machine.mmu = ⟨some table, none⟩)
    (own : Mmu.OwnFrames table)
    (written : machine.writeMem addr size value = .ok ((), after)) :
    (∃ again final, after.readMem addr size = .ok (again, final) ∧
      again.setWidth (8 * size) = value.setWidth (8 * size)) ∧
    (∀ (other : Word) (count : Nat), count = 1 ∨ count = 2 ∨ count = 4 →
      other.toNat + count ≤ addr.toNat ∨ addr.toNat + size ≤ other.toNat →
      returned (after.readMem other count) =
        returned (machine.readMem other count)) ∧
    (∀ (reader final : Machine) (other combined : Word) (count : Nat),
      count = 2 ∨ count = 4 →
      reader.readMem other count = .ok (combined, final) →
      ∃ bytes : Nat → Word,
        (∀ index, index < count → ∃ middle,
          reader.readMem (other + BitVec.ofNat 32 index) 1 =
            .ok (bytes index, middle)) ∧
        combined.toNat = ∑ index ∈ Finset.range count,
          (bytes index).toNat % 256 * 256 ^ index) ∧
    ∀ (mmu : Mmu) (other : Word) (count : Nat) (writing : Bool)
      (reason : Fault), mmu.Configured → count = 1 ∨ count = 2 ∨ count = 4 →
      mmu.translate other count writing ≠ .error (.fault reason) := by
  refine ⟨read_after_write written, ?_, ?_, ?_⟩
  · intro other count proper apart
    exact read_elsewhere paged own written proper apart
  · intro reader final other combined count large read
    exact read_combination large read
  · intro mmu other count writing reason configured proper
    exact translate_ne_fault configured proper reason

/-- Pages 0 and 1 in frames 5 and 7, all bytes zero. -/
def twoFrames : Machine where
  registers := fun _ => 0#32
  mainMemory := fun _ => 0#8
  mmu := ⟨some [⟨0#32, 5#32, true, false, false, false⟩,
    ⟨1#32, 7#32, true, false, false, false⟩], none⟩

/-- The last word of page 0. -/
theorem memory_laws_last_word :
    ∃ after, twoFrames.writeMem 508#32 4 0xdeadbeef#32 = .ok ((), after) ∧
      (∃ again final, after.readMem 508#32 4 = .ok (again, final) ∧
        again.setWidth 32 = (0xdeadbeef#32).setWidth 32) ∧
      returned (after.readMem 512#32 4) = returned (twoFrames.readMem 512#32 4) := by
  have own : Mmu.OwnFrames [⟨0#32, 5#32, true, false, false, false⟩,
      ⟨1#32, 7#32, true, false, false, false⟩] :=
    ⟨by decide, by decide, by decide, by decide⟩
  obtain ⟨again, elsewhere, -⟩ := memory_laws twoFrames _ _ 508#32 0xdeadbeef#32 4 rfl own rfl
  exact ⟨_, rfl, again, elsewhere 512#32 4 (by decide) (by decide)⟩

end Machine

end Nachos
