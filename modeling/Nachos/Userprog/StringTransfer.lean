import Nachos.Machine.VirtualMemory
import Nachos.Userprog.WriteCall

/-!
# Strings through user memory

A string which `SystemToUser` has stored in an address space is found by
`UserToSystem` again, and no other byte of the user has changed.  Besides an
address space the way back takes a buffer with room for one byte more than
the limit.
-/

open Words Memory Calls Program

namespace Nachos

namespace Mmu

/-! ## Address spaces with their own frames -/

variable {virtAddr : Word} {table : List TranslationEntry}

theorem OwnFrames.length_le (own : OwnFrames table) : table.length ≤ numPhysPages := by
  have nodup : ((table.map TranslationEntry.physicalPage).map BitVec.toNat).Nodup :=
    own.distinct.map fun _ _ same => BitVec.eq_of_toNat_eq same
  have inside : ((table.map TranslationEntry.physicalPage).map
      BitVec.toNat) ⊆ List.range numPhysPages := by
    intro frame member
    obtain ⟨page, pageMember, rfl⟩ := List.mem_map.mp member
    obtain ⟨entry, entryMember, rfl⟩ := List.mem_map.mp pageMember
    exact List.mem_range.mpr (own.frames entry entryMember)
  have length := (nodup.subperm inside).length_le
  simpa using length

theorem OwnFrames.locate (own : OwnFrames table)
    (inside : virtAddr.toNat < table.length * pageSize) :
    ∃ physAddr, Mmu.locate ⟨some table, none⟩ virtAddr true =
      some physAddr := by
  have page : virtAddr.toNat / pageSize < table.length := by
    apply Nat.div_lt_of_lt_mul
    rwa [Nat.mul_comm]
  have stored := List.getElem?_eq_getElem page
  have member := List.getElem_mem page
  generalize table[virtAddr.toNat / pageSize] = entry at stored member
  have frame : entry.physicalPage.toNat < 128 := own.frames entry member
  have offset : virtAddr.toNat % 512 < 512 := Nat.mod_lt _ (by decide)
  refine ⟨entry.physicalPage.toNat * pageSize + virtAddr.toNat % pageSize, ?_⟩
  have found : find ⟨some table, none⟩ (virtAddr.toNat / pageSize) = .ok entry := by
    simp only [find, stored, own.valid entry member, if_true]
  rw [locate_iff_outcome, outcome_eq, if_neg (show ¬misaligned virtAddr 1 = true from
    Bool.false_ne_true), found, ok_bind, entryOutcome_ok_iff]
  refine ⟨by simp [own.writable entry member], frame, ?_, rfl⟩
  change entry.physicalPage.toNat * 512 + virtAddr.toNat % 512 + 1 ≤ 65536
  omega

theorem OwnFrames.toNat_add (own : OwnFrames table) {count index : Nat}
    (inside : virtAddr.toNat + count ≤ table.length * pageSize)
    (before : index < count) :
    (virtAddr + BitVec.ofNat 32 index).toNat = virtAddr.toNat + index := by
  have pages : table.length ≤ 128 := own.length_le
  change virtAddr.toNat + count ≤ table.length * 512 at inside
  rw [BitVec.toNat_add, BitVec.toNat_ofNat]
  omega

theorem OwnFrames.cells (own : OwnFrames table) {count : Nat}
    (inside : virtAddr.toNat + count ≤ table.length * pageSize) :
    ∃ place, Cells ⟨some table, none⟩ virtAddr count true place := by
  have located : ∀ index, index < count →
      Mmu.locate ⟨some table, none⟩ (virtAddr + BitVec.ofNat 32 index)
        true = some ((Mmu.locate ⟨some table, none⟩
          (virtAddr + BitVec.ofNat 32 index) true).getD 0) := by
    intro index before
    obtain ⟨physAddr, found⟩ := @OwnFrames.locate (virtAddr + BitVec.ofNat 32 index) table own (by
        rw [own.toNat_add inside before]
        omega)
    rw [found, Option.getD_some]
  refine ⟨_, located, ?_⟩
  intro index before other before' same
  have equal := own.injective (locate_iff_outcome.mp (located index before))
    (same ▸ locate_iff_outcome.mp (located other before'))
  have values := congrArg BitVec.toNat equal
  rw [own.toNat_add inside before, own.toNat_add inside before'] at values
  omega

end Mmu

namespace Kernel

variable {σ : Type}

/-- The byte which the user finds at an address. -/
def userByte (kernel : Kernel σ) (virtAddr : Word) : Option Byte :=
  (kernel.shared.mmu.locate virtAddr false).map kernel.shared.mainMemory

end Kernel

namespace Handler

/-- The string can be stored at the address and read back with the limit. -/
def StringCopies {σ : Type} (environment : Environment σ)
    (kernel : Kernel σ) (virtAddr limit : Word) (text : List Byte) : Prop :=
  ∃ stored read, (systemToUser virtAddr (BitVec.ofNat 32 (text.length + 1))
        (text ++ [0#8])).run (Kernel.answer environment) kernel =
      .ok (BitVec.ofNat 32 (text.length + 1), stored) ∧
    (∀ other : Word, other.toNat < virtAddr.toNat ∨
        virtAddr.toNat + text.length < other.toNat →
      stored.userByte other = kernel.userByte other) ∧
    (userToSystem virtAddr limit).run (Kernel.answer environment) stored =
      .ok (some (text ++ List.replicate (limit.toNat + 1 - text.length) 0#8), read)

section

variable {heap : Nat} {fresh : Nat → Byte} {unset : Byte}
  {kernel : Kernel Host} {table : List TranslationEntry}
  {virtAddr limit : Word} {text : List Byte}

/-- Without a buffer the string does not come back. -/
theorem StringCopies.honours (copies : StringCopies (deviceHost heap fresh unset) kernel virtAddr
      limit text) : Honours heap (limit + 1#32) := by
  by_contra refused
  obtain ⟨stored, read, -, -, copied⟩ := copies
  unfold userToSystem at copied
  rcases @run_newBuffer_refused heap fresh unset stored _ refused with
    failed | none
  · rw [run_bind, failed] at copied
    cases copied
  · rw [run_bind_ok none] at copied
    cases copied

theorem holds_stored {place : Nat → Nat} {mmu : Mmu} {bytes : List Byte}
    (cells : Cells kernel.shared.mmu virtAddr bytes.length true place)
    (same : mmu.mapping = kernel.shared.mmu.mapping) :
    ((kernel.withMmu mmu).withMemory (storeString place bytes 0
      kernel.shared.mainMemory)).Holds virtAddr bytes := by
  intro index inside open'
  have stored := storeString_at cells.distinct bytes 0 kernel.shared.mainMemory (by omega) inside
  rw [Nat.zero_add, if_neg open'] at stored
  exact ⟨place index, Mmu.locate_reading ((cells.congr same).located index inside), stored⟩

theorem userByte_stored {place : Nat → Nat} {mmu : Mmu} {bytes : List Byte}
    (own : Mmu.OwnFrames table)
    (space : kernel.shared.mmu = ⟨some table, none⟩)
    (cells : Cells kernel.shared.mmu virtAddr bytes.length true place)
    (same : mmu.mapping = kernel.shared.mmu.mapping) {other : Word}
    (elsewhere : ∀ index, index < bytes.length → other ≠ virtAddr + BitVec.ofNat 32 index) :
    ((kernel.withMmu mmu).withMemory (storeString place bytes 0
      kernel.shared.mainMemory)).userByte other =
      kernel.userByte other := by
  have moved : mmu.locate other false =
      kernel.shared.mmu.locate other false :=
    Mmu.locate_congr same other false
  change (mmu.locate other false).map _ = (kernel.shared.mmu.locate other false).map _
  rw [moved]
  apply Option.map_congr
  intro physAddr located
  apply storeString_frame
  intro index _ upper here
  rw [Nat.zero_add] at upper
  have found := cells.located index upper
  rw [here, space] at found
  rw [space] at located
  exact elsewhere index upper (own.injective
    (Mmu.locate_iff_outcome.mp located) (Mmu.locate_iff_outcome.mp found))

theorem limit_of_honours (positive : 0 < limit.toInt) (honours : Honours heap (limit + 1#32)) :
    limit.toInt = limit.toNat ∧ limit.toNat + 1 < 2 ^ 31 ∧
      (limit + 1#32).toNat = limit.toNat + 1 := by
  have nonneg := honours.1
  have signed := BitVec.toInt_eq_toNat_cond limit
  have signedSize := BitVec.toInt_eq_toNat_cond (limit + 1#32)
  have bound := limit.isLt
  rcases limit_cases nonneg with ⟨negative, -⟩ | ⟨-, size⟩
  · omega
  · split at signed <;> split at signedSize <;> omega

theorem run_userToSystem_text (nulFree : 0#8 ∉ text) (short : text.length < limit.toInt)
    (honours : Honours heap (limit + 1#32))
    (holds : kernel.Holds virtAddr (text ++ [0#8])) :
    ∃ mmu, (userToSystem virtAddr limit).run
        (device heap fresh unset) kernel =
      .ok (some (text ++
        List.replicate (limit.toNat + 1 - text.length) 0#8),
        kernel.withMmu mmu) := by
  obtain ⟨signed, small, size⟩ := limit_of_honours (by omega) honours
  obtain ⟨more, whole⟩ : ∃ more, limit.toNat = text.length + 1 + more :=
    ⟨limit.toNat - text.length - 1, by omega⟩
  have held := Holds.append holds (List.mem_append_right text (List.mem_singleton_self 0#8))
    (List.replicate more 0#8)
  have length : (text ++ [0#8] ++ List.replicate more 0#8).length =
      limit.toNat := by
    simp only [List.length_append, List.length_singleton, List.length_replicate, whole]
  have block : ((List.range (limit + 1#32).toNat).map fresh).length =
      (text ++ [0#8] ++ List.replicate more 0#8).length + 1 := by
    rw [List.length_map, List.length_range, size, length]
  obtain ⟨mmu, -, read⟩ := run_userToSystem_of_block length.symm
    (by rw [length]; exact small) held block
    (run_newBuffer_honoured honours)
  refine ⟨mmu, ?_⟩
  have rest : limit.toNat + 1 - text.length = more + 1 + 1 := by omega
  rw [read, List.append_assoc, List.singleton_append,
    cut_append_nul nulFree, List.length_replicate, rest,
    List.replicate_succ' (n := more + 1), List.append_assoc]

/-- With a buffer it does, from an address space with its own frames. -/
theorem stringCopies_of_honours (own : Mmu.OwnFrames table)
    (space : kernel.shared.mmu = ⟨some table, none⟩)
    (nulFree : 0#8 ∉ text) (short : text.length < limit.toInt)
    (inside : virtAddr.toNat + text.length < table.length * pageSize)
    (honours : Honours heap (limit + 1#32)) :
    StringCopies (deviceHost heap fresh unset) kernel virtAddr limit
      text := by
  obtain ⟨signed, small, -⟩ := limit_of_honours (by omega) honours
  have length : (text ++ [0#8]).length = text.length + 1 := by simp
  have fits : virtAddr.toNat + (text ++ [0#8]).length ≤ table.length * pageSize := by omega
  obtain ⟨place, cells⟩ := own.cells fits
  rw [← space] at cells
  have count : (BitVec.ofNat 32 (text.length + 1)).toNat = (text ++ [0#8]).length := by
    rw [BitVec.toNat_ofNat]
    omega
  obtain ⟨mmu, same, stored⟩ := @run_systemToUser _
    (deviceHost heap fresh unset) kernel virtAddr _ place (text ++ [0#8]) []
    count (by simp) (by omega) cells.located
  rw [List.append_nil, storedCount_nulFree nulFree] at stored
  obtain ⟨mmu', read⟩ := @run_userToSystem_text heap fresh unset _ virtAddr
    limit text nulFree short honours (holds_stored cells same)
  refine ⟨_, _, stored, ?_, read⟩
  intro other outside
  apply userByte_stored own space cells same
  rintro index upper rfl
  rw [own.toNat_add fits upper] at outside
  omega

/-- What the kernel stores for the user as a string comes back exactly when
the host has a buffer of `limit + 1` bytes, which is negative for the largest
limit. -/
theorem stringCopies_iff (heap : Nat) (fresh : Nat → Byte) (unset : Byte)
    (kernel : Kernel Host) (table : List TranslationEntry)
    (virtAddr limit : Word) (text : List Byte) (own : Mmu.OwnFrames table)
    (space : kernel.shared.mmu = ⟨some table, none⟩)
    (nulFree : 0#8 ∉ text) (short : text.length < limit.toInt)
    (inside : virtAddr.toNat + text.length < table.length * pageSize) :
    StringCopies (deviceHost heap fresh unset) kernel virtAddr limit text ↔
      Honours heap (limit + 1#32) :=
  ⟨StringCopies.honours, stringCopies_of_honours own space nulFree short inside⟩

end

theorem ownFrames_twoPages : Mmu.OwnFrames twoPages where
  valid := by decide
  writable := by decide
  frames := by decide
  distinct := by decide

/-- Five bytes, of which two are at the end of the first page. -/
theorem stringCopies_iff_across_pages : StringCopies (deviceHost 100 (fun _ => 0#8) 0#8)
      ((requesting [] 0#32 0#32 0#32 0#32).withMmu ⟨some twoPages, none⟩) 510#32 32#32
      [104#8, 101#8, 108#8, 108#8, 111#8] :=
  (stringCopies_iff 100 (fun _ => 0#8) 0#8 _ twoPages 510#32 32#32 _
    ownFrames_twoPages rfl (by decide) (by decide) (by decide)).mpr
    (by decide)

/-- The empty string does not come back with the largest limit. -/
theorem largest_limit_refused : ¬StringCopies (deviceHost (2 ^ 32) (fun _ => 0#8) 0#8)
      (requesting [] 0#32 0#32 0#32 0#32) 0#32 0x7fffffff#32 [] := by
  intro copies
  have honours := copies.honours
  revert honours
  decide

end Handler

end Nachos
