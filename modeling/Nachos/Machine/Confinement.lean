import Nachos.Machine.MipsSim

/-!
# What a program on the machine can touch

Translation never leaves the frames which valid entries map to, and only
changes use and dirty bits.  So every program over the operations of the
machine writes only to those frames, and what it does depends only on the
registers, the translation tables and the contents of those frames.
-/

open Words Memory Calls

namespace Nachos

/-- The frame a valid entry maps to. -/
def TranslationEntry.target (entry : TranslationEntry) : Option Nat :=
  if entry.valid then some entry.physicalPage.toNat else none

namespace Mmu

/-- What the entries map to, without the bits which translation changes. -/
def targets (mmu : Mmu) : List (Option Nat) :=
  (mmu.pageTable.getD []).map TranslationEntry.target ++ match mmu.tlb with
    | some tlb => (List.finRange tlbSize).map fun index => (tlb index).target
    | none => []

def frames (mmu : Mmu) : Set Nat := { frame | some frame ∈ mmu.targets }

theorem frames_congr {left right : Mmu}
    (same : left.targets = right.targets) : left.frames = right.frames := by
  unfold frames
  rw [same]

variable {physAddr size : Nat} {writing : Bool}

theorem translateEntry_inv {entry changed : TranslationEntry} {offset : Nat}
    (success : translateEntry entry offset size writing = .ok (physAddr, changed)) :
    changed =
        { entry with use := true, dirty := entry.dirty || writing } ∧
      physAddr = entry.physicalPage.toNat * 512 + offset := by
  unfold translateEntry at success
  split at success
  · cases success
  · simp only at success
    split at success
    · cases success
    · split at success
      · cases success
        exact ⟨rfl, rfl⟩
      · cases success

theorem map_set_eq {α β : Type} (table : List α) (f : α → β)
    {index : Nat} {old new : α} (stored : table[index]? = some old)
    (same : f new = f old) :
    (table.set index new).map f = table.map f := by
  rw [List.map_set, same]
  apply List.ext_getElem?
  intro position
  rw [List.getElem?_set]
  split
  · rename_i here
    subst here
    obtain ⟨inside, value⟩ := List.getElem?_eq_some_iff.mp stored
    simp [inside, value]
  · rfl

variable {virtAddr : Word}

/-- A successful translation leads into a mapped frame at the offset of the
virtual address, and maps nothing anew. -/
theorem translate_inv {mmu changed : Mmu}
    (success : mmu.translate virtAddr size writing = .ok (physAddr, changed)) :
    misaligned virtAddr size = false ∧ changed.targets = mmu.targets ∧
      (mmu.tlb = none → changed.tlb = none) ∧
      ∃ frame ∈ mmu.frames, physAddr = frame * 512 + virtAddr.toNat % 512 := by
  unfold translate at success
  split at success
  · cases success
  · rename_i aligned
    refine ⟨by simpa using aligned, ?_⟩
    cases table : mmu.pageTable with
    | some entries =>
      cases buffer : mmu.tlb with
      | some tlb =>
        simp only [table, buffer] at success
        cases success
      | none =>
        simp only [table, buffer] at success
        cases stored : entries[virtAddr.toNat / pageSize]? with
        | none =>
          simp only [stored] at success
          cases success
        | some entry =>
          simp only [stored] at success
          split at success
          · cases success
          · rename_i valid
            have isValid : entry.valid = true := by simpa using valid
            obtain ⟨⟨address, entry'⟩, checked, success⟩ :=
              bind_ok_inv success
            cases success
            obtain ⟨rfl, place⟩ := translateEntry_inv checked
            refine ⟨?_, id, entry.physicalPage.toNat, ?_, place⟩
            · simp only [targets, table, buffer, Option.getD_some, List.append_nil]
              exact map_set_eq entries _ stored rfl
            · have member := List.mem_of_getElem? stored
              simp only [frames, targets, table, buffer,
                Option.getD_some, List.append_nil, Set.mem_ofPred_eq,
                List.mem_map]
              exact ⟨entry, member, by
                simp [TranslationEntry.target, isValid]⟩
    | none =>
      cases buffer : mmu.tlb with
      | none =>
        simp only [table, buffer] at success
        cases success
      | some tlb =>
        simp only [table, buffer] at success
        cases found : tlbIndex tlb (virtAddr.toNat / pageSize) with
        | none =>
          simp only [found] at success
          cases success
        | some index =>
          simp only [found] at success
          have valid : (tlb index).valid = true := by
            have chosen := List.find?_some found
            simp only [Bool.and_eq_true] at chosen
            exact chosen.1
          obtain ⟨⟨address, entry'⟩, checked, success⟩ :=
            bind_ok_inv success
          cases success
          obtain ⟨rfl, place⟩ := translateEntry_inv checked
          refine ⟨?_, nofun, (tlb index).physicalPage.toNat, ?_, place⟩
          · simp only [targets, table, buffer, Option.getD_none, List.map_nil, List.nil_append]
            apply List.map_congr_left
            intro other _
            by_cases here : other = index
            · subst other
              simp [TranslationEntry.target]
            · simp [here]
          · simp only [frames, targets, table, buffer,
              Option.getD_none, List.map_nil, List.nil_append,
              Set.mem_ofPred_eq, List.mem_map]
            exact ⟨index, List.mem_finRange index, by
              simp [TranslationEntry.target, valid]⟩

theorem mod_of_aligned (aligned : misaligned virtAddr size = false) :
    (size = 4 → virtAddr.toNat % 4 = 0) ∧ (size = 2 → virtAddr.toNat % 2 = 0) := by
  unfold misaligned at aligned
  simp only [Bool.or_eq_false_iff, Bool.and_eq_false_iff, beq_eq_false_iff_ne,
    bne_eq_false_iff_eq] at aligned
  constructor
  · intro word
    have masked := aligned.1.resolve_left (fun other => other word)
    have value := congrArg BitVec.toNat masked
    rw [BitVec.toNat_and] at value
    have remainder := Nat.and_two_pow_sub_one_eq_mod virtAddr.toNat 2
    simpa using remainder.symm.trans value
  · intro half
    have masked := aligned.2.resolve_left (fun other => other half)
    have value := congrArg BitVec.toNat masked
    rw [BitVec.toNat_and] at value
    have remainder := Nat.and_two_pow_sub_one_eq_mod virtAddr.toNat 1
    simpa using remainder.symm.trans value

/-- Every byte of an access of a proper size lies in a mapped frame. -/
theorem translate_inside {mmu changed : Mmu}
    (success : mmu.translate virtAddr size writing = .ok (physAddr, changed))
    (proper : size = 1 ∨ size = 2 ∨ size = 4) {index : Nat}
    (inside : index < size) : (physAddr + index) / 512 ∈ mmu.frames := by
  obtain ⟨aligned, -, -, frame, mapped, rfl⟩ := translate_inv success
  obtain ⟨word, half⟩ := mod_of_aligned aligned
  have same : (frame * 512 + virtAddr.toNat % 512 + index) / 512 =
      frame := by
    rcases proper with rfl | rfl | rfl
    · omega
    · have even := half rfl
      omega
    · have quarter := word rfl
      omega
  rw [same]
  exact mapped

end Mmu

namespace Machine

/-- What one run of a program may change: it writes to mapped frames, and
the mapping stays. -/
structure Confined (before after : Machine) : Prop where
  targets : after.mmu.targets = before.mmu.targets
  tlb : before.mmu.tlb = none → after.mmu.tlb = none
  memory : ∀ address, address / 512 ∉ before.mmu.frames →
    after.mainMemory address = before.mainMemory address

/-- Two machines which look the same to a program. -/
structure Alike (left right : Machine) : Prop where
  registers : left.registers = right.registers
  mmu : left.mmu = right.mmu
  memory : ∀ address, address / 512 ∈ left.mmu.frames →
    left.mainMemory address = right.mainMemory address

theorem Confined.refl (machine : Machine) : Confined machine machine :=
  ⟨rfl, id, fun _ _ => rfl⟩

theorem Confined.trans {first second third : Machine}
    (before : Confined first second) (after : Confined second third) :
    Confined first third := by
  refine ⟨after.targets.trans before.targets, fun absent => after.tlb (before.tlb absent), ?_⟩
  intro address outside
  have frames := Mmu.frames_congr before.targets
  rw [after.memory address (by rw [frames]; exact outside), before.memory address outside]

variable {after machine : Machine}

theorem delayedLoad_inv {nextReg nextValue : Word}
    (success : machine.delayedLoad nextReg nextValue = .ok after) :
    after.mainMemory = machine.mainMemory ∧ after.mmu = machine.mmu := by
  obtain ⟨written, indexed, success⟩ := bind_ok_inv success
  cases success
  unfold writeIndexed at indexed
  split at indexed
  · cases indexed
    exact ⟨rfl, rfl⟩
  · cases indexed

variable {size : Nat}

theorem translate_ok_inv {addr : Word} {physicalAddress : Nat} {writing : Bool}
    (success : machine.translate addr size writing = .ok (physicalAddress, after)) :
    ∃ mmu, machine.mmu.translate addr size writing =
        .ok (physicalAddress, mmu) ∧
      after = { machine with mmu := mmu } := by
  unfold translate at success
  split at success
  · rename_i translated
    cases success
    exact ⟨_, translated, rfl⟩
  · cases success
  · cases success

variable {value : Word}

theorem readMem_inv {addr : Word} (success : machine.readMem addr size = .ok (value, after)) :
    ∃ physicalAddress mmu,
      machine.mmu.translate addr size false = .ok (physicalAddress, mmu) ∧
      load machine.mainMemory physicalAddress size = some value ∧
      after = { machine with mmu := mmu } := by
  obtain ⟨⟨physicalAddress, middle⟩, translated, success⟩ :=
    bind_ok_inv success
  obtain ⟨mmu, found, rfl⟩ := translate_ok_inv translated
  simp only at success
  split at success
  · rename_i loaded
    cases success
    exact ⟨physicalAddress, mmu, found, loaded, rfl⟩
  · cases success

theorem writeMem_inv {addr : Word} {done : Unit}
    (success : machine.writeMem addr size value = .ok (done, after)) :
    ∃ physicalAddress mmu bytes,
      machine.mmu.translate addr size true = .ok (physicalAddress, mmu) ∧
      storedBytes value size = some bytes ∧
      after = { machine with
        mmu := mmu
        mainMemory := splice machine.mainMemory physicalAddress bytes } := by
  obtain ⟨⟨physicalAddress, middle⟩, translated, success⟩ :=
    bind_ok_inv success
  obtain ⟨mmu, found, rfl⟩ := translate_ok_inv translated
  simp only at success
  split at success
  · rename_i bytes
    cases success
    exact ⟨physicalAddress, mmu, _, found, bytes, rfl⟩
  · cases success

theorem storedBytes_length {bytes : List Byte} (stored : storedBytes value size = some bytes) :
    bytes.length = size ∧ (size = 1 ∨ size = 2 ∨ size = 4) := by
  unfold storedBytes at stored
  split at stored <;> cases stored <;> simp

theorem answer_confined (call : MachineCall) (machine : Machine)
    (reply : call.Reply) (after : Machine)
    (success : answer call machine = .ok (reply, after)) :
    Confined machine after := by
  cases call with
  | readRegister num =>
    cases success
    exact .refl machine
  | writeRegister num value =>
    cases success
    exact ⟨rfl, id, fun _ _ => rfl⟩
  | readMem addr size =>
    obtain ⟨physicalAddress, mmu, found, -, rfl⟩ := readMem_inv success
    obtain ⟨-, targets, tlb, -⟩ := Mmu.translate_inv found
    exact ⟨targets, tlb, fun _ _ => rfl⟩
  | writeMem addr size value =>
    obtain ⟨physicalAddress, mmu, bytes, found, stored, rfl⟩ :=
      writeMem_inv success
    obtain ⟨-, targets, tlb, -⟩ := Mmu.translate_inv found
    obtain ⟨length, proper⟩ := storedBytes_length stored
    refine ⟨targets, tlb, ?_⟩
    intro address outside
    apply splice_outside
    by_contra inside
    have reached := Mmu.translate_inside found proper (by omega : address - physicalAddress < size)
    have sum : physicalAddress + (address - physicalAddress) = address := by
      omega
    rw [sum] at reached
    exact outside reached
  | delayedLoad nextReg nextValue =>
    simp only [answer] at success
    split at success
    · rename_i loaded
      cases success
      obtain ⟨memory, mmu⟩ := delayedLoad_inv loaded
      exact ⟨by rw [mmu], by rw [mmu]; exact id, fun _ _ => by rw [memory]⟩
    · cases success
  | raise which badVAddr | fail reason => cases success

theorem run_confined {α : Type} (program : MachineProgram α) {value : α}
    (success : program.run answer machine = .ok (value, after)) :
    Confined machine after :=
  Program.run_preserves Confined.refl (fun _ _ _ => Confined.trans) answer_confined program success

theorem load_congr {left right : Nat → Byte} {address : Nat}
    (agree : (size = 1 ∨ size = 2 ∨ size = 4) → ∀ index, index < size →
      left (address + index) = right (address + index)) :
    load left address size = load right address size := by
  unfold load
  split
  · have first := agree (.inl rfl) 0 (by omega)
    rw [Nat.add_zero] at first
    rw [first]
  · have bytes := agree (.inr (.inl rfl))
    have first := bytes 0 (by omega)
    rw [Nat.add_zero] at first
    rw [first, bytes 1 (by omega)]
  · have bytes := agree (.inr (.inr rfl))
    have first := bytes 0 (by omega)
    rw [Nat.add_zero] at first
    unfold wordAt
    rw [first, bytes 1 (by omega), bytes 2 (by omega), bytes 3 (by omega)]
  · rfl

theorem answer_alike (call : MachineCall) (left right : Machine) (alike : Alike left right) :
    Program.Matched Alike (answer call left) (answer call right) := by
  obtain ⟨registers, leftMemory, mmu⟩ := left
  obtain ⟨registers', rightMemory, mmu'⟩ := right
  obtain ⟨sameRegisters, sameMmu, memory⟩ := alike
  simp only at sameRegisters sameMmu memory
  subst sameRegisters sameMmu
  cases call with
  | readRegister num | writeRegister num value => exact ⟨rfl, rfl, rfl, memory⟩
  | readMem addr size =>
    simp only [answer, readMem, translate]
    cases found : mmu.translate addr size false with
    | error refusal =>
      cases refusal with
      | exception which | fault reason => trivial
    | ok result =>
      obtain ⟨physicalAddress, mmu'⟩ := result
      have frames := Mmu.frames_congr (Mmu.translate_inv found).2.1
      have same : load leftMemory physicalAddress size =
          load rightMemory physicalAddress size := by
        apply load_congr
        intro proper index inside
        exact memory _ (Mmu.translate_inside found proper inside)
      simp only [ok_bind, same]
      cases load rightMemory physicalAddress size with
      | none => trivial
      | some value =>
        refine ⟨rfl, rfl, rfl, ?_⟩
        simp only [frames]
        exact memory
  | writeMem addr size value =>
    simp only [answer, writeMem, translate]
    cases found : mmu.translate addr size true with
    | error refusal =>
      cases refusal with
      | exception which | fault reason => trivial
    | ok result =>
      obtain ⟨physicalAddress, mmu'⟩ := result
      have frames := Mmu.frames_congr (Mmu.translate_inv found).2.1
      simp only [ok_bind]
      cases storedBytes value size with
      | none => trivial
      | some bytes =>
        refine ⟨rfl, rfl, rfl, ?_⟩
        simp only [frames]
        intro address inside
        unfold splice
        rw [memory address inside]
  | delayedLoad nextReg nextValue =>
    simp only [answer, delayedLoad, writeIndexed]
    by_cases inside : (registers Register.loadReg).toNat < numTotalRegs
    · simp only [inside, dite_true, ok_bind]
      exact ⟨rfl, rfl, rfl, memory⟩
    · simp only [inside, dite_false]
      trivial
  | raise which badVAddr | fail reason => trivial

theorem run_alike {α : Type} (program : MachineProgram α)
    {left right : Machine} (alike : Alike left right) :
    Program.Matched Alike (program.run answer left) (program.run answer right) :=
  Program.run_matched answer_alike program alike

end Machine

end Nachos
