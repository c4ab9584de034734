import Nachos.Machine.UserBytes
import Nachos.Userprog.Exception

/-!
# Copies between the kernel and user memory

`UserToSystem` and `SystemToUser` are made for C strings: both stop after
the first NUL.  The rest of a kernel buffer then holds NULs, and the rest of
a user buffer what it held before.
-/

open Words Memory Calls Program Function

namespace Nachos

/-! ## Strings in buffers -/

/-- A NUL stands before the position. -/
def Ended (bytes : List Byte) (position : Nat) : Prop :=
  ∃ earlier, earlier < position ∧ bytes.getD earlier 0#8 = 0#8

instance (bytes : List Byte) (position : Nat) : Decidable (Ended bytes position) :=
  inferInstanceAs (Decidable (∃ earlier, earlier < position ∧ _))

theorem not_ended_zero (bytes : List Byte) : ¬Ended bytes 0 := by
  rintro ⟨earlier, before, -⟩
  exact absurd before (Nat.not_lt_zero _)

theorem ended_cons_succ (first : Byte) (rest : List Byte) (position : Nat) :
    Ended (first :: rest) (position + 1) ↔ first = 0#8 ∨ Ended rest position := by
  constructor
  · rintro ⟨earlier, before, zero⟩
    cases earlier with
    | zero => exact .inl zero
    | succ earlier =>
      exact .inr ⟨earlier, Nat.lt_of_succ_lt_succ before, zero⟩
  · rintro (zero | ⟨earlier, before, zero⟩)
    · exact ⟨0, Nat.succ_pos _, zero⟩
    · exact ⟨earlier + 1, Nat.succ_lt_succ before, zero⟩

/-- The bytes up to the first NUL, and only NULs from there on. -/
def cut : List Byte → List Byte
  | [] => []
  | first :: rest =>
    if first = 0#8 then List.replicate (rest.length + 1) 0#8
    else first :: cut rest

@[simp] theorem cut_length (bytes : List Byte) :
    (cut bytes).length = bytes.length := by
  induction bytes with
  | nil => rfl
  | cons first rest induction =>
    unfold cut
    split <;> simp [induction]

theorem cut_getD (bytes : List Byte) (position : Nat) :
    (cut bytes).getD position 0#8 =
      if Ended bytes position then 0#8 else bytes.getD position 0#8 := by
  induction bytes generalizing position with
  | nil => simp [cut]
  | cons first rest induction =>
    unfold cut
    cases position with
    | zero =>
      rw [if_neg (not_ended_zero _)]
      split
      · rename_i zero
        rw [zero]
        rfl
      · rfl
    | succ position =>
      simp only [ended_cons_succ]
      split
      · rename_i zero
        rw [if_pos (.inl zero), List.getD_eq_getElem?_getD, List.getElem?_getD_replicate_default_eq]
      · rename_i nonzero
        simp only [nonzero, false_or, List.getD_cons_succ, induction]

/-- The string in a buffer ends where the string it was cut from does. -/
theorem ended_cut (bytes : List Byte) (position : Nat) :
    Ended (cut bytes) position ↔ Ended bytes position := by
  constructor
  · rintro ⟨earlier, before, zero⟩
    rw [cut_getD] at zero
    split at zero
    · rename_i ended
      obtain ⟨first, sooner, zero⟩ := ended
      exact ⟨first, sooner.trans before, zero⟩
    · exact ⟨earlier, before, zero⟩
  · rintro ⟨earlier, before, zero⟩
    refine ⟨earlier, before, ?_⟩
    rw [cut_getD, zero, ite_self]

theorem eq_iff_getD {left right : List Byte} (length : left.length = right.length) :
    left = right ↔ ∀ index, index < right.length → left.getD index 0#8 = right.getD index 0#8 := by
  constructor
  · rintro rfl _ _
    rfl
  · intro agree
    apply List.ext_getElem length
    intro index inside inside'
    have same := agree index inside'
    rwa [List.getD_eq_getElem _ _ inside, List.getD_eq_getElem _ _ inside'] at same

/-- A byte string survives the way through a buffer if nothing but NULs
follows its first NUL. -/
theorem cut_eq_iff (bytes : List Byte) :
    cut bytes = bytes ↔ ∀ index, index < bytes.length →
      Ended bytes index → bytes.getD index 0#8 = 0#8 := by
  rw [eq_iff_getD (cut_length bytes)]
  refine forall_congr' fun index => forall_congr' fun _ => ?_
  rw [cut_getD]
  split
  · rename_i ended
    exact ⟨fun same _ => same.symm, fun zero => (zero ended).symm⟩
  · rename_i open'
    exact ⟨fun _ ended => absurd ended open', fun _ => rfl⟩

theorem cut_of_nulFree {bytes : List Byte} (nulFree : 0#8 ∉ bytes) : cut bytes = bytes := by
  induction bytes with
  | nil => rfl
  | cons first rest induction =>
    rw [List.mem_cons, not_or] at nulFree
    rw [cut, if_neg (Ne.symm nulFree.1), induction nulFree.2]

theorem cut_append_nul {text : List Byte} (nulFree : 0#8 ∉ text) (rest : List Byte) :
    cut (text ++ 0#8 :: rest) = text ++ List.replicate (rest.length + 1) 0#8 := by
  induction text with
  | nil => rfl
  | cons first text induction =>
    rw [List.mem_cons, not_or] at nulFree
    rw [List.cons_append, cut, if_neg (Ne.symm nulFree.1), induction nulFree.2, List.cons_append]

theorem cut_take (bytes : List Byte) (count : Nat) :
    cut (bytes.take count) = (cut bytes).take count := by
  induction bytes generalizing count with
  | nil => simp [cut]
  | cons first rest induction =>
    cases count with
    | zero => rfl
    | succ count =>
      rw [List.take_succ_cons, cut, cut]
      split
      · rw [List.take_replicate, List.length_take]
        congr 1
        omega
      · rw [List.take_succ_cons, induction]

/-! ## Reading -/

namespace Kernel

variable {σ : Type}

def withMmu (kernel : Kernel σ) (mmu : Mmu) : Kernel σ :=
  { kernel with shared := { kernel.shared with mmu := mmu } }

def withMemory (kernel : Kernel σ) (memory : Nat → Byte) : Kernel σ :=
  { kernel with shared := { kernel.shared with mainMemory := memory } }

/-- The bytes up to the first NUL are at the address. -/
def Holds (kernel : Kernel σ) (virtAddr : Word) (bytes : List Byte) :
    Prop :=
  ∀ index, index < bytes.length → ¬Ended bytes index → ∃ physAddr, kernel.shared.mmu.locate
        (virtAddr + BitVec.ofNat 32 index) false = some physAddr ∧
      kernel.shared.mainMemory physAddr = bytes.getD index 0#8

theorem run_readMem {environment : Environment σ} {kernel : Kernel σ} {addr : Word} {physAddr : Nat}
    (located : kernel.shared.mmu.locate addr false = some physAddr) :
    ∃ mmu, mmu.mapping = kernel.shared.mmu.mapping ∧
      (Handler.readMem addr 1).run (answer environment) kernel =
        .ok ((kernel.shared.mainMemory physAddr).signExtend 32, kernel.withMmu mmu) := by
  obtain ⟨mmu, read, same⟩ :=
    @Machine.readMem_byte kernel.machine addr physAddr located
  refine ⟨mmu, same, (run_perform _ _).trans ?_⟩
  change kernel.access (kernel.machine.readMem addr 1) = _
  rw [read]
  rfl

theorem run_writeMem {environment : Environment σ} {kernel : Kernel σ}
    {addr : Word} {physAddr : Nat}
    (located : kernel.shared.mmu.locate addr true = some physAddr)
    (value : Byte) :
    ∃ mmu, mmu.mapping = kernel.shared.mmu.mapping ∧
      (Handler.writeMem addr 1 (value.signExtend 32)).run
          (answer environment) kernel =
        .ok ((), (kernel.withMmu mmu).withMemory
          (update kernel.shared.mainMemory physAddr value)) := by
  obtain ⟨mmu, written, same⟩ :=
    @Machine.writeMem_byte kernel.machine addr physAddr located value
  refine ⟨mmu, same, (run_perform _ _).trans ?_⟩
  change kernel.access (kernel.machine.writeMem addr 1 _) = _
  rw [written]
  rfl

end Kernel

namespace Handler

variable {σ : Type} {environment : Environment σ} {kernel : Kernel σ}

theorem run_setChar {buffer : List Byte} {index : Nat}
    (inside : index < buffer.length) (character : Byte) :
    (setChar buffer index character).run (Kernel.answer environment)
      kernel = .ok (buffer.set index character, kernel) := by
  unfold setChar
  rw [if_pos inside]
  rfl

theorem signExtend_eq_zero_iff (byte : Byte) : byte.signExtend 32 = 0#32 ↔ byte = 0#8 := by
  revert byte
  decide

theorem setWidth_signExtend (byte : Byte) : (byte.signExtend 32).setWidth 8 = byte := by
  revert byte
  decide

variable {virtAddr : Word}

theorem Holds.tail {first : Byte} {rest : List Byte}
    (holds : kernel.Holds virtAddr (first :: rest)) (nonzero : first ≠ 0#8) :
    kernel.Holds (virtAddr + 1#32) rest := by
  intro index inside open'
  have next := holds (index + 1) (Nat.succ_lt_succ inside) (by
    rw [ended_cons_succ]
    rintro (zero | ended)
    · exact nonzero zero
    · exact open' ended)
  rw [List.getD_cons_succ, BitVec.ofNat_add, BitVec.add_comm _ (1#32), ← BitVec.add_assoc] at next
  exact next

theorem holds_cons {physAddr : Nat} {rest : List Byte}
    (located : kernel.shared.mmu.locate virtAddr false = some physAddr)
    (later : kernel.shared.mainMemory physAddr ≠ 0#8 → kernel.Holds (virtAddr + 1#32) rest) :
    kernel.Holds virtAddr (kernel.shared.mainMemory physAddr :: rest) := by
  intro index inside open'
  cases index with
  | zero => exact ⟨physAddr, by rw [BitVec.add_zero]; exact located, rfl⟩
  | succ index =>
    rw [ended_cons_succ, not_or] at open'
    have next := later open'.1 index (Nat.lt_of_succ_lt_succ inside) open'.2
    rw [List.getD_cons_succ, BitVec.ofNat_add,
      BitVec.add_comm _ (BitVec.ofNat 32 1), ← BitVec.add_assoc]
    exact next

theorem Holds.head {first : Byte} {rest : List Byte}
    (holds : kernel.Holds virtAddr (first :: rest)) :
    ∃ physAddr,
      kernel.shared.mmu.locate virtAddr false = some physAddr ∧
      kernel.shared.mainMemory physAddr = first := by
  obtain ⟨physAddr, located, stored⟩ :=
    holds 0 (Nat.succ_pos _) (not_ended_zero _)
  rw [BitVec.add_zero] at located
  exact ⟨physAddr, located, stored⟩

variable {bytes : List Byte}

section

variable (holds : kernel.Holds virtAddr bytes)
include holds

theorem Holds.cut_unique {other : List Byte} (holds' : kernel.Holds virtAddr other)
    (length : bytes.length = other.length) : cut bytes = cut other := by
  induction bytes generalizing virtAddr other with
  | nil =>
    cases other with
    | nil => rfl
    | cons first rest => cases length
  | cons first rest induction =>
    cases other with
    | nil => cases length
    | cons first' rest' =>
      obtain ⟨physAddr, located, stored⟩ := Holds.head holds
      obtain ⟨physAddr', located', stored'⟩ := Holds.head holds'
      rw [located] at located'
      cases located'
      rw [stored] at stored'
      subst stored'
      rw [List.length_cons, List.length_cons, Nat.succ_inj] at length
      rw [cut, cut]
      by_cases zero : first = 0#8
      · rw [if_pos zero, if_pos zero, length]
      · rw [if_neg zero, if_neg zero, induction (Holds.tail holds zero)
          (Holds.tail holds' zero) length]

theorem Holds.take (count : Nat) : kernel.Holds virtAddr (bytes.take count) := by
  induction bytes generalizing virtAddr count with
  | nil => rwa [List.take_nil]
  | cons first rest induction =>
    cases count with
    | zero =>
      intro index inside
      cases inside
    | succ count =>
      obtain ⟨physAddr, located, rfl⟩ := Holds.head holds
      rw [List.take_succ_cons]
      exact holds_cons located fun nonzero =>
        induction (Holds.tail holds nonzero) count

/-- Behind a NUL memory does not matter. -/
theorem Holds.append (ended : 0#8 ∈ bytes) (more : List Byte) :
    kernel.Holds virtAddr (bytes ++ more) := by
  induction bytes generalizing virtAddr with
  | nil => cases ended
  | cons first rest induction =>
    obtain ⟨physAddr, located, rfl⟩ := Holds.head holds
    rw [List.cons_append]
    refine holds_cons located fun nonzero =>
      induction (Holds.tail holds nonzero) ?_
    rcases List.mem_cons.mp ended with same | member
    · exact absurd same.symm nonzero
    · exact member

theorem Holds.withMmu {mmu : Mmu} (same : mmu.mapping = kernel.shared.mmu.mapping) :
    (kernel.withMmu mmu).Holds virtAddr bytes := by
  intro index inside open'
  obtain ⟨physAddr, located, stored⟩ := holds index inside open'
  exact ⟨physAddr, (Mmu.locate_congr same _ _).trans located, stored⟩

end

theorem run_readChars (rest before : List Byte)
    (holds : kernel.Holds (virtAddr + BitVec.ofNat 32 before.length) rest) :
    ∃ mmu, mmu.mapping = kernel.shared.mmu.mapping ∧ (readChars virtAddr rest.length before.length
        (before ++ List.replicate (rest.length + 1) 0#8)).run
          (Kernel.answer environment) kernel =
        .ok (before ++ cut rest ++ [0#8], kernel.withMmu mmu) := by
  induction rest generalizing before kernel with
  | nil =>
    refine ⟨kernel.shared.mmu, rfl, ?_⟩
    simp only [List.length_nil, readChars, cut, List.append_nil]
    rfl
  | cons first rest induction =>
    obtain ⟨physAddr, located, stored⟩ :=
      holds 0 (Nat.succ_pos _) (not_ended_zero _)
    rw [BitVec.add_zero] at located
    obtain ⟨mmu, same, read⟩ :=
      @Kernel.run_readMem _ environment _ _ _ located
    have inside : before.length < (before ++ List.replicate (rest.length + 1 + 1) 0#8).length := by
      simp
    have filled : (before ++ List.replicate (rest.length + 1 + 1) 0#8).set
          before.length first =
        (before ++ [first]) ++ List.replicate (rest.length + 1) 0#8 := by
      simp [List.replicate_succ]
    rw [stored, List.getD_cons_zero] at read
    rw [List.length_cons, readChars, run_bind_ok read,
      setWidth_signExtend, run_bind_ok (run_setChar inside first), filled]
    simp only [signExtend_eq_zero_iff]
    by_cases zero : first = 0#8
    · refine ⟨mmu, same, ?_⟩
      rw [if_pos zero, zero, cut, if_pos rfl, run_pure]
      simp [← List.replicate_succ, ← List.replicate_succ']
    · obtain ⟨mmu', same', copied⟩ := @induction (kernel.withMmu mmu) (before ++ [first]) (by
          rw [List.length_append, List.length_singleton, BitVec.ofNat_add, ← BitVec.add_assoc]
          exact Holds.withMmu (Holds.tail holds zero) same)
      refine ⟨mmu', same'.trans same, ?_⟩
      rw [if_neg zero]
      rw [List.length_append, List.length_singleton] at copied
      rw [copied, cut, if_neg zero]
      simp only [List.append_assoc, List.cons_append, List.nil_append]
      rfl

theorem run_host (call : HostCall) :
    (host call).run (Kernel.answer environment) kernel = match environment call kernel.shared with
      | .ok (reply, shared) => .ok (reply, { kernel with shared := shared })
      | .error reason => .error reason :=
  run_perform _ _

/-- The host has memory for a buffer. -/
def Allocates (environment : Environment σ) : Prop :=
  ∀ size shared, ∃ contents, environment (.newChars size) shared = .ok (some contents, shared)

theorem run_newBuffer (allocates : Allocates environment) {size : Word}
    (nonnegative : 0 ≤ size.toInt) :
    ∃ block, block.length = size.toNat ∧
      (newBuffer size).run (Kernel.answer environment) kernel = .ok (some block, kernel) := by
  obtain ⟨contents, fresh⟩ := allocates size.toNat kernel.shared
  refine ⟨(List.range size.toNat).map contents, by simp, ?_⟩
  have made : (host (.newChars size.toNat)).run (Kernel.answer environment)
      kernel = .ok (some contents, kernel) := by
    rw [run_host, fresh]
  unfold newBuffer
  rw [if_neg (not_lt.mpr nonnegative), run_bind_ok made]
  rfl

/-- `UserToSystem` gives the string at the address, in a buffer with one
NUL more. -/
theorem run_userToSystem_of_block {limit : Word} {block : List Byte}
    (count : limit.toNat = bytes.length) (small : bytes.length + 1 < 2 ^ 31)
    (holds : kernel.Holds virtAddr bytes)
    (length : block.length = bytes.length + 1)
    (made : (newBuffer (limit + 1#32)).run (Kernel.answer environment)
      kernel = .ok (some block, kernel)) :
    ∃ mmu, mmu.mapping = kernel.shared.mmu.mapping ∧
      (userToSystem virtAddr limit).run (Kernel.answer environment) kernel =
        .ok (some (cut bytes ++ [0#8]), kernel.withMmu mmu) := by
  have rounds : limit.toInt.toNat = bytes.length := by
    rw [BitVec.toInt_eq_toNat_of_lt (by omega), count]
    rfl
  obtain ⟨mmu, same, copied⟩ := @run_readChars _ environment kernel virtAddr
    bytes [] (by rw [List.length_nil, BitVec.add_zero]; exact holds)
  refine ⟨mmu, same, ?_⟩
  rw [List.nil_append, List.length_nil] at copied
  unfold userToSystem
  rw [run_bind_ok made]
  simp only [length, rounds]
  rw [run_bind_ok copied]
  rfl

theorem limit_succ {limit : Word} {count : Nat}
    (length : limit.toNat = count) (small : count + 1 < 2 ^ 31) :
    (limit + 1#32).toNat = count + 1 ∧ (limit + 1#32).toInt = count + 1 := by
  have size : (limit + 1#32).toNat = count + 1 := by
    rw [BitVec.toNat_add, length]
    exact Nat.mod_eq_of_lt (small.trans (by decide))
  refine ⟨size, ?_⟩
  rw [BitVec.toInt_eq_toNat_of_lt (by omega), size]
  rfl

theorem run_userToSystem (allocates : Allocates environment)
    {virtAddr limit : Word} {bytes : List Byte}
    (count : limit.toNat = bytes.length) (small : bytes.length + 1 < 2 ^ 31)
    (holds : kernel.Holds virtAddr bytes) :
    ∃ mmu, mmu.mapping = kernel.shared.mmu.mapping ∧
      (userToSystem virtAddr limit).run (Kernel.answer environment) kernel =
        .ok (some (cut bytes ++ [0#8]), kernel.withMmu mmu) := by
  obtain ⟨size, signed⟩ := limit_succ count small
  obtain ⟨block, length, made⟩ := @run_newBuffer _ environment kernel
    allocates (limit + 1#32) (by omega)
  exact run_userToSystem_of_block count small holds (length.trans size) made

/-! ## Writing -/

/-- The memory after the bytes of a string have been stored in cells. -/
def storeString (place : Nat → Nat) : List Byte → Nat → (Nat → Byte) → Nat → Byte
  | [], _, memory => memory
  | first :: rest, index, memory =>
    if first = 0#8 then update memory (place index) first
    else storeString place rest (index + 1) (update memory (place index) first)

/-- How many bytes of a string are stored, its NUL included. -/
def storedCount : List Byte → Nat
  | [] => 0
  | first :: rest => if first = 0#8 then 1 else storedCount rest + 1

theorem storedCount_nulFree {text : List Byte} (nulFree : 0#8 ∉ text) (rest : List Byte) :
    storedCount (text ++ 0#8 :: rest) = text.length + 1 := by
  induction text with
  | nil => rfl
  | cons first text induction =>
    rw [List.mem_cons, not_or] at nulFree
    rw [List.cons_append, storedCount, if_neg (Ne.symm nulFree.1),
      induction nulFree.2, List.length_cons]

theorem run_charAt {before rest : List Byte} {first : Byte} :
    (charAt (before ++ first :: rest) before.length).run
      (Kernel.answer environment) kernel = .ok (first, kernel) := by
  simp only [charAt, List.getElem?_append_right (Nat.le_refl _),
    Nat.sub_self, List.getElem?_cons_zero]
  rfl

theorem run_writeChars {place : Nat → Nat} (rest before after : List Byte)
    (located : ∀ index, index < rest.length → kernel.shared.mmu.locate
        (virtAddr + BitVec.ofNat 32 (before.length + index)) true =
      some (place (before.length + index))) :
    ∃ mmu, mmu.mapping = kernel.shared.mmu.mapping ∧
      (writeChars virtAddr (before ++ rest ++ after) rest.length
        before.length).run (Kernel.answer environment) kernel =
        .ok (BitVec.ofNat 32 (before.length + storedCount rest),
          (kernel.withMmu mmu).withMemory (storeString place rest before.length
              kernel.shared.mainMemory)) := by
  induction rest generalizing before kernel with
  | nil => exact ⟨kernel.shared.mmu, rfl, rfl⟩
  | cons first rest induction =>
    obtain ⟨mmu, same, written⟩ := @Kernel.run_writeMem _ environment _ _ _
      (located 0 (Nat.succ_pos _)) first
    rw [Nat.add_zero] at written
    rw [List.append_assoc, List.cons_append, List.length_cons, writeChars,
      run_bind_ok run_charAt, run_bind_ok written]
    by_cases zero : first = 0#8
    · refine ⟨mmu, same, ?_⟩
      rw [if_pos zero, storeString, if_pos zero, storedCount, if_pos zero]
      rfl
    · obtain ⟨mmu', same', copied⟩ := @induction ((kernel.withMmu mmu).withMemory (update
          kernel.shared.mainMemory (place before.length) first))
        (before ++ [first]) (by
          intro index inside
          have next := located (index + 1) (Nat.succ_lt_succ inside)
          rw [← Mmu.locate_congr same] at next
          rw [List.length_append, List.length_singleton, Nat.add_assoc, Nat.add_comm 1]
          exact next)
      refine ⟨mmu', same'.trans same, ?_⟩
      rw [if_neg zero, storeString, if_neg zero, storedCount,
        if_neg zero, Nat.add_comm (storedCount rest), ← Nat.add_assoc]
      rw [List.length_append, List.length_singleton, List.append_assoc,
        List.append_assoc, List.singleton_append] at copied
      exact copied

theorem run_systemToUser {len : Word} {place : Nat → Nat}
    (bytes after : List Byte) (count : len.toNat = bytes.length)
    (nonempty : bytes ≠ []) (small : bytes.length < 2 ^ 31)
    (located : ∀ index, index < bytes.length →
      kernel.shared.mmu.locate (virtAddr + BitVec.ofNat 32 index) true = some (place index)) :
    ∃ mmu, mmu.mapping = kernel.shared.mmu.mapping ∧
      (systemToUser virtAddr len (bytes ++ after)).run
          (Kernel.answer environment) kernel =
        .ok (BitVec.ofNat 32 (storedCount bytes), (kernel.withMmu mmu).withMemory
            (storeString place bytes 0 kernel.shared.mainMemory)) := by
  have positive := List.length_pos_iff.mpr nonempty
  have nonnegative : ¬len.toInt < 0 := by
    rw [BitVec.toInt_eq_toNat_of_lt (by omega)]
    omega
  have nonzero : len ≠ 0#32 := by
    rintro rfl
    rw [show (0#32 : Word).toNat = 0 from rfl] at count
    omega
  obtain ⟨mmu, same, copied⟩ := @run_writeChars _ environment kernel
    virtAddr place bytes [] after (by
      simpa only [List.length_nil, Nat.zero_add] using located)
  refine ⟨mmu, same, ?_⟩
  rw [List.length_nil, Nat.zero_add] at copied
  unfold systemToUser
  rw [if_neg nonnegative, if_neg nonzero, count]
  exact copied

theorem storeString_frame {place : Nat → Nat} (bytes : List Byte)
    (start : Nat) (memory : Nat → Byte) {address : Nat}
    (elsewhere : ∀ index, start ≤ index → index < start + bytes.length → place index ≠ address) :
    storeString place bytes start memory address = memory address := by
  induction bytes generalizing start memory with
  | nil => rfl
  | cons first rest induction =>
    rw [List.length_cons] at elsewhere
    have moved : update memory (place start) first address =
        memory address :=
      update_of_ne (elsewhere start (by omega) (by omega)).symm
        _ _
    rw [storeString]
    split
    · exact moved
    · rw [induction (start + 1), moved]
      intro index lower upper
      exact elsewhere index (by omega) (by omega)

section Cells

variable {place : Nat → Nat} {count : Nat}

theorem storeString_outside
    (distinct : ∀ index, index < count → ∀ other, other < count →
      place index = place other → index = other)
    (bytes : List Byte) (start : Nat) (memory : Nat → Byte)
    (inside : start + bytes.length ≤ count) {index : Nat}
    (bound : index < count)
    (outside : index < start ∨ start + bytes.length ≤ index) :
    storeString place bytes start memory (place index) = memory (place index) := by
  apply storeString_frame
  intro other lower upper same
  have equal := distinct other (by omega) index bound same
  omega

/-- The bytes up to the first NUL are stored; the cells behind it keep what
they held. -/
theorem storeString_at
    (distinct : ∀ index, index < count → ∀ other, other < count →
      place index = place other → index = other)
    (bytes : List Byte) (start : Nat) (memory : Nat → Byte)
    (inside : start + bytes.length ≤ count) {index : Nat}
    (here : index < bytes.length) :
    storeString place bytes start memory (place (start + index)) =
      if Ended bytes index then memory (place (start + index))
      else bytes.getD index 0#8 := by
  induction bytes generalizing start memory index with
  | nil => exact absurd here (Nat.not_lt_zero _)
  | cons first rest induction =>
    rw [List.length_cons] at inside here
    rw [storeString]
    cases index with
    | zero =>
      rw [if_neg (not_ended_zero _), List.getD_cons_zero]
      simp only [Nat.add_zero]
      split
      · rw [update_self]
      · rw [storeString_outside distinct rest (start + 1) _ (by omega)
          (by omega) (by omega), update_self]
    | succ index =>
      have moved : update memory (place start) first
          (place (start + (index + 1))) = memory (place (start + (index + 1))) := by
        rw [update_of_ne]
        intro same
        have := distinct _ (by omega) start (by omega) same
        omega
      simp only [ended_cons_succ, List.getD_cons_succ]
      split
      · rename_i zero
        simp only [zero, true_or, if_true]
        rw [zero] at moved
        exact moved
      · rename_i nonzero
        simp only [nonzero, false_or]
        rw [show start + (index + 1) = start + 1 + index by omega] at moved ⊢
        rw [induction (start + 1) _ (by omega) (by omega), moved]

end Cells

end Handler

/-! ## Stretches of user memory -/

/-- A stretch of user memory with one cell for each of its addresses. -/
structure Cells (mmu : Mmu) (virtAddr : Word) (count : Nat)
    (writing : Bool) (place : Nat → Nat) : Prop where
  located : ∀ index, index < count →
    mmu.locate (virtAddr + BitVec.ofNat 32 index) writing = some (place index)
  distinct : ∀ index, index < count → ∀ other, other < count →
    place index = place other → index = other

/-- The bytes in the cells. -/
def cellBytes (memory : Nat → Byte) (place : Nat → Nat) (count : Nat) :
    List Byte :=
  (List.range count).map fun index => memory (place index)

@[simp] theorem cellBytes_length (memory : Nat → Byte)
    (place : Nat → Nat) (count : Nat) :
    (cellBytes memory place count).length = count := by
  simp [cellBytes]

theorem cellBytes_getD (memory : Nat → Byte) (place : Nat → Nat)
    {count index : Nat} (inside : index < count) :
    (cellBytes memory place count).getD index 0#8 = memory (place index) := by
  simp [cellBytes, inside]

namespace Cells

variable {mmu : Mmu} {virtAddr : Word} {count : Nat} {writing : Bool} {place : Nat → Nat}

theorem count_le (cells : Cells mmu virtAddr count writing place) : count ≤ memorySize := by
  have injective : Function.Injective
      (fun index : Fin count => (⟨place index.val,
        Mmu.locate_lt (cells.located index.val index.isLt)⟩ : Fin memorySize)) := by
    intro index other same
    exact Fin.ext (cells.distinct index.val index.isLt other.val other.isLt (congrArg Fin.val same))
  simpa using Fintype.card_le_of_injective _ injective

theorem congr {changed : Mmu} (cells : Cells mmu virtAddr count writing place)
    (same : changed.mapping = mmu.mapping) :
    Cells changed virtAddr count writing place where
  located := fun index inside =>
    (Mmu.locate_congr same _ _).trans (cells.located index inside)
  distinct := cells.distinct

theorem holds {σ : Type} {kernel : Kernel σ}
    (cells : Cells kernel.shared.mmu virtAddr count writing place) :
    kernel.Holds virtAddr (cellBytes kernel.shared.mainMemory place count) := by
  intro index inside _
  rw [cellBytes_length] at inside
  refine ⟨place index, ?_, (cellBytes_getD _ _ inside).symm⟩
  cases writing with
  | false => exact cells.located index inside
  | true => exact Mmu.locate_reading (cells.located index inside)

end Cells

end Nachos
