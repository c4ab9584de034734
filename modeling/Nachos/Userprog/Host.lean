import Nachos.Lib.Outcome
import Nachos.Machine.Faults
import Nachos.Userprog.RoundTrip

/-!
# A host with a console

Besides the files of UNIX the host has the characters which are going to be
typed at the console and a limit for the blocks which `new` can give.  What
the parts of a handler do with such a host, and for which reasons they can
stop, is said here once for the system calls.
-/

open Words Memory Calls Program Function

namespace Nachos

/-- `typed` are the characters other than `EOF`, which is 0xFF as a `char`. -/
structure Host where
  unix : Unix
  typed : List Byte

namespace Shared

/-- A call of UNIX which is checked by an `ASSERT`. -/
def served {α : Type} (shared : Shared Host) :
    Result (α × Unix) → Except Departure (α × Shared Host)
  | .ok (reply, unix) =>
    .ok (reply, { shared with rest := { shared.rest with unix := unix } })
  | .error reason => .error (.fault reason)

end Shared

/-- The host: `heap` is the size of the largest block, `fresh` is what new
memory holds, and `unset` is the value of a variable which is not set.  A
program which reads behind the last character waits for ever.  The calls
which are about processes have no part in the calls considered here. -/
def deviceHost (heap : Nat) (fresh : Nat → Byte) (unset : Byte) : Environment Host
  | .newChars size, shared =>
    .ok (if size ≤ heap then some fresh else none, shared)
  | .openForWrite name, shared =>
    shared.served (shared.rest.unix.openForWrite name)
  | .openForReadWrite name, shared =>
    shared.served (.ok (shared.rest.unix.openForReadWrite name))
  | .close file, shared =>
    shared.served ((shared.rest.unix.close file).map fun unix =>
      ((), unix))
  | .lseek file offset, shared =>
    shared.served ((shared.rest.unix.lseek file offset).map fun unix =>
      ((), unix))
  | .readPartial file nBytes, shared =>
    shared.served (.ok (shared.rest.unix.readPartial file nBytes))
  | .writeFile file buffer nBytes, shared =>
    shared.served ((shared.rest.unix.writeFile file buffer nBytes).map fun unix => ((), unix))
  | .tell file, shared => .ok (shared.rest.unix.tell file, shared)
  | .waitForLine, shared => .ok ((), shared)
  | .getChar, shared =>
    match shared.rest.typed with
    | [] => .error .blocked
    | character :: typed =>
      .ok (character, { shared with rest := { shared.rest with typed := typed } })
  | .putChar _, shared => .ok ((), shared)
  | .garbage, shared => .ok (unset, shared)
  | _, _ => .error .blocked

/-- The kernel on this host. -/
abbrev device (heap : Nat) (fresh : Nat → Byte) (unset : Byte) :
    Interpreter KernelCall KernelCall.Reply (Kernel Host) Departure :=
  Kernel.answer (deviceHost heap fresh unset)

namespace Kernel

def withHostFiles (kernel : Kernel Host) (unix : Unix) : Kernel Host :=
  { kernel with shared := { kernel.shared with
    rest := { kernel.shared.rest with unix := unix } } }

def withTyped (kernel : Kernel Host) (typed : List Byte) : Kernel Host :=
  { kernel with shared := { kernel.shared with
    rest := { kernel.shared.rest with typed := typed } } }

/-- The user can read this many bytes at the address, or the bytes up to a
NUL before. -/
def Readable {σ : Type} (kernel : Kernel σ) : Word → Nat → Prop
  | _, 0 => True
  | virtAddr, count + 1 =>
    ∃ physAddr, kernel.shared.mmu.locate virtAddr false = some physAddr ∧
      (kernel.shared.mainMemory physAddr ≠ 0#8 → kernel.Readable (virtAddr + 1#32) count)

theorem readable_congr {σ : Type} {kernel other : Kernel σ}
    (mapping : other.shared.mmu.mapping = kernel.shared.mmu.mapping)
    (memory : other.shared.mainMemory = kernel.shared.mainMemory)
    (virtAddr : Word) (count : Nat) :
    other.Readable virtAddr count ↔ kernel.Readable virtAddr count := by
  induction count generalizing virtAddr with
  | zero => rfl
  | succ count induction =>
    simp only [Readable, memory, Mmu.locate_congr mapping, induction]

/-- The file object in a slot is open for the file `name`, which has the
given contents. -/
structure FileAt (kernel : Kernel Host) (id : Fin maxOpenFiles)
    (file : StubFile) (name : CString) (position : Nat)
    (contents : List Byte) : Prop where
  slot : kernel.shared.openf id = some file
  opened : kernel.shared.rest.unix.descriptor file.file =
    some ⟨name, position⟩
  contents : kernel.shared.rest.unix.files name = some contents
  inRange : position < 2147483648

/-- The files which are not the console are open in UNIX. -/
def FilesOpen (kernel : Kernel Host) : Prop :=
  ∀ id file, kernel.shared.openf id = some file →
    file.type ≠ 2#32 → file.type ≠ 3#32 →
    ∃ name position contents, kernel.FileAt id file name position contents

/-- The kernel after `GetCurrentPos` of a file. -/
def positioned (kernel : Kernel Host) (id : Fin maxOpenFiles) (file : StubFile) : Kernel Host :=
  kernel.withFile id (some { file with
    currentOffset := kernel.shared.rest.unix.tell file.file })

/-- The kernel after `AdvanceProgramCounter`. -/
def advanced {σ : Type} (kernel : Kernel σ) : Kernel σ :=
  ((kernel.withRegister .prevPCReg (kernel.registers .pcReg)).withRegister
    .pcReg (kernel.registers .nextPCReg)).withRegister
      .nextPCReg (kernel.registers .nextPCReg + 4#32)

theorem advanced_registers {σ : Type} (kernel : Kernel σ)
    {register : Register} (notPrevious : register ≠ .prevPCReg)
    (notCurrent : register ≠ .pcReg) (notNext : register ≠ .nextPCReg) :
    kernel.advanced.registers register = kernel.registers register := by
  simp only [advanced, withRegister, update_of_ne notPrevious,
    update_of_ne notCurrent, update_of_ne notNext]

end Kernel

/-- The kernel has asked for a block of negative size, or it has used memory
outside of a block. -/
def Departure.KernelFailure : Departure → Prop
  | .fault .allocation => True
  | .fault .bounds => True
  | _ => False

theorem Mmu.Configured.of_mapping {mmu changed : Mmu}
    (configured : mmu.Configured) (same : changed.mapping = mmu.mapping) :
    changed.Configured := by
  have tables := congrArg (fun mmu => mmu.pageTable.isSome) same
  have tlbs := congrArg (fun mmu => mmu.tlb.isSome) same
  simp only [Mmu.mapping, Option.isSome_map] at tables tlbs
  unfold Mmu.Configured at configured ⊢
  rw [tables, tlbs]
  exact configured

theorem Kernel.ready_withMmu {σ : Type} {kernel : Kernel σ} {mmu : Mmu}
    (ready : kernel.machine.Ready)
    (same : mmu.mapping = kernel.shared.mmu.mapping) :
    (kernel.withMmu mmu).machine.Ready :=
  ⟨ready.configured.of_mapping same, ready.pending⟩

namespace Handler

section Accesses

variable {σ : Type} {environment : Environment σ} {kernel : Kernel σ}

theorem translate_refused {machine : Machine} (ready : machine.Ready) {addr : Word} {writing : Bool}
    (unmapped : machine.mmu.locate addr writing = none) :
    ∃ which after, machine.translate addr 1 writing = .error (.raised which after) := by
  rcases ready.translate addr writing (Or.inl rfl) with
    refused | ⟨physAddr, after, done, -⟩
  · exact refused
  · unfold Machine.translate at done
    cases result : machine.mmu.translate addr 1 writing with
    | error refusal =>
      rw [result] at done
      cases refusal <;> cases done
    | ok pair =>
      have located := Mmu.locate_eq_some_iff.mpr ⟨pair.2, result⟩
      rw [unmapped] at located
      cases located

theorem readMem_ends (ready : kernel.machine.Ready) (addr : Word) :
    (readMem addr 1).Ends (Kernel.answer environment) kernel
      (fun value after => ∃ physAddr mmu,
        kernel.shared.mmu.locate addr false = some physAddr ∧
        value = (kernel.shared.mainMemory physAddr).signExtend 32 ∧
        mmu.mapping = kernel.shared.mmu.mapping ∧
        after = kernel.withMmu mmu)
      (fun reason => reason = .halted ∧ kernel.shared.mmu.locate addr false = none) := by
  cases located : kernel.shared.mmu.locate addr false with
  | some physAddr =>
    obtain ⟨mmu, same, read⟩ :=
      @Kernel.run_readMem _ environment _ _ _ located
    rw [ends_of_ok read]
    exact ⟨physAddr, mmu, rfl, rfl, same, rfl⟩
  | none =>
    obtain ⟨which, after, raised⟩ := translate_refused ready located
    have failed : (readMem addr 1).run (Kernel.answer environment) kernel = .error .halted := by
      refine (run_perform _ _).trans ?_
      simp only [Kernel.answer, Machine.readMem, raised]
      rfl
    rw [ends_of_error failed]
    exact ⟨rfl, rfl⟩

theorem writeMem_ends (ready : kernel.machine.Ready) (addr : Word) (value : Byte) :
    (writeMem addr 1 (value.signExtend 32)).Ends (Kernel.answer environment) kernel
      (fun _ after => ∃ mmu memory,
        mmu.mapping = kernel.shared.mmu.mapping ∧
        after = (kernel.withMmu mmu).withMemory memory)
      (fun reason => reason = .halted) := by
  cases located : kernel.shared.mmu.locate addr true with
  | some physAddr =>
    obtain ⟨mmu, same, written⟩ :=
      @Kernel.run_writeMem _ environment _ _ _ located value
    rw [ends_of_ok written]
    exact ⟨mmu, _, same, rfl⟩
  | none =>
    obtain ⟨which, after, raised⟩ := translate_refused ready located
    have failed : (writeMem addr 1 (value.signExtend 32)).run
        (Kernel.answer environment) kernel = .error .halted := by
      refine (run_perform _ _).trans ?_
      simp only [Kernel.answer, Machine.writeMem, raised]
      rfl
    rw [ends_of_error failed]

/-- The loop of `UserToSystem` stays in its buffer and ends if the rest of
the string can be read. -/
theorem readChars_ends (virtAddr : Word) (left i : Nat)
    {kernelBuf : List Byte} (room : i + left ≤ kernelBuf.length)
    (ready : kernel.machine.Ready) :
    (readChars virtAddr left i kernelBuf).Ends (Kernel.answer environment) kernel
      (fun result after => ∃ mmu,
        mmu.mapping = kernel.shared.mmu.mapping ∧
        after = kernel.withMmu mmu ∧
        result.length = kernelBuf.length ∧
        result[i + left]? = kernelBuf[i + left]? ∧
        kernel.Readable (virtAddr + BitVec.ofNat 32 i) left)
      (fun reason => reason = .halted ∧ ¬kernel.Readable (virtAddr + BitVec.ofNat 32 i) left) := by
  induction left generalizing i kernelBuf kernel with
  | zero =>
    rw [readChars, ends_pure]
    exact ⟨kernel.shared.mmu, rfl, rfl, rfl, rfl, trivial⟩
  | succ left induction =>
    rw [readChars, ends_bind]
    refine (readMem_ends ready _).mono ?_ ?_
    · rintro value after ⟨physAddr, mmu, located, rfl, same, rfl⟩
      have next : virtAddr + BitVec.ofNat 32 i + 1#32 = virtAddr + BitVec.ofNat 32 (i + 1) := by
        rw [BitVec.ofNat_add, BitVec.add_assoc]
      rw [setWidth_signExtend, ends_bind_ok (run_setChar (by omega) _)]
      simp only [signExtend_eq_zero_iff]
      by_cases zero : kernel.shared.mainMemory physAddr = 0#8
      · rw [if_pos zero, ends_pure]
        refine ⟨mmu, same, rfl, List.length_set, ?_, physAddr, located,
          fun nonzero => absurd zero nonzero⟩
        exact List.getElem?_set_ne (by omega)
      · rw [if_neg zero]
        have readables := @Kernel.readable_congr _ kernel (kernel.withMmu mmu) same rfl
        have later := @induction (kernel.withMmu mmu) (i + 1)
          (kernelBuf.set i (kernel.shared.mainMemory physAddr))
          (by rw [List.length_set]; omega)
          (Kernel.ready_withMmu ready same)
        refine later.mono ?_ ?_
        · rintro result after ⟨mmu', same', rfl, length, behind, readable⟩
          rw [readables, ← next] at readable
          refine ⟨mmu', same'.trans same, rfl, ?_, ?_, physAddr, located, fun _ => readable⟩
          · rw [length, List.length_set]
          · rw [List.getElem?_set_ne (by omega)] at behind
            have place : i + (left + 1) = i + 1 + left := by omega
            rw [place]
            exact behind
        · rintro reason ⟨halted, unreadable⟩
          refine ⟨halted, ?_⟩
          rintro ⟨physAddr', located', rest⟩
          rw [located] at located'
          cases located'
          rw [readables, ← next] at unreadable
          exact unreadable (rest zero)
    · rintro reason ⟨halted, unmapped⟩
      refine ⟨halted, ?_⟩
      rintro ⟨physAddr, located, -⟩
      rw [unmapped] at located
      cases located

/-- `SystemToUser` stays in a buffer of at least the length it is given. -/
theorem writeChars_ends (virtAddr : Word) {buffer : List Byte}
    (left i : Nat) (room : i + left ≤ buffer.length)
    (ready : kernel.machine.Ready) :
    (writeChars virtAddr buffer left i).Ends (Kernel.answer environment) kernel
      (fun _ after => after.registers = kernel.registers)
      (fun reason => reason = .halted) := by
  induction left generalizing i kernel with
  | zero =>
    rw [writeChars, ends_pure]
  | succ left induction =>
    have inside : i < buffer.length := by omega
    have fetched : (charAt buffer i).run (Kernel.answer environment)
        kernel = .ok (buffer[i], kernel) := by
      rw [charAt, List.getElem?_eq_getElem inside]
      rfl
    rw [writeChars, ends_bind_ok fetched, ends_bind]
    refine (writeMem_ends ready _ _).mono ?_ fun _ => id
    rintro _ after ⟨mmu, memory, same, rfl⟩
    split
    · rw [ends_pure]
      rfl
    · exact induction (i + 1) (by omega) ⟨ready.configured.of_mapping same, ready.pending⟩

theorem systemToUser_ends (virtAddr len : Word) {buffer : List Byte}
    (room : len.toInt ≤ buffer.length) (ready : kernel.machine.Ready) :
    (systemToUser virtAddr len buffer).Ends (Kernel.answer environment) kernel
      (fun _ after => after.registers = kernel.registers)
      (fun reason => reason = .halted) := by
  unfold systemToUser
  split
  · rw [ends_pure]
  · rename_i nonnegative
    split
    · rw [ends_pure]
    · have value := toInt_eq_toNat (not_lt.mp nonnegative)
      exact writeChars_ends virtAddr len.toNat 0 (by omega) ready

theorem exceptionHandler_ends {call : Syscall}
    {post : Unit → Kernel σ → Prop} {stops : Departure → Prop}
    (code : Syscall.ofCode (kernel.registers r2) = some call) :
    (exceptionHandler .syscallException).Ends (Kernel.answer environment)
        kernel post stops ↔
      (syscallCase call).Ends (Kernel.answer environment) kernel
        (fun _ middle => post () middle.advanced) stops := by
  have advances (middle : Kernel σ) :
      advanceProgramCounter.run (Kernel.answer environment) middle =
        .ok ((), middle.advanced) := rfl
  rw [exceptionHandler_eq, ends_bind_ok (run_readRegister r2), dispatch_some code, ends_bind]
  simp only [ends_of_ok (advances _)]

theorem exceptionHandler_stops {call : Syscall} {reason : Departure}
    (code : Syscall.ofCode (kernel.registers r2) = some call)
    (stopped : (syscallCase call).run (Kernel.answer environment) kernel =
      .error reason) (after : Kernel σ) :
    (exceptionHandler .syscallException).run (Kernel.answer environment)
      kernel ≠ .ok ((), after) := by
  intro ran
  have ends : (exceptionHandler .syscallException).Ends
      (Kernel.answer environment) kernel (fun _ _ => False)
      (fun _ => True) := by
    rw [exceptionHandler_ends code]
    exact (ends_of_error stopped).mpr trivial
  exact (ends_of_ok ran).mp ends

end Accesses

/-! ## Buffers -/

/-- The host has a block of this size. -/
def Honours (heap : Nat) (size : Word) : Prop :=
  0 ≤ size.toInt ∧ size.toNat ≤ heap

instance (heap : Nat) (size : Word) : Decidable (Honours heap size) :=
  inferInstanceAs (Decidable (_ ∧ _))

/-- A buffer with room for one more character than the limit. -/
theorem limit_cases {limit : Word} (nonnegative : 0 ≤ (limit + 1#32).toInt) :
    limit.toInt = -1 ∧ (limit + 1#32).toNat = 0 ∨
      0 ≤ limit.toInt ∧ (limit + 1#32).toNat = limit.toInt.toNat + 1 := by
  have bound := limit.isLt
  have value := BitVec.toInt_eq_toNat_cond limit
  have next := BitVec.toInt_eq_toNat_cond (limit + 1#32)
  have sum : (limit + 1#32).toNat = (limit.toNat + 1) % 4294967296 :=
    BitVec.toNat_add limit 1#32
  split at value <;> split at next <;> omega

section Devices

variable {heap : Nat} {fresh : Nat → Byte} {unset : Byte} {kernel : Kernel Host} {α : Type}

theorem run_newChars (size : Nat) : (host (.newChars size)).run
      (device heap fresh unset) kernel =
        .ok ((if size ≤ heap then some fresh else none : Option (Nat → Byte)), kernel) :=
  run_host _

theorem run_newBuffer_honoured {size : Word} (honours : Honours heap size) :
    (newBuffer size).run (device heap fresh unset)
      kernel = .ok (some ((List.range size.toNat).map fresh), kernel) := by
  unfold newBuffer
  rw [if_neg (not_lt.mpr honours.1), run_bind_ok (run_newChars _), if_pos honours.2]
  rfl

/-- A negative size stops the kernel, and for a size which is too large there
is no block. -/
theorem run_newBuffer_refused {size : Word} (refused : ¬Honours heap size) :
    (newBuffer size).run (device heap fresh unset)
        kernel = .error (.fault .allocation) ∨
      (newBuffer size).run (device heap fresh unset) kernel = .ok (none, kernel) := by
  unfold newBuffer
  by_cases negative : size.toInt < 0
  · left
    rw [if_pos negative]
    rfl
  · right
    have large : ¬size.toNat ≤ heap := by
      intro small
      exact refused ⟨not_lt.mp negative, small⟩
    rw [if_neg negative, run_bind_ok (run_newChars _), if_neg large]
    rfl

/-- Without a block the kernel fails: the source does not test for `NULL`
where it uses a buffer. -/
theorem newBuffer_refused {size : Word} (refused : ¬Honours heap size)
    (next : List Byte → KernelProgram α) :
    ∃ reason : Departure, reason.KernelFailure ∧
      (newBuffer size >>= fun buffer => nonNull buffer >>= next).run
        (device heap fresh unset) kernel =
          .error reason := by
  rcases @run_newBuffer_refused heap fresh unset kernel _ refused with failed | none
  · exact ⟨.fault .allocation, trivial, run_bind_error failed⟩
  · exact ⟨.fault .bounds, trivial, run_bind_ok none⟩

/-- `UserToSystem` with a buffer: a NUL stands behind the last character, and
the call ends if the string can be read. -/
theorem userToSystem_ends {virtAddr limit : Word} (honours : Honours heap (limit + 1#32))
    (ready : kernel.machine.Ready) :
    (userToSystem virtAddr limit).Ends (device heap fresh unset) kernel
      (fun result after => ∃ buffer mmu, result = some buffer ∧
        mmu.mapping = kernel.shared.mmu.mapping ∧
        after = kernel.withMmu mmu ∧
        buffer.length = (limit + 1#32).toNat ∧
        (0 ≤ limit.toInt → buffer[limit.toInt.toNat]? = some 0#8) ∧
        kernel.Readable virtAddr limit.toInt.toNat)
      (fun reason => reason = .halted ∧ ¬kernel.Readable virtAddr limit.toInt.toNat) := by
  have sizes := limit_cases honours.1
  unfold userToSystem
  rw [ends_bind_ok (run_newBuffer_honoured honours)]
  simp only [List.length_map, List.length_range]
  rw [ends_bind]
  have copied := @readChars_ends _ (deviceHost heap fresh unset) kernel virtAddr limit.toInt.toNat 0
    (List.replicate (limit + 1#32).toNat 0#8)
    (by rw [List.length_replicate]; omega) ready
  rw [BitVec.add_zero] at copied
  refine copied.mono ?_ fun _ => id
  rintro buffer after ⟨mmu, same, rfl, length, behind, readable⟩
  rw [ends_pure]
  rw [List.length_replicate] at length
  refine ⟨buffer, mmu, rfl, same, rfl, length, ?_, readable⟩
  intro nonnegative
  rw [Nat.zero_add] at behind
  rw [behind, List.getElem?_replicate, if_pos (by omega)]

theorem userToSystem_refused {virtAddr limit : Word} (refused : ¬Honours heap (limit + 1#32))
    (next : List Byte → KernelProgram α) :
    ∃ reason : Departure, reason.KernelFailure ∧
      (userToSystem virtAddr limit >>= fun buffer =>
        nonNull buffer >>= next).run
          (device heap fresh unset) kernel =
            .error reason := by
  unfold userToSystem
  rcases @run_newBuffer_refused heap fresh unset kernel _ refused with failed | none
  · exact ⟨.fault .allocation, trivial, run_bind_error (run_bind_error failed)⟩
  · refine ⟨.fault .bounds, trivial, ?_⟩
    rw [run_bind, run_bind_ok none]
    rfl

/-! ## The console -/

theorem run_getChar {character : Byte} {rest : List Byte}
    (typed : kernel.shared.rest.typed = character :: rest) :
    (host .getChar).run (device heap fresh unset)
      kernel = .ok (character, kernel.withTyped rest) := by
  rw [run_host]
  simp only [deviceHost, typed]
  rfl

/-- A character which is stored before a line begins a longer line. -/
theorem set_line {buffer : List Byte} {loop : Nat} {character : Byte}
    (line : List Byte) (inside : loop < buffer.length) :
    (buffer.set loop character).take (loop + 1) ++ line ++
        (buffer.set loop character).drop (loop + 1 + line.length) =
      buffer.take loop ++ (character :: line) ++
        buffer.drop (loop + (character :: line).length) := by
  have front : (buffer.set loop character).take (loop + 1) = buffer.take loop ++ [character] := by
    rw [List.take_add_one, List.take_set_of_le (le_refl _), List.getElem?_set_self inside]
    rfl
  have order : loop + (character :: line).length = loop + 1 + line.length := by
    rw [List.length_cons]
    omega
  rw [front, List.drop_set_of_lt (by omega), order]
  simp

/-- Neither newline nor CTRL-A is among these characters. -/
abbrev Unended (line : List Byte) : Prop :=
  ∀ character ∈ line, character ≠ 10#8 ∧ character ≠ 1#8

/-- How a line of at most `left` characters ends: it is full, or newline or
CTRL-A follows. -/
inductive LineEnd (left : Nat) (line : List Byte) : List Byte → Prop where
  | full (whole : line.length = left) : LineEnd left line []
  | ended {ending : Byte} (short : line.length < left) (ends : ending = 10#8 ∨ ending = 1#8) :
      LineEnd left line [ending]

theorem exists_line (left : Nat) (typed : List Byte) :
    (∃ line ended later, LineEnd left line ended ∧ Unended line ∧
      typed = line ++ (ended ++ later)) ∨
    typed.length < left ∧ Unended typed := by
  induction typed generalizing left with
  | nil =>
    cases left with
    | zero => exact .inl ⟨[], [], [], .full rfl, by simp [Unended], rfl⟩
    | succ left => exact .inr ⟨Nat.succ_pos _, by simp [Unended]⟩
  | cons character typed induction =>
    cases left with
    | zero => exact .inl ⟨[], [], _, .full rfl, by simp [Unended], rfl⟩
    | succ left =>
      by_cases ending : character = 10#8 ∨ character = 1#8
      · exact .inl ⟨[], [character], typed, .ended (Nat.succ_pos _) ending, by simp [Unended], rfl⟩
      have plain := not_or.mp ending
      rcases induction left with ⟨line, ended, later, ends, others, rfl⟩ | ⟨short, others⟩
      · refine .inl ⟨character :: line, ended, later, ?_, List.forall_mem_cons.mpr ⟨plain, others⟩,
          rfl⟩
        cases ends with
        | full whole => exact .full (congrArg Nat.succ whole)
        | ended short ends => exact .ended (Nat.succ_lt_succ short) ends
      · exact .inr ⟨Nat.succ_lt_succ short, List.forall_mem_cons.mpr ⟨plain, others⟩⟩

theorem run_getChars_blocked {buffer : List Byte} (left loop : Nat) (ch : Byte)
    (room : loop + left ≤ buffer.length) (short : kernel.shared.rest.typed.length < left)
    (plain : Unended kernel.shared.rest.typed) :
    (getChars left loop ch buffer).run (device heap fresh unset) kernel = .error .blocked := by
  generalize typed : kernel.shared.rest.typed = line at short plain
  induction line generalizing kernel left loop ch buffer with
  | nil =>
    obtain ⟨left, rfl⟩ := Nat.exists_eq_add_of_lt short
    have blocked : (host .getChar).run (device heap fresh unset) kernel = .error .blocked := by
      rw [run_host]
      simp only [deviceHost, typed]
    exact run_bind_error blocked
  | cons character line induction =>
    obtain ⟨left, rfl⟩ := Nat.exists_eq_add_of_lt short
    refine (run_bind_ok (run_getChar typed)).trans ?_
    rw [if_neg (not_or.mpr (plain character List.mem_cons_self)),
      run_bind_ok (run_setChar (by omega) character)]
    exact induction _ _ _ (by rw [List.length_set]; omega) rfl (by simp; omega)
      fun other member => plain other (List.mem_cons_of_mem _ member)

theorem run_getChars (line : List Byte) {ended later buffer : List Byte}
    (left loop : Nat) (ch : Byte) (room : loop + left ≤ buffer.length)
    (ends : LineEnd left line ended)
    (plain : Unended line)
    (typed : kernel.shared.rest.typed = line ++ (ended ++ later)) :
    (getChars left loop ch buffer).run
      (device heap fresh unset) kernel =
        .ok ((buffer.take loop ++ line ++ buffer.drop (loop + line.length),
          loop + line.length, (line ++ ended).getLastD ch), kernel.withTyped later) := by
  induction line generalizing kernel left loop ch buffer with
  | nil =>
    rw [List.append_nil, List.length_nil, Nat.add_zero, List.take_append_drop]
    cases ends with
    | full whole =>
      cases whole
      rw [← show kernel.shared.rest.typed = later from typed]
      rfl
    | ended short stops =>
      obtain ⟨left, rfl⟩ := Nat.exists_eq_add_of_lt short
      refine (run_bind_ok (run_getChar typed)).trans ?_
      rw [if_pos stops]
      rfl
  | cons character line induction =>
    obtain ⟨left, rfl, shorter⟩ : ∃ count, left = count + 1 ∧ LineEnd count line ended := by
      cases ends with
      | full whole => exact ⟨line.length, whole.symm, .full rfl⟩
      | ended short stops =>
        obtain ⟨count, rfl⟩ := Nat.exists_eq_add_of_lt short
        exact ⟨_, rfl, .ended (by rw [List.length_cons]; omega) stops⟩
    have continues : ¬(character = 10#8 ∨ character = 1#8) :=
      not_or.mpr (plain character List.mem_cons_self)
    rw [List.cons_append] at typed
    have rest := @induction (kernel.withTyped (line ++ (ended ++ later)))
      (buffer.set loop character) left (loop + 1) character
      (by rw [List.length_set]; omega) shorter
      (fun other member => plain other (List.mem_cons_of_mem _ member))
      rfl
    refine (run_bind_ok (run_getChar typed)).trans ?_
    rw [if_neg continues, run_bind_ok (run_setChar (by omega) character),
      rest, set_line line (by omega), List.length_cons, List.cons_append, List.getLastD_cons,
      show loop + 1 + line.length = loop + (line.length + 1) by omega]
    rfl

theorem run_consoleRead {line ended later buffer : List Byte}
    {numBytes : Word} (room : numBytes.toInt.toNat ≤ buffer.length)
    (ends : LineEnd numBytes.toInt.toNat line ended)
    (plain : Unended line)
    (typed : kernel.shared.rest.typed = line ++ (ended ++ later)) :
    (consoleRead buffer numBytes).run
      (device heap fresh unset) kernel =
        .ok ((if (line ++ ended).getLastD unset = 1#8 then -1#32 else BitVec.ofNat 32 line.length,
          line ++ List.replicate (numBytes.toInt.toNat - line.length) 0#8 ++
            buffer.drop numBytes.toInt.toNat), kernel.withTyped later) := by
  generalize counts : numBytes.toInt.toNat = count at room ends ⊢
  have read := @run_getChars heap fresh unset kernel line ended later
    (List.replicate count 0#8 ++ buffer.drop count) count 0 unset (by simp)
    ends plain typed
  have short : line.length ≤ count := by
    cases ends <;> omega
  rw [List.take_zero, List.nil_append, Nat.zero_add,
    List.drop_append_of_le_length (by rw [List.length_replicate]; omega),
    List.drop_replicate, ← List.append_assoc] at read
  unfold consoleRead
  rw [counts, if_neg (not_lt.mpr room)]
  refine (run_bind_ok (run_host _)).trans
    ((run_bind_ok (run_host _)).trans ((run_bind_ok read).trans ?_))
  simp only
  split <;> rfl

theorem getLastD_plain {line : List Byte} (nonempty : line ≠ []) (plain : Unended line) :
    line.getLastD unset ≠ 1#8 := by
  rw [List.getLastD_eq_getLast?, List.getLast?_eq_some_getLast nonempty]
  exact (plain _ (List.getLast_mem nonempty)).2

/-- `SynchConsole::Read` leaves a line and NULs behind it.  It returns the
length of the line, unless the line is ended by CTRL-A or nothing has been
asked for. -/
theorem consoleRead_ends {buffer : List Byte} {numBytes : Word}
    (room : numBytes.toInt.toNat ≤ buffer.length) :
    (consoleRead buffer numBytes).Ends (device heap fresh unset) kernel
      (fun result after => ∃ line typed,
        result.2 = line ++
          List.replicate (numBytes.toInt.toNat - line.length) 0#8 ++
            buffer.drop numBytes.toInt.toNat ∧
        (result.1 = -1#32 ∨ result.1 = BitVec.ofNat 32 line.length) ∧
        after = kernel.withTyped typed ∧
        (line.length = numBytes.toInt.toNat ∧
            kernel.shared.rest.typed = line ++ typed ∧
            (line ≠ [] → result.1 = BitVec.ofNat 32 line.length) ∨
          line.length < numBytes.toInt.toNat ∧
            ∃ ending, (ending = 10#8 ∨ ending = 1#8) ∧
              kernel.shared.rest.typed = line ++ ending :: typed))
      (fun reason => reason = .blocked ∧
        kernel.shared.rest.typed.length < numBytes.toInt.toNat) := by
  rcases exists_line numBytes.toInt.toNat kernel.shared.rest.typed with
    ⟨line, ended, later, ends, plain, typed⟩ | ⟨short, plain⟩
  · rw [ends_of_ok (run_consoleRead room ends plain typed)]
    refine ⟨line, later, rfl, ite_eq_or_eq .., rfl, ?_⟩
    cases ends with
    | full whole =>
      rw [List.append_nil]
      exact .inl ⟨whole, typed, fun nonempty => if_neg (getLastD_plain nonempty plain)⟩
    | ended short ends => exact .inr ⟨short, _, ends, typed⟩
  · rw [consoleRead, if_neg (not_lt.mpr room)]
    refine (ends_bind_ok (run_host _)).mpr ((ends_bind_ok (run_host _)).mpr
      ((ends_bind_error (run_getChars_blocked _ _ _ ?_ short plain)).mpr ⟨rfl, short⟩))
    simp

theorem run_consoleRead_line {line later buffer : List Byte}
    {numBytes : Word} (room : numBytes.toInt.toNat ≤ buffer.length)
    (short : line.length < numBytes.toInt.toNat)
    (plain : Unended line)
    (typed : kernel.shared.rest.typed = line ++ 10#8 :: later) :
    (consoleRead buffer numBytes).run
      (device heap fresh unset) kernel =
        .ok ((BitVec.ofNat 32 line.length,
          line ++ List.replicate (numBytes.toInt.toNat - line.length) 0#8 ++
            buffer.drop numBytes.toInt.toNat), kernel.withTyped later) := by
  rw [run_consoleRead room (.ended short (.inl rfl)) plain typed, List.getLastD_concat,
    if_neg (by decide)]

theorem run_charAt_inside {buffer : List Byte} {index : Nat}
    {character : Byte} (found : buffer[index]? = some character) :
    (charAt buffer index).run (device heap fresh unset) kernel = .ok (character, kernel) := by
  rw [charAt, found]
  rfl

theorem run_putChars {buffer : List Byte} (left start : Nat) (room : start + left ≤ buffer.length) :
    (putChars buffer left start).run (device heap fresh unset) kernel = .ok ((), kernel) := by
  induction left generalizing start with
  | zero => rfl
  | succ left induction =>
    have inside : start < buffer.length := by omega
    rw [putChars, run_bind_ok (run_charAt_inside (List.getElem?_eq_getElem inside))]
    exact (run_bind_ok (run_host _)).trans (induction (start + 1) (by omega))

theorem run_consoleWrite {buffer : List Byte} {start : Nat} {numBytes : Word}
    (room : start + numBytes.toInt.toNat ≤ buffer.length) :
    (consoleWrite buffer start numBytes).run (device heap fresh unset) kernel = .ok ((), kernel) :=
  (run_bind_ok (run_host _)).trans (run_putChars _ start room)

/-! ## Files -/

section Files

variable {id : Fin maxOpenFiles} {file : StubFile} {name : CString}
  {position : Nat} {contents : List Byte}

theorem run_tell (slot : kernel.shared.openf id = some file) :
    (getCurrentPos id).run (device heap fresh unset)
      kernel = .ok (kernel.shared.rest.unix.tell file.file, kernel.positioned id file) :=
  (run_bind_ok (run_openFileAt slot)).trans
    ((run_bind_ok (run_host _)).trans (run_bind_ok (run_writeOpenf id _)))

variable (fileAt : kernel.FileAt id file name position contents)
include fileAt

theorem tell_fileAt : kernel.shared.rest.unix.tell file.file = BitVec.ofNat 32 position := by
  simp only [Unix.tell, fileAt.opened]

theorem fileAt_positioned : (kernel.positioned id file).FileAt id
      { file with currentOffset := BitVec.ofNat 32 position } name position
      contents where
  slot := by
    simp only [Kernel.positioned, tell_fileAt fileAt]
    exact update_self _ _ _
  opened := fileAt.opened
  contents := fileAt.contents
  inRange := fileAt.inRange

/-- The seek at the start of `Read` and `Write`, to the position which
`GetCurrentPos` has just asked for. -/
theorem run_seek (offset : file.currentOffset = BitVec.ofNat 32 position) :
    (host (.lseek file.file file.currentOffset)).run
      (device heap fresh unset) kernel =
        .ok ((), kernel.withHostFiles (kernel.shared.rest.unix.setDescriptor
          file.file (some ⟨name, position⟩))) := by
  have value := toInt_ofNat_eq fileAt.inRange
  rw [run_host]
  simp only [deviceHost, Unix.lseek, fileAt.opened, offset, value,
    Int.natCast_nonneg, if_true, Int.toNat_natCast]
  rfl

theorem fileAt_seek : (kernel.withHostFiles (kernel.shared.rest.unix.setDescriptor file.file
      (some ⟨name, position⟩))).FileAt id file name position contents where
  slot := fileAt.slot
  opened := Unix.descriptor_setDescriptor _
    (Unix.lt_of_descriptor fileAt.opened) _
  contents := (congrFun (Unix.setDescriptor_files _ _ _) name).trans fileAt.contents
  inRange := fileAt.inRange

variable (offset : file.currentOffset = BitVec.ofNat 32 position) {buffer : List Byte}
  {numBytes : Word}
include offset

theorem run_writeFile_of {unix : Unix}
    (written : (kernel.shared.rest.unix.setDescriptor file.file (some ⟨name, position⟩)).writeFile
      file.file buffer numBytes = .ok unix) :
    (writeFile id buffer numBytes).run (device heap fresh unset) kernel =
      .ok (numBytes, (kernel.withHostFiles unix).withFile id (some
        { file with currentOffset := file.currentOffset + numBytes })) := by
  have ran : (host (.writeFile file.file buffer numBytes)).run (device heap fresh unset)
      (kernel.withHostFiles (kernel.shared.rest.unix.setDescriptor
        file.file (some ⟨name, position⟩))) =
        .ok ((), kernel.withHostFiles unix) := by
    rw [run_host]
    simp only [deviceHost, Kernel.withHostFiles, written]
    rfl
  exact (run_bind_ok (run_openFileAt fileAt.slot)).trans
    ((run_bind_ok (run_seek fileAt offset)).trans
      ((run_bind_ok ran).trans (run_bind_ok (run_writeOpenf id _))))

theorem run_writeFile_at (nonnegative : 0 ≤ numBytes.toInt)
    (enough : numBytes.toNat ≤ buffer.length) :
    ∃ unix, (writeFile id buffer numBytes).run
        (device heap fresh unset) kernel =
          .ok (numBytes, (kernel.withHostFiles unix).withFile id (some
            { file with currentOffset := file.currentOffset + numBytes })) ∧
      unix.files = update kernel.shared.rest.unix.files name (some (Unix.overwrite contents position
          (buffer.take numBytes.toNat))) ∧
      unix.descriptor file.file =
        some ⟨name, position + numBytes.toNat⟩ ∧
      ∀ other, other ≠ file.file →
        unix.descriptor other = kernel.shared.rest.unix.descriptor other := by
  have sought := fileAt_seek fileAt
  obtain ⟨unix, written, files, moved, kept⟩ := Unix.writeFile_effect
    sought.opened sought.contents nonnegative enough
  refine ⟨unix, run_writeFile_of fileAt offset written, ?_, moved, ?_⟩
  · rw [files]
    simp only [Kernel.withHostFiles, Unix.setDescriptor_files]
  · intro other different
    rw [kept other different]
    exact Unix.descriptor_setDescriptor_of_ne _ different _

/-- A write of `-1` bytes fails, as the caller expects. -/
theorem run_writeFile_negative : ∃ unix, (writeFile id buffer (-1#32)).run
        (device heap fresh unset) kernel = .ok (-1#32, (kernel.withHostFiles unix).withFile id (some
            { file with currentOffset := file.currentOffset + -1#32 })) := by
  have negative : (-1#32).toInt < 0 := by decide
  refine ⟨kernel.shared.rest.unix.setDescriptor file.file (some ⟨name, position⟩),
    run_writeFile_of fileAt offset ?_⟩
  simp only [Unix.writeFile, Unix.descriptor_setDescriptor _ (Unix.lt_of_descriptor fileAt.opened),
    Unix.setDescriptor_files, fileAt.contents, if_pos negative, if_true]

/-- `OpenFile::Read` into a buffer of at least the size asked for.  What has
been read is what the position has moved by. -/
theorem run_readFile_at (room : numBytes.toInt.toNat ≤ buffer.length) :
    ∃ numRead stored unix offset, ∃ count : Nat, (readFile id buffer numBytes).run
        (device heap fresh unset) kernel =
          .ok ((numRead, stored), (kernel.withHostFiles unix).withFile id
            (some { file with currentOffset := offset })) ∧
      stored.length = buffer.length ∧ count ≤ buffer.length ∧
      (0 < numRead.toInt → numRead.toInt = count ∧
        unix.descriptor file.file = some ⟨name, position + count⟩) := by
  have sought := fileAt_seek fileAt
  obtain ⟨numRead, bytes, unix, read, few, moved⟩ :=
    Unix.readPartial_effect sought.opened sought.contents numBytes
  have ran : (host (.readPartial file.file numBytes)).run (device heap fresh unset)
      (kernel.withHostFiles (kernel.shared.rest.unix.setDescriptor
        file.file (some ⟨name, position⟩))) =
        .ok ((numRead, bytes), kernel.withHostFiles unix) := by
    rw [run_host]
    simp only [deviceHost, read]
    rfl
  refine ⟨numRead, bytes ++ buffer.drop bytes.length, unix,
    file.currentOffset + numRead, bytes.length, ?_, ?_, by omega, moved⟩
  · refine (run_bind_ok (run_openFileAt fileAt.slot)).trans
      ((run_bind_ok (run_seek fileAt offset)).trans ((run_bind_ok ran).trans ?_))
    simp only [if_neg (not_lt.mpr (few.trans room))]
    exact run_bind_ok (run_writeOpenf id _)
  · rw [List.length_append, List.length_drop]
    omega

end Files

end Devices

end Handler

end Nachos
