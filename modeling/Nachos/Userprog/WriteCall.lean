import Nachos.Userprog.Host

/-!
# The system call `Write`

A call of `Write` for a file which is open for reading and writing should
return the number of bytes by which the position of the file has moved, and
no call of `Write` has anything to do with the input of the console.  A call
which writes no byte does not leave its case, however, and goes on with
`SC_ReadInt`.
-/

open Words Memory Calls Program Function

namespace Nachos

namespace Handler

/-- The id names no file which can be written. -/
def WriteRejected (kernel : Kernel Host) : Prop :=
  ∀ id file, fileIndex (kernel.registers r6) = some id →
    kernel.shared.openf id = some file →
    file.type = 1#32 ∨ file.type = 2#32

/-- The call leaves the case of `SC_Write` at its end. -/
def FallsThrough (heap : Nat) (kernel : Kernel Host) : Prop :=
  ∃ id file, fileIndex (kernel.registers r6) = some id ∧
    kernel.shared.openf id = some file ∧
    file.type ≠ 1#32 ∧ file.type ≠ 2#32 ∧ file.type ≠ 3#32 ∧
    (file.type = 0#32 → (kernel.registers r5).toInt ≤ 0) ∧
    Honours heap (kernel.registers r5 + 1#32) ∧
    kernel.Readable (kernel.registers r4) (kernel.registers r5).toInt.toNat

/-- Every call but that for a character of the console. -/
def LeavesInput : KernelCall → Prop
  | .host .getChar => False
  | _ => True

/-- The call has moved the position of a file by the number in register 2.
Besides the file, its position and the program counters everything is as
before. -/
structure MovesFile (before after : Kernel Host) (id : Fin maxOpenFiles)
    (file : StubFile) : Prop where
  moved : ∃ name old new,
    before.shared.rest.unix.descriptor file.file = some ⟨name, old⟩ ∧
    after.shared.rest.unix.descriptor file.file = some ⟨name, new⟩ ∧
    (after.registers r2).toInt = (new : Int) - old ∧
    ∀ other, other ≠ name → after.shared.rest.unix.files other = before.shared.rest.unix.files other
  slot : ∃ offset, after.shared.openf id = some { file with currentOffset := offset }
  slots : ∀ other, other ≠ id → after.shared.openf other = before.shared.openf other
  descriptors : ∀ other, other ≠ file.file →
    after.shared.rest.unix.descriptor other = before.shared.rest.unix.descriptor other
  registers : ∀ register, register ≠ r2 → register ≠ .prevPCReg →
    register ≠ .pcReg → register ≠ .nextPCReg →
    after.registers register = before.registers register
  memory : after.shared.mainMemory = before.shared.mainMemory
  mapping : after.shared.mmu.mapping = before.shared.mmu.mapping
  semaphores : after.shared.semTab = before.shared.semTab
  typed : after.shared.rest.typed = before.shared.rest.typed

theorem MovesFile.advanced {before after : Kernel Host} {id : Fin maxOpenFiles} {file : StubFile}
    (moves : MovesFile before after id file) :
    MovesFile before after.advanced id file where
  moved := by
    obtain ⟨name, old, new, opened, moved, result, others⟩ := moves.moved
    refine ⟨name, old, new, opened, moved, ?_, others⟩
    rw [Kernel.advanced_registers _ (by decide) (by decide) (by decide)]
    exact result
  slot := moves.slot
  slots := moves.slots
  descriptors := moves.descriptors
  registers := by
    intro register notResult notPrevious notCurrent notNext
    rw [Kernel.advanced_registers _ notPrevious notCurrent notNext]
    exact moves.registers register notResult notPrevious notCurrent notNext
  memory := moves.memory
  mapping := moves.mapping
  semaphores := moves.semaphores
  typed := moves.typed

theorem MovesFile.of_positioned {kernel after : Kernel Host}
    {id : Fin maxOpenFiles} {file : StubFile} {mmu : Mmu} {offset : Word}
    (same : mmu.mapping = kernel.shared.mmu.mapping)
    (moves : MovesFile ((kernel.positioned id file).withMmu mmu) after id
      { file with currentOffset := offset }) :
    MovesFile kernel after id file where
  moved := moves.moved
  slot := moves.slot
  slots := by
    intro other different
    exact (moves.slots other different).trans (update_of_ne different _ _)
  descriptors := moves.descriptors
  registers := moves.registers
  memory := moves.memory
  mapping := moves.mapping.trans same
  semaphores := moves.semaphores
  typed := moves.typed

section Calls

variable {heap : Nat} {fresh : Nat → Byte} {unset : Byte}
  {kernel : Kernel Host} {id : Fin maxOpenFiles} {file : StubFile}
  {name : CString} {position : Nat} {contents buffer : List Byte}
  {charcount : Word}

/-! ## The parts of the case -/

theorem run_scWriteBody_rejected (rejected : WriteRejected kernel) :
    scWriteBody.run (device heap fresh unset) kernel =
      .ok (true, kernel.withRegister r2 (-1#32)) := by
  refine (run_readArguments _).trans ?_
  cases index : fileIndex (kernel.registers r6) with
  | none => rfl
  | some id =>
    refine (run_bind_ok (run_readOpenf id)).trans ?_
    cases slot : kernel.shared.openf id with
    | none => rfl
    | some file =>
      simp only [if_pos (rejected id file index slot)]
      rfl

theorem run_scWriteBody (index : fileIndex (kernel.registers r6) = some id)
    (slot : kernel.shared.openf id = some file)
    (writable : ¬(file.type = 1#32 ∨ file.type = 2#32)) :
    scWriteBody.run (device heap fresh unset) kernel =
      (userToSystem (kernel.registers r4) (kernel.registers r5) >>=
        fun buffer => nonNull buffer >>= writeOut id
          (kernel.shared.rest.unix.tell file.file) (kernel.registers r5)).run
        (device heap fresh unset)
        (kernel.positioned id file) :=
  run_scWriteBody_accepted index slot (run_tell slot) writable

theorem slot_positioned {mmu : Mmu} :
    ((kernel.positioned id file).withMmu mmu).shared.openf id = some { file with
        currentOffset := kernel.shared.rest.unix.tell file.file } :=
  update_self _ _ _

/-- A write of at least one byte leaves the case by `break`, and a write of
no byte does not. -/
theorem writeOut_file (fileAt : kernel.FileAt id file name position contents)
    (offset : file.currentOffset = BitVec.ofNat 32 position)
    (readWrite : file.type = 0#32)
    (nonnegative : 0 ≤ (charcount + 1#32).toInt)
    (length : buffer.length = (charcount + 1#32).toNat) :
    (writeOut id (BitVec.ofNat 32 position) charcount buffer).Ends (device heap fresh unset) kernel
      (fun more after =>
        0 < charcount.toInt ∧ more = true ∧ MovesFile kernel after id file ∨
        charcount.toInt ≤ 0 ∧ more = false ∧ after.shared.rest.typed = kernel.shared.rest.typed)
      (fun _ => False) := by
  rw [writeOut, ends_bind_ok (run_openFileAt fileAt.slot), if_pos readWrite]
  rcases limit_cases nonnegative with ⟨minusOne, -⟩ | ⟨atLeastZero, size⟩
  · have same : charcount = -1#32 := BitVec.eq_of_toInt_eq minusOne
    subst same
    obtain ⟨unix, written⟩ := @run_writeFile_negative heap fresh unset _ _ _
      _ _ _ fileAt offset buffer
    rw [ends_bind_ok written, if_neg (by decide), ends_pure]
    exact Or.inr ⟨by decide, rfl, rfl⟩
  · have value := toInt_eq_toNat atLeastZero
    obtain ⟨unix, written, files, moved, kept⟩ := @run_writeFile_at heap
      fresh unset _ _ _ _ _ _ fileAt offset buffer charcount atLeastZero
      (by omega)
    rw [ends_bind_ok written]
    by_cases positive : 0 < charcount.toInt
    · rw [if_pos positive, ends_bind_ok (run_tell (update_self ..)),
        ends_bind_ok (run_writeRegister r2 _), ends_pure]
      refine Or.inl ⟨positive, rfl, ?_⟩
      constructor
      · refine ⟨name, position, position + charcount.toNat, fileAt.opened, moved, ?_, ?_⟩
        · rw [Kernel.withRegister_self]
          refine (congrArg BitVec.toInt (Unix.tell_sub moved)).trans ?_
          rw [BitVec.ofNat_toNat, BitVec.setWidth_eq]
          omega
        · intro other different
          exact (congrFun files other).trans (update_of_ne different _ _)
      · exact ⟨_, update_self ..⟩
      · intro other different
        exact (update_of_ne different _ _).trans (update_of_ne different _ _)
      · exact kept
      · intro register notResult _ _ _
        exact update_of_ne notResult _ _
      · rfl
      · rfl
      · rfl
      · rfl
    · rw [if_neg positive, ends_pure]
      exact Or.inr ⟨not_lt.mp positive, rfl, rfl⟩

theorem run_writeLine {limit : Nat} (ended : buffer[limit]? = some 0#8)
    (left i : Nat) (before : i ≤ limit) (rounds : limit < i + left) :
    ∃ last, last ≤ limit ∧ (writeLine buffer left i).run
        (device heap fresh unset) kernel = .ok (last, kernel) := by
  induction left generalizing i with
  | zero => omega
  | succ left induction =>
    have inside := (List.getElem?_eq_some_iff.mp ended).1
    have fetched := List.getElem?_eq_getElem (lt_of_le_of_lt before inside)
    rw [writeLine, run_bind_ok (run_charAt_inside fetched)]
    by_cases stops : buffer[i] = 0#8 ∨ buffer[i] = 10#8
    · exact ⟨i, before, by rw [if_pos stops]; rfl⟩
    · have different : i ≠ limit := by
        intro same
        subst same
        rw [ended] at fetched
        exact stops (Or.inl (Option.some.inj fetched).symm)
      have printed : (consoleWrite buffer i 1#32).run
          (device heap fresh unset) kernel = .ok ((), kernel) :=
        run_consoleWrite (by
          rw [show (1#32).toInt.toNat = 1 from rfl]
          omega)
      rw [if_neg stops, run_bind_ok printed]
      exact induction (i + 1) (by omega) (by omega)

section

variable (slot : kernel.shared.openf id = some file)
include slot

theorem writeOut_console (output : file.type = 3#32) {oldPos : Word} {limit : Nat}
    (ended : buffer[limit]? = some 0#8) :
    (writeOut id oldPos charcount buffer).Ends (device heap fresh unset) kernel
      (fun more _ => more = true) (fun _ => False) := by
  have inside := (List.getElem?_eq_some_iff.mp ended).1
  obtain ⟨last, before, printed⟩ := @run_writeLine heap fresh unset kernel
    buffer limit ended (buffer.length + 1) 0 (Nat.zero_le _) (by omega)
  have finished : (consoleWrite (buffer.set last 10#8) last 1#32).run
      (device heap fresh unset) kernel = .ok ((), kernel) :=
    run_consoleWrite (by
      rw [show (1#32).toInt.toNat = 1 from rfl, List.length_set]
      omega)
  rw [writeOut, ends_bind_ok (run_openFileAt slot),
    if_neg (by rw [output]; decide), if_pos output, ends_bind_ok printed,
    ends_bind_ok (run_setChar (by omega) _), ends_bind_ok finished,
    ends_bind_ok (run_writeRegister r2 _), ends_pure]

/-- Without a character there is not even a NUL to stop at. -/
theorem run_writeOut_empty (output : file.type = 3#32) (oldPos : Word) :
    (writeOut id oldPos charcount []).run
      (device heap fresh unset) kernel = .error (.fault .bounds) := by
  rw [writeOut, run_bind_ok (run_openFileAt slot), if_neg (by rw [output]; decide), if_pos output]
  rfl

theorem run_writeOut_other (notFile : file.type ≠ 0#32) (notOutput : file.type ≠ 3#32)
    (oldPos : Word) :
    (writeOut id oldPos charcount buffer).run
      (device heap fresh unset) kernel = .ok (false, kernel) := by
  rw [writeOut, run_bind_ok (run_openFileAt slot), if_neg notFile, if_neg notOutput]
  rfl

end

/-! ## The case -/

section Accepted

variable (index : fileIndex (kernel.registers r6) = some id)
  (slot : kernel.shared.openf id = some file)
  (writable : ¬(file.type = 1#32 ∨ file.type = 2#32))

include index slot writable

theorem scWriteBody_refused (refused : ¬Honours heap (kernel.registers r5 + 1#32)) :
    ∃ reason : Departure, reason.KernelFailure ∧
      scWriteBody.run (device heap fresh unset) kernel =
        .error reason := by
  rw [run_scWriteBody index slot writable]
  exact userToSystem_refused refused _

/-- The case copies the string and goes on with it, or the machine halts. -/
theorem scWriteBody_ends {post : Bool → Kernel Host → Prop} {stops : Departure → Prop}
    (honours : Honours heap (kernel.registers r5 + 1#32))
    (ready : kernel.machine.Ready)
    (halts : ¬kernel.Readable (kernel.registers r4)
      (kernel.registers r5).toInt.toNat → stops .halted)
    (continues : ∀ buffer mmu, mmu.mapping = kernel.shared.mmu.mapping →
      buffer.length = (kernel.registers r5 + 1#32).toNat →
      (0 ≤ (kernel.registers r5).toInt →
        buffer[(kernel.registers r5).toInt.toNat]? = some 0#8) →
      kernel.Readable (kernel.registers r4)
        (kernel.registers r5).toInt.toNat →
      (writeOut id (kernel.shared.rest.unix.tell file.file)
        (kernel.registers r5) buffer).Ends (device heap fresh unset)
          ((kernel.positioned id file).withMmu mmu) post stops) :
    scWriteBody.Ends (device heap fresh unset) kernel
      post stops := by
  have readables := @Kernel.readable_congr _ kernel (kernel.positioned id file) rfl rfl
  rw [ends_congr (run_scWriteBody index slot writable), ends_bind]
  have copied := @userToSystem_ends heap fresh unset
    (kernel.positioned id file) (kernel.registers r4) _ honours ready
  refine copied.mono ?_ ?_
  · rintro _ after ⟨buffer, mmu, rfl, same, rfl, length, ended, readable⟩
    rw [ends_bind_ok (run_nonNull _)]
    exact continues buffer mmu same length ended ((readables _ _).mp readable)
  · rintro _ ⟨rfl, unreadable⟩
    exact halts fun readable => unreadable ((readables _ _).mpr readable)

end Accepted

section

variable (index : fileIndex (kernel.registers r6) = some id)
include index

theorem scWriteBody_file (fileAt : kernel.FileAt id file name position contents)
    (readWrite : file.type = 0#32) (ready : kernel.machine.Ready)
    (honours : Honours heap (kernel.registers r5 + 1#32)) :
    scWriteBody.Ends (device heap fresh unset) kernel (fun more after =>
        kernel.Readable (kernel.registers r4)
          (kernel.registers r5).toInt.toNat ∧
        (0 < (kernel.registers r5).toInt ∧ more = true ∧
            MovesFile kernel after id file ∨
          (kernel.registers r5).toInt ≤ 0 ∧ more = false ∧
            after.shared.rest.typed = kernel.shared.rest.typed))
      (fun reason => reason = .halted ∧ ¬kernel.Readable (kernel.registers r4)
          (kernel.registers r5).toInt.toNat) := by
  refine scWriteBody_ends index fileAt.slot (by rw [readWrite]; decide)
    honours ready (fun unreadable => ⟨rfl, unreadable⟩) ?_
  intro buffer mmu same length _ readable
  have placed := fileAt_positioned fileAt
  rw [tell_fileAt fileAt]
  refine (@writeOut_file heap fresh unset ((kernel.positioned id file).withMmu mmu) _ _ _ _ _ _ _
    ⟨placed.slot, placed.opened, placed.contents, placed.inRange⟩ rfl
    readWrite honours.1 length).mono ?_ (fun _ => False.elim)
  rintro more after (⟨positive, left, moves⟩ | fallen)
  · exact ⟨readable, Or.inl ⟨positive, left, MovesFile.of_positioned same moves⟩⟩
  · exact ⟨readable, Or.inr fallen⟩

theorem scWriteBody_console (slot : kernel.shared.openf id = some file) (output : file.type = 3#32)
    (ready : kernel.machine.Ready) (honours : Honours heap (kernel.registers r5 + 1#32)) :
    scWriteBody.Ends (device heap fresh unset) kernel
      (fun more _ => 0 ≤ (kernel.registers r5).toInt ∧ more = true)
      (fun reason => reason = .halted ∧ 0 ≤ (kernel.registers r5).toInt ∨
        reason = .fault .bounds ∧ (kernel.registers r5).toInt < 0) := by
  refine scWriteBody_ends index slot (by rw [output]; decide) honours ready ?_ ?_
  · intro unreadable
    refine Or.inl ⟨rfl, ?_⟩
    by_contra negative
    rw [Int.toNat_of_nonpos (by omega)] at unreadable
    exact unreadable trivial
  · intro buffer mmu same length ended readable
    rcases limit_cases honours.1 with ⟨minusOne, size⟩ | ⟨nonnegative, -⟩
    · rw [size] at length
      cases List.eq_nil_of_length_eq_zero length
      rw [ends_of_error (run_writeOut_empty slot_positioned output _)]
      exact Or.inr ⟨rfl, by omega⟩
    · refine (writeOut_console slot_positioned output
        (ended nonnegative)).mono ?_ (fun _ => False.elim)
      intro more _ left
      exact ⟨nonnegative, left⟩

theorem scWriteBody_other (slot : kernel.shared.openf id = some file)
    (writable : ¬(file.type = 1#32 ∨ file.type = 2#32)) (notFile : file.type ≠ 0#32)
    (notOutput : file.type ≠ 3#32) (ready : kernel.machine.Ready)
    (honours : Honours heap (kernel.registers r5 + 1#32)) :
    scWriteBody.Ends (device heap fresh unset) kernel (fun more after =>
        kernel.Readable (kernel.registers r4)
          (kernel.registers r5).toInt.toNat ∧
        more = false ∧
        after.shared.rest.typed = kernel.shared.rest.typed)
      (fun reason => reason = .halted ∧ ¬kernel.Readable (kernel.registers r4)
          (kernel.registers r5).toInt.toNat) := by
  refine scWriteBody_ends index slot writable honours ready (fun unreadable => ⟨rfl, unreadable⟩) ?_
  intro buffer mmu same length _ readable
  rw [ends_of_ok (run_writeOut_other slot_positioned notFile notOutput _)]
  exact ⟨readable, rfl, rfl⟩

end

/-! ## Where the case ends -/

theorem fallsThrough_of_run {after : Kernel Host}
    (ready : kernel.machine.Ready) (opened : kernel.FilesOpen)
    (fell : scWriteBody.run (device heap fresh unset) kernel = .ok (false, after)) :
    FallsThrough heap kernel := by
  by_cases rejected : WriteRejected kernel
  · rw [run_scWriteBody_rejected rejected] at fell
    cases fell
  · unfold WriteRejected at rejected
    push Not at rejected
    obtain ⟨id, file, index, slot, notRead, notInput⟩ := rejected
    have writable := not_or.mpr ⟨notRead, notInput⟩
    by_cases honours : Honours heap (kernel.registers r5 + 1#32)
    · by_cases output : file.type = 3#32
      · have ends := (ends_of_ok fell).mp (scWriteBody_console index slot output ready honours)
        cases ends.2
      · by_cases readWrite : file.type = 0#32
        · obtain ⟨name, position, contents, fileAt⟩ :=
            opened id file slot notInput output
          obtain ⟨readable, ⟨-, left, -⟩ | ⟨few, -, -⟩⟩ :=
            (ends_of_ok fell).mp (scWriteBody_file index fileAt readWrite ready honours)
          · cases left
          · exact ⟨id, file, index, slot, notRead, notInput, output,
              fun _ => few, honours, readable⟩
        · obtain ⟨readable, -, -⟩ := (ends_of_ok fell).mp
            (scWriteBody_other index slot writable readWrite output ready honours)
          exact ⟨id, file, index, slot, notRead, notInput, output,
            fun isFile => absurd isFile readWrite, honours, readable⟩
    · obtain ⟨reason, -, failed⟩ := @scWriteBody_refused heap fresh unset _ _
        _ index slot writable honours
      rw [failed] at fell
      cases fell

theorem FallsThrough.run (ready : kernel.machine.Ready)
    (opened : kernel.FilesOpen) (falls : FallsThrough heap kernel) :
    ∃ after, scWriteBody.run (device heap fresh unset)
        kernel = .ok (false, after) ∧
      after.shared.rest.typed = kernel.shared.rest.typed := by
  obtain ⟨id, file, index, slot, notRead, notInput, notOutput, few, honours, readable⟩ := falls
  by_cases readWrite : file.type = 0#32
  · obtain ⟨name, position, contents, fileAt⟩ :=
      opened id file slot notInput notOutput
    rcases (@scWriteBody_file heap fresh unset _ _ _ _ _ _ index fileAt
      readWrite ready honours).cases with
      ⟨more, after, ran, -, ⟨positive, -⟩ | ⟨-, rfl, typed⟩⟩ | ⟨reason, -, -, unreadable⟩
    · exact absurd positive (not_lt.mpr (few readWrite))
    · exact ⟨after, ran, typed⟩
    · exact absurd readable unreadable
  · rcases (@scWriteBody_other heap fresh unset _ _ _ index slot
      (not_or.mpr ⟨notRead, notInput⟩) readWrite notOutput ready
      honours).cases with
      ⟨more, after, ran, -, rfl, typed⟩ | ⟨reason, -, -, unreadable⟩
    · exact ⟨after, ran, typed⟩
    · exact absurd readable unreadable

/-! ## The input of the console -/

theorem LeavesInput.ne_getChar (operation : KernelCall)
    (leaves : LeavesInput operation) : operation ≠ .host .getChar := by
  rintro rfl
  exact leaves

theorem writeOut_leavesInput (oldPos : Word) :
    (writeOut id oldPos charcount buffer).OnlyCalls LeavesInput := by
  refine .bind (onlyCalls_openFileAt (fun _ => trivial) fun _ => trivial)
    fun file => .ite ?_ (.ite ?_ (.pure _))
  · exact .bind (onlyCalls_writeFile (fun _ => trivial) (fun _ => trivial)
      (fun _ => trivial) (fun _ _ => trivial) fun _ _ _ => trivial)
        fun _ => .ite (.bind (onlyCalls_getCurrentPos (fun _ => trivial)
          (fun _ => trivial) (fun _ => trivial) fun _ => trivial) fun _ =>
            .call trivial fun _ => .pure _) (.pure _)
  · exact .bind (onlyCalls_writeLine (fun _ => trivial) trivial
      fun _ => trivial) fun _ =>
        .bind (onlyCalls_setChar fun _ => trivial) fun _ =>
          .bind (onlyCalls_consoleWrite (fun _ => trivial) trivial
            fun _ => trivial) fun _ =>
              .call trivial fun _ => .pure _

theorem scWriteBody_leavesInput : scWriteBody.OnlyCalls LeavesInput := by
  refine .call trivial fun virtAddr => .call trivial fun charcount =>
      .call trivial fun id => ?_
  cases fileIndex id with
  | none => exact .call trivial fun _ => .pure _
  | some id =>
    refine .call trivial fun file => ?_
    cases file with
    | none => exact .call trivial fun _ => .pure _
    | some file =>
      refine .ite (.call trivial fun _ => .pure _) ?_
      exact .bind (onlyCalls_getCurrentPos (fun _ => trivial)
        (fun _ => trivial) (fun _ => trivial) fun _ => trivial)
          fun _ => .bind (onlyCalls_userToSystem (fun _ => trivial)
            (fun _ => trivial) fun _ _ => trivial) fun _ =>
              .bind (onlyCalls_lift fun _ => trivial) fun _ =>
                writeOut_leavesInput _

theorem scReadInt_reaches_iff : scReadInt.Reaches (device heap fresh unset)
      (· = .host .getChar) kernel ↔ 100 ≤ heap := by
  constructor
  · intro reaches
    by_contra small
    rcases reaches_bind.mp reaches with now | ⟨block, middle, made, later⟩
    · exact OnlyCalls.not_reaches LeavesInput.ne_getChar
        (onlyCalls_newBuffer (fun _ => trivial) fun _ => trivial) now
    · rcases @run_newBuffer_refused heap fresh unset kernel 100#32
        (fun honours => small honours.2) with failed | none
      · rw [failed] at made
        cases made
      · rw [none] at made
        cases made
        rcases reaches_bind.mp later with now | ⟨buffer, middle, used, -⟩
        · exact OnlyCalls.not_reaches LeavesInput.ne_getChar (onlyCalls_lift fun _ => trivial) now
        · cases used
  · intro enough
    refine reaches_bind_ok (run_newBuffer_honoured ⟨by decide, enough⟩)
      (reaches_bind_ok (run_nonNull _) (reaches_bind.mpr (Or.inl ?_)))
    unfold consoleRead
    rw [if_neg (by
      rw [List.length_map, List.length_range]
      decide)]
    refine reaches_bind_ok (run_host _) (reaches_bind_ok (run_host _)
      (reaches_bind.mpr (Or.inl (reaches_bind.mpr (Or.inl ?_)))))
    exact reaches_perform rfl

/-- A call of `Write` reads from the console if it falls through. -/
theorem write_reaches_iff (code : Syscall.ofCode (kernel.registers r2) = some .write)
    (ready : kernel.machine.Ready) (opened : kernel.FilesOpen) :
    (exceptionHandler .syscallException).Reaches (device heap fresh unset)
        (· = .host .getChar) kernel ↔
      100 ≤ heap ∧ FallsThrough heap kernel := by
  rw [exceptionHandler_eq]
  constructor
  · intro reaches
    rcases reaches_bind.mp reaches with now | ⟨type, start, read, later⟩
    · exact absurd now (OnlyCalls.not_reaches LeavesInput.ne_getChar (.perform trivial))
    · cases read
      rw [dispatch_some code] at later
      rcases reaches_bind.mp later with case | ⟨_, _, _, advancing⟩
      · rcases reaches_bind.mp case with body | ⟨more, middle, ran, rest⟩
        · exact absurd body (OnlyCalls.not_reaches LeavesInput.ne_getChar scWriteBody_leavesInput)
        · cases more with
          | true => exact rest.elim
          | false =>
            exact ⟨scReadInt_reaches_iff.mp rest, fallsThrough_of_run ready opened ran⟩
      · exact absurd advancing (OnlyCalls.not_reaches LeavesInput.ne_getChar
            (.call trivial fun _ => .call trivial fun _ =>
              .call trivial fun _ => .call trivial fun _ => .perform trivial))
  · rintro ⟨enough, falls⟩
    obtain ⟨middle, ran, -⟩ :=
      @FallsThrough.run heap fresh unset kernel ready opened falls
    refine reaches_bind_ok (run_readRegister r2) ?_
    rw [dispatch_some code]
    exact reaches_bind.mpr (Or.inl (reaches_bind_ok ran (scReadInt_reaches_iff.mpr enough)))

theorem scReadInt_refused (small : ¬100 ≤ heap) :
    ∃ reason : Departure, reason.KernelFailure ∧
      scReadInt.run (device heap fresh unset) kernel =
        .error reason :=
  newBuffer_refused (fun honours => small honours.2) _

end Calls

/-! ## The contract of the call -/

/-- No character of the console is read, and a call for a file which is open
for reading and writing returns by how much its position has moved. -/
def WriteContract (heap : Nat) (fresh : Nat → Byte) (unset : Byte) (kernel : Kernel Host) : Prop :=
  ¬(exceptionHandler .syscallException).Reaches (device heap fresh unset) (· = .host .getChar)
    kernel ∧
  ∀ id file, fileIndex (kernel.registers r6) = some id →
    kernel.shared.openf id = some file → file.type = 0#32 →
    (exceptionHandler .syscallException).Ends (device heap fresh unset) kernel
      (fun _ after => MovesFile kernel after id file) (fun _ => False)

section Contract

variable {heap : Nat} {fresh : Nat → Byte} {unset : Byte}
  {kernel : Kernel Host} {id : Fin maxOpenFiles} {file : StubFile}
  {name : CString} {position : Nat} {contents : List Byte}

/-- A call for a file which returns without reading from the console has
written. -/
theorem writes_of_returns (index : fileIndex (kernel.registers r6) = some id)
    (fileAt : kernel.FileAt id file name position contents)
    (readWrite : file.type = 0#32) (ready : kernel.machine.Ready)
    (unread : ¬(100 ≤ heap ∧ FallsThrough heap kernel))
    {post : Unit → Kernel Host → Prop}
    (returns : scWrite.Ends (device heap fresh unset) kernel post (fun _ => False)) :
    0 < (kernel.registers r5).toInt ∧
      Honours heap (kernel.registers r5 + 1#32) ∧
      kernel.Readable (kernel.registers r4) (kernel.registers r5).toInt.toNat := by
  have notRead : file.type ≠ 1#32 := by rw [readWrite]; decide
  have notInput : file.type ≠ 2#32 := by rw [readWrite]; decide
  have notOutput : file.type ≠ 3#32 := by rw [readWrite]; decide
  have honours : Honours heap (kernel.registers r5 + 1#32) := by
    by_contra refused
    obtain ⟨reason, -, failed⟩ := @scWriteBody_refused heap fresh unset _ _ _
      index fileAt.slot (not_or.mpr ⟨notRead, notInput⟩) refused
    exact (ends_bind_error failed).mp returns
  rcases (@scWriteBody_file heap fresh unset _ _ _ _ _ _ index fileAt
    readWrite ready honours).cases with
    ⟨more, after, ran, readable, ⟨positive, -⟩ | ⟨few, rfl, -⟩⟩ | ⟨reason, failed, -⟩
  · exact ⟨positive, honours, readable⟩
  · have small : ¬100 ≤ heap := by
      intro enough
      exact unread ⟨enough, id, file, index, fileAt.slot, notRead, notInput,
        notOutput, fun _ => few, honours, readable⟩
    obtain ⟨reason, -, failed⟩ :=
      @scReadInt_refused heap fresh unset after small
    exact ((ends_of_error failed).mp ((ends_bind_ok ran).mp returns)).elim
  · exact ((ends_bind_error failed).mp returns).elim

theorem returns_of_writes (code : Syscall.ofCode (kernel.registers r2) = some .write)
    (index : fileIndex (kernel.registers r6) = some id)
    (fileAt : kernel.FileAt id file name position contents)
    (readWrite : file.type = 0#32) (ready : kernel.machine.Ready)
    (positive : 0 < (kernel.registers r5).toInt)
    (honours : Honours heap (kernel.registers r5 + 1#32))
    (readable : kernel.Readable (kernel.registers r4) (kernel.registers r5).toInt.toNat) :
    (exceptionHandler .syscallException).Ends (device heap fresh unset) kernel
      (fun _ after => MovesFile kernel after id file) (fun _ => False) := by
  rw [exceptionHandler_ends code]
  refine ends_bind.mpr ((scWriteBody_file index fileAt readWrite ready honours).mono ?_ ?_)
  · rintro more after ⟨-, ⟨-, rfl, moves⟩ | ⟨few, -⟩⟩
    · rw [if_pos rfl, ends_pure]
      exact moves.advanced
    · exact absurd positive (not_lt.mpr few)
  · rintro reason ⟨-, unreadable⟩
    exact unreadable readable

end Contract

/-- A call of `Write` keeps its contract if and only if it writes at least one
byte to a file, with a buffer for the bytes and from memory which can be
read.  The type of a file is one of four; with another type the call would
fall through whatever it writes. -/
theorem write_contract_iff (heap : Nat) (fresh : Nat → Byte) (unset : Byte) (kernel : Kernel Host)
    (code : Syscall.ofCode (kernel.registers r2) = some .write)
    (ready : kernel.machine.Ready) (opened : kernel.FilesOpen) :
    WriteContract heap fresh unset kernel ↔
      ∀ id file, fileIndex (kernel.registers r6) = some id →
        kernel.shared.openf id = some file →
        (file.type = 0#32 →
          0 < (kernel.registers r5).toInt ∧
          Honours heap (kernel.registers r5 + 1#32) ∧
          kernel.Readable (kernel.registers r4)
            (kernel.registers r5).toInt.toNat) ∧
        (file.type ≠ 0#32 → file.type ≠ 1#32 → file.type ≠ 2#32 →
          file.type ≠ 3#32 →
          ¬(100 ≤ heap ∧ Honours heap (kernel.registers r5 + 1#32) ∧
            kernel.Readable (kernel.registers r4) (kernel.registers r5).toInt.toNat)) := by
  have opens {id : Fin maxOpenFiles} {file : StubFile} (slot : kernel.shared.openf id = some file)
      (readWrite : file.type = 0#32) :=
    opened id file slot (by rw [readWrite]; decide)
      (by rw [readWrite]; decide)
  unfold WriteContract
  rw [write_reaches_iff code ready opened]
  constructor
  · rintro ⟨unread, returns⟩ id file index slot
    constructor
    · intro readWrite
      obtain ⟨name, position, contents, fileAt⟩ := opens slot readWrite
      exact writes_of_returns index fileAt readWrite ready unread
        ((exceptionHandler_ends code).mp (returns id file index slot readWrite))
    · rintro notFile notRead notInput notOutput ⟨enough, honours, readable⟩
      exact unread ⟨enough, id, file, index, slot, notRead, notInput,
        notOutput, fun isFile => absurd isFile notFile, honours, readable⟩
  · intro condition
    constructor
    · rintro ⟨enough, id, file, index, slot, notRead, notInput, notOutput, few, honours, readable⟩
      obtain ⟨writes, stops⟩ := condition id file index slot
      by_cases readWrite : file.type = 0#32
      · exact absurd (writes readWrite).1 (not_lt.mpr (few readWrite))
      · exact stops readWrite notRead notInput notOutput ⟨enough, honours, readable⟩
    · intro id file index slot readWrite
      obtain ⟨positive, honours, readable⟩ :=
        (condition id file index slot).1 readWrite
      obtain ⟨name, position, contents, fileAt⟩ := opens slot readWrite
      exact returns_of_writes code index fileAt readWrite ready positive honours readable

/-- The console and the file `f`, which is open for reading and writing. -/
def consoleAndFile (typed : List Byte) : Shared Host :=
  { sharedWithBytes with
    openf := fun id => [some ⟨2#32, 3#32, 0#32⟩, some ⟨3#32, 4#32, 0#32⟩,
      some ⟨0#32, 5#32, 0#32⟩].getD id.val none
    rest := ⟨oneFile, typed⟩ }

/-- A program which makes a system call, with what is typed at the
console. -/
def requesting (typed : List Byte) (code first second third : Word) : Kernel Host where
  registers := (asking sharedWithBytes code first second third).registers
  shared := consoleAndFile typed

theorem requesting_ready (typed : List Byte) (code first second third : Word) :
    (requesting typed code first second third).machine.Ready where
  configured := rfl
  pending := show (0#32).toNat < numTotalRegs by decide

theorem requesting_filesOpen (typed : List Byte) (code first second third : Word) :
    (requesting typed code first second third).FilesOpen := by
  rintro ⟨_ | _ | _ | index, inside⟩ file slot notInput notOutput
  · cases slot
    exact absurd rfl notInput
  · cases slot
    exact absurd rfl notOutput
  · cases slot
    exact ⟨[102#8], 0, [], rfl, rfl, rfl, by decide⟩
  · cases slot

theorem write_contract_iff_one_byte : WriteContract 100 (fun _ => 0#8) 0#8
      (requesting [] 7#32 0#32 1#32 2#32) := by
  refine (write_contract_iff _ _ _ _ rfl (requesting_ready _ _ _ _ _)
    (requesting_filesOpen _ _ _ _ _)).mpr ?_
  intro id file index slot
  cases index
  cases slot
  refine ⟨fun _ => ⟨by decide, by decide, 0, rfl, fun _ => trivial⟩, ?_⟩
  intro notFile
  exact absurd rfl notFile

/-- Nothing is written: the call reads the line `12` from the console and
returns that number. -/
theorem empty_write_returns_typed_number : ¬WriteContract 100 (fun _ => 0#8) 0#8
        (requesting [49#8, 50#8, 10#8] 7#32 0#32 0#32 2#32) ∧
      (exceptionHandler .syscallException).Ends (Kernel.answer (deviceHost 100 (fun _ => 0#8) 0#8))
        (requesting [49#8, 50#8, 10#8] 7#32 0#32 0#32 2#32)
        (fun _ after => after.registers r2 = 12#32 ∧ after.shared.rest.typed = [])
        (fun _ => False) := by
  constructor
  · rintro ⟨unread, -⟩
    refine unread ((write_reaches_iff rfl (requesting_ready _ _ _ _ _)
      (requesting_filesOpen _ _ _ _ _)).mpr ⟨le_refl _, ?_⟩)
    exact ⟨⟨2, by decide⟩, ⟨0#32, 5#32, 0#32⟩, rfl, rfl, by decide, by decide,
      by decide, fun _ => by decide, by decide, trivial⟩
  · decide +kernel

end Handler

end Nachos
