import Nachos.Userprog.HandlerCalls
import Nachos.Userprog.UnixFiles
import Nachos.Userprog.UserCopy

/-!
# Writing a file and reading it back

A program writes bytes to a file, closes it, opens it again and reads the
bytes back.  Both ways go through the copy routines for C strings, so what
follows the first NUL is lost.
-/

open Words Memory Calls Program Function

namespace Nachos

namespace Kernel

def withUnix (kernel : Kernel Unix) (unix : Unix) : Kernel Unix :=
  { kernel with shared := kernel.shared.withUnix unix }

def withFile {σ : Type} (kernel : Kernel σ) (id : Fin maxOpenFiles)
    (file : Option StubFile) : Kernel σ :=
  { kernel with shared := { kernel.shared with
    openf := update kernel.shared.openf id file } }

def withRegister {σ : Type} (kernel : Kernel σ) (num : Register) (value : Word) : Kernel σ :=
  { kernel with registers := update kernel.registers num value }

@[simp] theorem withRegister_self {σ : Type} (kernel : Kernel σ)
    (num : Register) (value : Word) :
    (kernel.withRegister num value).registers num = value := by
  simp only [withRegister, update_self]

/-- The file object in a slot is open for the file `name`, which has the
given contents. -/
structure OpenAt (kernel : Kernel Unix) (id : Fin maxOpenFiles)
    (file : StubFile) (name : CString) (position : Nat)
    (contents : List Byte) : Prop where
  slot : kernel.shared.openf id = some file
  opened : kernel.shared.rest.descriptor file.file = some ⟨name, position⟩
  contents : kernel.shared.rest.files name = some contents

/-- Only the table of open files and the files of the host matter. -/
theorem OpenAt.congr {before after : Kernel Unix} {id : Fin maxOpenFiles}
    {file : StubFile} {name : CString} {position : Nat}
    {contents : List Byte}
    (openAt : before.OpenAt id file name position contents)
    (openf : after.shared.openf = before.shared.openf)
    (unix : after.shared.rest = before.shared.rest) :
    after.OpenAt id file name position contents where
  slot := by rw [openf, openAt.slot]
  opened := by rw [unix, openAt.opened]
  contents := by rw [unix, openAt.contents]

end Kernel

namespace Handler

variable {σ : Type} {environment : Environment σ} {kernel : Kernel σ}

theorem run_readRegister (num : Register) :
    (readRegister num).run (Kernel.answer environment) kernel =
      .ok (kernel.registers num, kernel) := rfl

theorem run_writeRegister (num : Register) (value : Word) :
    (writeRegister num value).run (Kernel.answer environment) kernel =
      .ok ((), kernel.withRegister num value) := rfl

theorem run_readOpenf (id : Fin maxOpenFiles) :
    (readOpenf id).run (Kernel.answer environment) kernel =
      .ok (kernel.shared.openf id, kernel) := rfl

theorem run_writeOpenf (id : Fin maxOpenFiles) (file : Option StubFile) :
    (writeOpenf id file).run (Kernel.answer environment) kernel =
      .ok ((), kernel.withFile id file) := rfl

theorem run_readArguments {α : Type} (next : Word → Word → Word → KernelProgram α) : (do
      let first ← readRegister r4
      let second ← readRegister r5
      let third ← readRegister r6
      next first second third).run (Kernel.answer environment) kernel =
        (next (kernel.registers r4) (kernel.registers r5)
          (kernel.registers r6)).run (Kernel.answer environment) kernel :=
  rfl

theorem run_nonNull {α : Type} (value : α) :
    (nonNull (some value)).run (Kernel.answer environment) kernel = .ok (value, kernel) := rfl

theorem run_openFileAt {id : Fin maxOpenFiles} {file : StubFile}
    (slot : kernel.shared.openf id = some file) :
    (openFileAt id).run (Kernel.answer environment) kernel = .ok (file, kernel) := by
  unfold openFileAt
  rw [run_bind_ok (run_readOpenf id), slot, run_nonNull]

/-- `SC_Read` from where it has a buffer. -/
def readIn (id : Fin maxOpenFiles) (oldPos virtAddr charcount : Word)
    (buf : List Byte) : KernelProgram Unit := do
  let file ← openFileAt id
  if file.type = 2#32 then
    let (size, buf) ← consoleRead buf charcount
    let _ ← systemToUser virtAddr size buf
    writeRegister r2 size
  else
    let (numRead, buf) ← readFile id buf charcount
    if 0 < numRead.toInt then
      let newPos ← getCurrentPos id
      let _ ← systemToUser virtAddr (newPos - oldPos) buf
      writeRegister r2 (newPos - oldPos)
    else writeRegister r2 (-2#32)

/-- `SC_Write` from where it has a buffer. -/
def writeOut (id : Fin maxOpenFiles) (oldPos charcount : Word)
    (buf : List Byte) : KernelProgram Bool := do
  let file ← openFileAt id
  if file.type = 0#32 then
    let numWritten ← writeFile id buf charcount
    if 0 < numWritten.toInt then
      let newPos ← getCurrentPos id
      writeRegister r2 (newPos - oldPos)
      return true
    else return false
  else if file.type = 3#32 then
    let i ← writeLine buf (buf.length + 1) 0
    let buf ← setChar buf i 10#8
    consoleWrite buf i 1#32
    writeRegister r2 (BitVec.ofNat 32 i - 1#32)
    return true
  else return false

section Accepted

variable {id : Fin maxOpenFiles} {file : StubFile} {oldPos : Word} {middle : Kernel σ}
  (index : fileIndex (kernel.registers r6) = some id)
  (slot : kernel.shared.openf id = some file)
  (asked : (getCurrentPos id).run (Kernel.answer environment) kernel = .ok (oldPos, middle))

include index slot asked

theorem run_scRead_accepted (readable : file.type ≠ 3#32) :
    scRead.run (Kernel.answer environment) kernel =
      (userToSystem (kernel.registers r4) (kernel.registers r5) >>=
        fun buffer => nonNull buffer >>= readIn id oldPos
          (kernel.registers r4) (kernel.registers r5)).run
        (Kernel.answer environment) middle := by
  refine (run_readArguments _).trans ?_
  simp only [index]
  refine (run_bind_ok (run_readOpenf id)).trans ?_
  simp only [slot, if_neg readable]
  exact run_bind_ok asked

theorem run_scWriteBody_accepted (writable : ¬(file.type = 1#32 ∨ file.type = 2#32)) :
    scWriteBody.run (Kernel.answer environment) kernel =
      (userToSystem (kernel.registers r4) (kernel.registers r5) >>=
        fun buffer => nonNull buffer >>= writeOut id oldPos (kernel.registers r5)).run
        (Kernel.answer environment) middle := by
  refine (run_readArguments _).trans ?_
  simp only [index]
  refine (run_bind_ok (run_readOpenf id)).trans ?_
  simp only [slot, if_neg writable]
  exact run_bind_ok asked

end Accepted

theorem run_exceptionHandler {call : Syscall} {middle : Kernel σ}
    (code : Syscall.ofCode (kernel.registers r2) = some call)
    (ran : (syscallCase call).run (Kernel.answer environment) kernel = .ok ((), middle)) :
    ∃ after, (exceptionHandler .syscallException).run
        (Kernel.answer environment) kernel = .ok ((), after) ∧
      after.shared = middle.shared ∧
      after.registers r2 = middle.registers r2 := by
  rw [exceptionHandler_eq, run_bind_ok (run_readRegister r2), dispatch_some code, run_bind_ok ran]
  refine ⟨_, rfl, rfl, ?_⟩
  have notNext : r2 ≠ Register.nextPCReg := by decide
  have notCurrent : r2 ≠ Register.pcReg := by decide
  have notPrevious : r2 ≠ Register.prevPCReg := by decide
  simp only [update_of_ne notNext, update_of_ne notCurrent, update_of_ne notPrevious]

end Handler

namespace Handler

/-- The kernel on a host with these files. -/
abbrev onUnix (fresh : Nat → Byte) (other : Environment Unix) :
    Interpreter KernelCall KernelCall.Reply (Kernel Unix) Departure :=
  Kernel.answer (unixHost fresh other)

variable {fresh : Nat → Byte} {other : Environment Unix}
  {kernel : Kernel Unix} {id : Fin maxOpenFiles} {file : StubFile}
  {name : CString} {position : Nat} {contents : List Byte}

theorem allocates_unixHost : Allocates (unixHost fresh other) :=
  fun _ _ => ⟨fresh, rfl⟩

section

variable {buffer : List Byte} {numBytes : Word}
  (openAt : kernel.OpenAt id file name position contents)
include openAt

theorem run_getCurrentPos :
    (getCurrentPos id).run (onUnix fresh other) kernel =
      .ok (BitVec.ofNat 32 position, kernel.withFile id
        (some { file with currentOffset := BitVec.ofNat 32 position })) := by
  have told : (host (.tell file.file)).run (onUnix fresh other) kernel =
      .ok (BitVec.ofNat 32 position, kernel) := by
    rw [run_host]
    simp only [unixHost, Unix.tell, openAt.opened]
  exact (run_bind_ok (run_openFileAt openAt.slot)).trans
    ((run_bind_ok told).trans (run_bind_ok (run_writeOpenf id _)))

variable (offset : file.currentOffset.toInt = position)
include offset

theorem run_lseek :
    ∃ unix, (host (.lseek file.file file.currentOffset)).run (onUnix fresh other) kernel =
          .ok ((), kernel.withUnix unix) ∧
      (kernel.withUnix unix).OpenAt id file name position contents := by
  obtain ⟨unix, sought, files, opened⟩ :=
    Unix.lseek_same openAt.opened offset
  refine ⟨unix, ?_, openAt.slot, opened, ?_⟩
  · rw [run_host]
    simp only [unixHost, sought]
    rfl
  · exact (congrFun files name).trans openAt.contents

variable (nonnegative : 0 ≤ numBytes.toInt)
include nonnegative

theorem run_writeFile (enough : numBytes.toNat ≤ buffer.length) :
    ∃ after file', (writeFile id buffer numBytes).run (onUnix fresh other) kernel =
          .ok (numBytes, after) ∧
      after.registers = kernel.registers ∧
      after.OpenAt id file' name (position + numBytes.toNat)
        (Unix.overwrite contents position (buffer.take numBytes.toNat)) := by
  obtain ⟨unix, sought, openAt'⟩ :=
    @run_lseek fresh other _ _ _ _ _ _ openAt offset
  obtain ⟨unix', written, stored, opened⟩ := Unix.writeFile_all
    openAt'.opened openAt'.contents nonnegative enough
  have ran : (host (.writeFile file.file buffer numBytes)).run (onUnix fresh other)
      (kernel.withUnix unix) = .ok ((), kernel.withUnix unix') := by
    rw [run_host]
    simp only [unixHost, written]
    rfl
  refine ⟨_, { file with currentOffset := file.currentOffset + numBytes },
    (run_bind_ok (run_openFileAt openAt.slot)).trans
      ((run_bind_ok sought).trans ((run_bind_ok ran).trans
        (run_bind_ok (run_writeOpenf id _)))), rfl, ?_⟩
  exact ⟨update_self _ _ _, opened, stored⟩

theorem run_readFile (room : numBytes.toNat ≤ buffer.length)
    (enough : position + numBytes.toNat ≤ contents.length) :
    ∃ after file', (readFile id buffer numBytes).run (onUnix fresh other) kernel =
          .ok ((numBytes, (contents.drop position).take numBytes.toNat ++
            buffer.drop numBytes.toNat), after) ∧
      after.registers = kernel.registers ∧
      after.shared.mainMemory = kernel.shared.mainMemory ∧
      after.shared.mmu = kernel.shared.mmu ∧
      after.OpenAt id file' name (position + numBytes.toNat) contents := by
  obtain ⟨unix, sought, openAt'⟩ :=
    @run_lseek fresh other _ _ _ _ _ _ openAt offset
  obtain ⟨unix', read, files, opened⟩ := Unix.readPartial_all
    openAt'.opened openAt'.contents nonnegative enough
  have ran : (host (.readPartial file.file numBytes)).run (onUnix fresh other)
      (kernel.withUnix unix) =
        .ok ((numBytes, (contents.drop position).take numBytes.toNat), kernel.withUnix unix') := by
    rw [run_host]
    simp only [unixHost, read]
    rfl
  have length : ((contents.drop position).take numBytes.toNat).length =
      numBytes.toNat := by
    rw [List.length_take, List.length_drop]
    omega
  refine ⟨(kernel.withUnix unix').withFile id
      (some { file with currentOffset := file.currentOffset + numBytes }),
    { file with currentOffset := file.currentOffset + numBytes },
    (run_bind_ok (run_openFileAt openAt.slot)).trans
      ((run_bind_ok sought).trans ((run_bind_ok ran).trans ?_)),
    rfl, rfl, rfl, ?_⟩
  · simp only [length, if_neg (not_lt.mpr room)]
    exact run_bind_ok (run_writeOpenf id _)
  · exact ⟨update_self _ _ _, opened, (congrFun files name).trans openAt'.contents⟩

end

/-! ## The four calls -/

theorem fileIndex_ofNat (id : Fin maxOpenFiles) : fileIndex (BitVec.ofNat 32 id.val) = some id := by
  revert id
  decide

theorem OpenAt.withMmu (openAt : kernel.OpenAt id file name position contents) (mmu : Mmu) :
    (kernel.withMmu mmu).OpenAt id file name position contents :=
  openAt.congr rfl rfl

theorem OpenAt.withFile (openAt : kernel.OpenAt id file name position contents) (offset : Word) :
    (kernel.withFile id (some { file with currentOffset := offset })).OpenAt
      id { file with currentOffset := offset } name position contents :=
  ⟨update_self _ _ _, openAt.opened, openAt.contents⟩

theorem run_scWrite {virtAddr charcount : Word} {bytes : List Byte}
    (first : kernel.registers r4 = virtAddr)
    (second : kernel.registers r5 = charcount)
    (third : kernel.registers r6 = BitVec.ofNat 32 id.val)
    (openAt : kernel.OpenAt id file name 0 contents)
    (readWrite : file.type = 0#32)
    (count : charcount.toNat = bytes.length) (nonempty : bytes ≠ [])
    (small : bytes.length + 1 < 2 ^ 31)
    (holds : kernel.Holds virtAddr bytes) :
    ∃ after file', scWrite.run (onUnix fresh other) kernel = .ok ((), after) ∧
      after.registers r2 = charcount ∧
      after.OpenAt id file' name bytes.length (cut bytes ++ contents.drop bytes.length) := by
  obtain ⟨type, descriptor, oldOffset⟩ := file
  obtain rfl : type = 0#32 := readWrite
  have positive := List.length_pos_iff.mpr nonempty
  have value : charcount.toInt = bytes.length := by
    rw [BitVec.toInt_eq_toNat_of_lt (by omega), count]
  have placed := OpenAt.withFile openAt 0#32
  obtain ⟨mmu, -, copied⟩ := @run_userToSystem _ (unixHost fresh other)
    (kernel.withFile id (some ⟨0#32, descriptor, 0#32⟩))
    allocates_unixHost virtAddr charcount bytes count small holds
  obtain ⟨after, file', written, registers, openAt'⟩ :=
    @run_writeFile fresh other _ _ _ _ _ _ (cut bytes ++ [0#8]) charcount
      (OpenAt.withMmu placed mmu) rfl (by omega) (by simp [count])
  rw [count, List.take_left' (cut_length bytes), Nat.zero_add] at openAt'
  have moved := OpenAt.withFile openAt' (BitVec.ofNat 32 bytes.length)
  refine ⟨(after.withFile id (some { file' with
      currentOffset := BitVec.ofNat 32 bytes.length })).withRegister r2
        (BitVec.ofNat 32 bytes.length - BitVec.ofNat 32 0),
    { file' with currentOffset := BitVec.ofNat 32 bytes.length },
    ?_, ?_, moved.slot, moved.opened, ?_⟩
  · refine (run_bind_ok (?_ : scWriteBody.run _ kernel = .ok (true, _))).trans rfl
    rw [run_scWriteBody_accepted (third ▸ fileIndex_ofNat id) openAt.slot (run_getCurrentPos openAt)
      (show ¬(0#32 = 1#32 ∨ 0#32 = 2#32) by decide), first, second]
    refine (run_bind_ok copied).trans ((run_bind_ok (run_nonNull _)).trans
      ((run_bind_ok (run_openFileAt (OpenAt.withMmu placed mmu).slot)).trans ?_))
    simp only [if_true]
    refine (run_bind_ok written).trans ?_
    rw [if_pos (by omega)]
    exact (run_bind_ok (run_getCurrentPos openAt')).trans (run_bind_ok (run_writeRegister r2 _))
  · simp only [Kernel.withRegister, update_self, BitVec.sub_zero]
    rw [← count, BitVec.ofNat_toNat, BitVec.setWidth_eq]
  · refine moved.contents.trans ?_
    simp only [Unix.overwrite_of_le (Nat.zero_le _), List.take_zero, List.nil_append, Nat.zero_add,
      cut_length]

theorem run_scClose (first : kernel.registers r4 = BitVec.ofNat 32 id.val)
    (openAt : kernel.OpenAt id file name position contents) :
    ∃ after, scClose.run (onUnix fresh other) kernel =
        .ok ((), after) ∧
      after.shared.rest.files = kernel.shared.rest.files ∧
      ∃ index, after.shared.rest.descriptors index = none := by
  have inside := Unix.lt_of_descriptor openAt.opened
  have closed : kernel.shared.rest.close file.file =
      .ok (kernel.shared.rest.setDescriptor file.file none) := by
    simp only [Unix.close, openAt.opened]
  have ran : (host (.close file.file)).run (onUnix fresh other) kernel = .ok ((),
        kernel.withUnix (kernel.shared.rest.setDescriptor file.file none)) := by
    rw [run_host]
    simp only [unixHost, closed]
    rfl
  refine ⟨((kernel.withUnix (kernel.shared.rest.setDescriptor file.file
    none)).withFile id none).withRegister r2 0#32, ?_,
    Unix.setDescriptor_files _ _ _, ⟨file.file.toNat, inside⟩, ?_⟩
  · refine (run_bind_ok (run_readRegister r4)).trans ?_
    simp only [first, fileIndex_ofNat]
    refine (run_bind_ok (run_readOpenf id)).trans ?_
    simp only [openAt.slot]
    exact (run_bind_ok ran).trans ((run_bind_ok (run_writeOpenf id none)).trans rfl)
  · have free := Unix.descriptor_setDescriptor kernel.shared.rest inside none
    rw [Unix.descriptor, dif_pos inside] at free
    exact free

theorem run_findFreeSlotFrom (slots : List (Fin maxOpenFiles)) :
    (findFreeSlotFrom slots).run (onUnix fresh other) kernel =
      .ok (slots.find? fun index => (kernel.shared.openf index).isNone, kernel) := by
  induction slots with
  | nil => rfl
  | cons index rest induction =>
    unfold findFreeSlotFrom
    refine (run_bind_ok (run_readOpenf index)).trans ?_
    cases slot : kernel.shared.openf index with
    | none => simp [slot]
    | some file =>
      simp only [List.find?_cons, slot, Option.isNone_some]
      exact induction

theorem cString_cut (bytes : List Byte) :
    cString (cut bytes ++ [0#8]) = bytes.takeWhile (· ≠ 0#8) := by
  induction bytes with
  | nil => rfl
  | cons first rest induction =>
    unfold cut
    by_cases zero : first = 0#8
    · simp [cString, zero, List.replicate_succ]
    · unfold cString at induction ⊢
      rw [if_neg zero, List.cons_append, List.takeWhile_cons, List.takeWhile_cons, induction]

/-- A name as it stands in the memory of the program. -/
def paddedName (name : CString) : List Byte :=
  name ++ List.replicate (maxNameLength.toNat - name.length) 0#8

theorem takeWhile_paddedName (proper : ∀ character ∈ name, character ≠ 0#8) :
    (paddedName name).takeWhile (· ≠ 0#8) = name := by
  unfold paddedName
  rw [List.takeWhile_append_of_pos (by simpa using proper)]
  cases maxNameLength.toNat - name.length with
  | zero => simp
  | succ count => simp [List.replicate_succ]

theorem mem_slots : ∀ slot : Fin maxOpenFiles, 2 ≤ slot.val →
    slot ∈ (List.finRange maxOpenFiles).drop 2 := by
  decide

theorem run_openFile {index : Fin openMax} (unused : kernel.shared.rest.descriptors index = none)
    (stored : kernel.shared.rest.files name = some contents) :
    ∃ descriptor unix, (openFile name 0#32).run (onUnix fresh other) kernel =
          .ok (some ⟨0#32, descriptor, 0#32⟩, kernel.withUnix unix) ∧
      unix.descriptor descriptor = some ⟨name, 0⟩ ∧
      unix.files name = some contents := by
  obtain ⟨descriptor, available, small⟩ := Unix.freeDescriptor_isSome unused
  have opened : kernel.shared.rest.openForReadWrite name =
      (descriptor, kernel.shared.rest.setDescriptor descriptor (some ⟨name, 0⟩)) := by
    simp only [Unix.openForReadWrite, stored, available]
  have valid : descriptor ≠ -1#32 := by
    rintro rfl
    exact absurd small (by decide)
  have asked : (host (.openForReadWrite name)).run (onUnix fresh other) kernel =
      .ok (descriptor, kernel.withUnix
        (kernel.shared.rest.setDescriptor descriptor (some ⟨name, 0⟩))) := by
    rw [run_host]
    simp only [unixHost, opened]
    rfl
  refine ⟨descriptor, _, (run_bind_ok asked).trans ?_,
    Unix.descriptor_setDescriptor _ small _,
    (congrFun (Unix.setDescriptor_files _ _ _) name).trans stored⟩
  rw [if_neg valid]
  rfl

theorem run_scOpen {virtAddr : Word} {slot : Fin maxOpenFiles} {index : Fin openMax}
    (first : kernel.registers r4 = virtAddr)
    (second : kernel.registers r5 = 0#32)
    (short : name.length ≤ maxNameLength.toNat)
    (proper : ∀ character ∈ name, character ≠ 0#8)
    (holds : kernel.Holds virtAddr (paddedName name))
    (beyond : 2 ≤ slot.val) (free : kernel.shared.openf slot = none)
    (unused : kernel.shared.rest.descriptors index = none)
    (stored : kernel.shared.rest.files name = some contents) :
    ∃ after id file, scOpen.run (onUnix fresh other) kernel = .ok ((), after) ∧
      after.registers r2 = BitVec.ofNat 32 id.val ∧
      file.type = 0#32 ∧ after.OpenAt id file name 0 contents := by
  have length : (paddedName name).length = 32 := by
    unfold paddedName
    rw [List.length_append, List.length_replicate]
    exact Nat.add_sub_cancel' short
  obtain ⟨mmu, -, copied⟩ := @run_userToSystem _ (unixHost fresh other)
    kernel allocates_unixHost virtAddr maxNameLength (paddedName name)
    length.symm (by rw [length]; decide) holds
  cases found : ((List.finRange maxOpenFiles).drop 2).find? fun index =>
      (kernel.shared.openf index).isNone with
  | none =>
    have used := List.find?_eq_none.mp found slot (mem_slots slot beyond)
    rw [free] at used
    exact absurd rfl used
  | some id =>
    have searched := @run_findFreeSlotFrom fresh other
      (kernel.withMmu mmu) ((List.finRange maxOpenFiles).drop 2)
    rw [show (kernel.withMmu mmu).shared.openf = kernel.shared.openf from rfl, found] at searched
    obtain ⟨descriptor, unix, ran, opened, stored⟩ := @run_openFile fresh
      other (kernel.withMmu mmu) _ _ _ unused stored
    refine ⟨(((kernel.withMmu mmu).withUnix unix).withFile id
        (some ⟨0#32, descriptor, 0#32⟩)).withRegister r2
          (BitVec.ofNat 32 id.val), id, ⟨0#32, descriptor, 0#32⟩,
      ?_, Kernel.withRegister_self _ _ _, rfl, update_self _ _ _,
      opened, stored⟩
    refine (run_bind_ok (run_readRegister r4)).trans ((run_bind_ok (run_readRegister r5)).trans ?_)
    simp only [first, second]
    refine (run_bind_ok copied).trans ((run_bind_ok searched).trans ?_)
    simp only [true_or, if_true]
    refine (run_bind_ok (run_nonNull _)).trans ?_
    rw [cString_cut, takeWhile_paddedName proper]
    exact (run_bind_ok ran).trans ((run_bind_ok (run_writeOpenf id _)).trans rfl)

theorem run_scRead {virtAddr charcount : Word} {place : Nat → Nat}
    (first : kernel.registers r4 = virtAddr)
    (second : kernel.registers r5 = charcount)
    (third : kernel.registers r6 = BitVec.ofNat 32 id.val)
    (openAt : kernel.OpenAt id file name 0 contents)
    (readWrite : file.type = 0#32) (nonzero : charcount.toNat ≠ 0)
    (enough : charcount.toNat ≤ contents.length)
    (cells : Cells kernel.shared.mmu virtAddr charcount.toNat true place) :
    ∃ after, scRead.run (onUnix fresh other) kernel =
        .ok ((), after) ∧
      after.registers r2 = charcount ∧
      after.shared.mmu.mapping = kernel.shared.mmu.mapping ∧
      after.shared.mainMemory = storeString place
        (contents.take charcount.toNat) 0 kernel.shared.mainMemory := by
  obtain ⟨type, descriptor, oldOffset⟩ := file
  obtain rfl : type = 0#32 := readWrite
  have bounded := cells.count_le
  rw [show memorySize = 65536 from rfl] at bounded
  have value : charcount.toInt = charcount.toNat :=
    BitVec.toInt_eq_toNat_of_lt (by omega)
  have placed := OpenAt.withFile openAt 0#32
  obtain ⟨mmu, same, copied⟩ := @run_userToSystem _ (unixHost fresh other)
    (kernel.withFile id (some ⟨0#32, descriptor, 0#32⟩))
    allocates_unixHost virtAddr charcount
    (cellBytes kernel.shared.mainMemory place charcount.toNat)
    (cellBytes_length _ _ _).symm (by rw [cellBytes_length]; omega)
    (Cells.holds cells)
  obtain ⟨middle, file', read, registers, memory, translation, openAt'⟩ :=
    @run_readFile fresh other _ _ _ _ _ _
      (cut (cellBytes kernel.shared.mainMemory place charcount.toNat) ++ [0#8]) charcount
      (OpenAt.withMmu placed mmu) rfl (by omega) (by simp) (by omega)
  rw [List.drop_zero] at read
  rw [Nat.zero_add] at openAt'
  have length : (contents.take charcount.toNat).length =
      charcount.toNat := by
    rw [List.length_take]
    omega
  have mapped : middle.shared.mmu.mapping = kernel.shared.mmu.mapping :=
    (congrArg Mmu.mapping translation).trans same
  obtain ⟨mmu', same', stored⟩ := @run_systemToUser _
    (unixHost fresh other) (middle.withFile id (some { file' with
      currentOffset := BitVec.ofNat 32 charcount.toNat }))
    virtAddr charcount place (contents.take charcount.toNat) _
    length.symm (by
      intro empty
      rw [empty, List.length_nil] at length
      exact nonzero length.symm) (by omega) (by
      intro index inside
      rw [length] at inside
      exact (cells.congr mapped).located index inside)
  have whole : BitVec.ofNat 32 charcount.toNat - BitVec.ofNat 32 0 =
      charcount := by
    rw [BitVec.sub_zero, BitVec.ofNat_toNat, BitVec.setWidth_eq]
  refine ⟨(((middle.withFile id (some { file' with
      currentOffset := BitVec.ofNat 32 charcount.toNat })).withMmu
        mmu').withMemory _).withRegister r2 charcount, ?_,
    Kernel.withRegister_self _ _ _, same'.trans mapped,
    congrArg (storeString place (contents.take charcount.toNat) 0) memory⟩
  rw [run_scRead_accepted (third ▸ fileIndex_ofNat id) openAt.slot
    (run_getCurrentPos openAt) (show 0#32 ≠ 3#32 by decide), first, second]
  refine (run_bind_ok copied).trans ((run_bind_ok (run_nonNull _)).trans
    ((run_bind_ok (run_openFileAt (OpenAt.withMmu placed mmu).slot)).trans ?_))
  simp only
  rw [if_neg (by decide)]
  refine (run_bind_ok read).trans ?_
  simp only
  rw [if_pos (by omega)]
  refine (run_bind_ok (run_getCurrentPos openAt')).trans ?_
  rw [whole]
  exact (run_bind_ok stored).trans (run_writeRegister r2 charcount)

/-- The handler of a system call returns, in a state with the given
property. -/
def Returns (environment : Environment Unix) (kernel : Kernel Unix)
    (Post : Kernel Unix → Prop) : Prop :=
  ∃ after, (exceptionHandler .syscallException).run
    (Kernel.answer environment) kernel = .ok ((), after) ∧ Post after

/-- What the program asks for. -/
structure Requests (kernel : Kernel Unix) (code first second third : Word) :
    Prop where
  code : kernel.registers r2 = code
  first : kernel.registers r4 = first
  second : kernel.registers r5 = second
  third : kernel.registers r6 = third

/-- The program runs on, up to its next system call.  The registers and the
memory can change, but neither the table of open files nor the files of the
host. -/
structure Continues (before after : Kernel Unix)
    (code first second third : Word) : Prop where
  openf : after.shared.openf = before.shared.openf
  unix : after.shared.rest = before.shared.rest
  requests : Requests after code first second third

theorem Returns.of_run (call : Syscall) {middle : Kernel Unix} {Post : Kernel Unix → Prop}
    (code : Syscall.ofCode (kernel.registers r2) = some call)
    (ran : (syscallCase call).run (onUnix fresh other) kernel = .ok ((), middle))
    (established : ∀ after : Kernel Unix, after.shared = middle.shared →
      after.registers r2 = middle.registers r2 → Post after) :
    Returns (unixHost fresh other) kernel Post := by
  obtain ⟨after, returned, shared, result⟩ := run_exceptionHandler code ran
  exact ⟨after, returned, established after shared result⟩

/-- The bytes which come back: those of the file up to its first NUL, and
behind it what was in memory before. -/
theorem cellBytes_storeString {mmu : Mmu} {virtAddr : Word}
    {place : Nat → Nat} (bytes : List Byte) (memory : Nat → Byte)
    (cells : Cells mmu virtAddr bytes.length true place) :
    cellBytes (storeString place (cut bytes) 0 memory) place bytes.length =
        bytes ↔
      ∀ index, index < bytes.length → Ended bytes index →
        memory (place index) = bytes.getD index 0#8 := by
  rw [eq_iff_getD (cellBytes_length _ _ _)]
  refine forall_congr' fun index => forall_congr' fun inside => ?_
  have stored := storeString_at cells.distinct (cut bytes) 0 memory
    (by rw [cut_length, Nat.zero_add]) (by rw [cut_length]; exact inside)
  simp only [Nat.zero_add, ended_cut, cut_getD] at stored
  rw [cellBytes_getD _ _ inside, stored]
  by_cases ended : Ended bytes index
  · simp [ended]
  · simp [ended]

/-- Bytes written to a file, and read back after it has been closed and
opened again, are the same if and only if neither the bytes nor the memory
they are read into have anything but NULs behind the first NUL. -/
theorem read_back_iff (fresh : Nat → Byte) (other : Environment Unix)
    (name : CString) (short : name.length ≤ maxNameLength.toNat)
    (proper : ∀ character ∈ name, character ≠ 0#8)
    (bytes : List Byte) (nonempty : bytes ≠ [])
    (start : Kernel Unix) (id : Fin maxOpenFiles) (file : StubFile)
    (contents : List Byte) (openAt : start.OpenAt id file name 0 contents)
    (readWrite : file.type = 0#32) (virtAddr : Word) (source : Nat → Nat)
    (request : Requests start 7#32 virtAddr (BitVec.ofNat 32 bytes.length) (BitVec.ofNat 32 id.val))
    (cells : Cells start.shared.mmu virtAddr bytes.length false source)
    (held : cellBytes start.shared.mainMemory source bytes.length = bytes) :
    Returns (unixHost fresh other) start fun written =>
      ∀ closing second third,
        Continues written closing 8#32 (BitVec.ofNat 32 id.val) second third →
      Returns (unixHost fresh other) closing fun closed =>
      ∀ opening nameAddr third slot,
        Continues closed opening 5#32 nameAddr 0#32 third →
        opening.Holds nameAddr (paddedName name) →
        2 ≤ slot.val → opening.shared.openf slot = none →
      Returns (unixHost fresh other) opening fun opened =>
      ∀ reading virtAddr' target, Continues opened reading 6#32 virtAddr'
          (BitVec.ofNat 32 bytes.length) (opened.registers r2) →
        Cells reading.shared.mmu virtAddr' bytes.length true target →
      Returns (unixHost fresh other) reading fun final =>
        Cells final.shared.mmu virtAddr' bytes.length true target ∧
        ((written.shared.rest.beginning name bytes.length = some bytes ∧
            final.registers r2 = BitVec.ofNat 32 bytes.length ∧
            cellBytes final.shared.mainMemory target bytes.length = bytes) ↔
          ∀ index, index < bytes.length → Ended bytes index →
            bytes.getD index 0#8 = 0#8 ∧ reading.shared.mainMemory (target index) = 0#8) := by
  have bounded := cells.count_le
  rw [show memorySize = 65536 from rfl] at bounded
  have count : (BitVec.ofNat 32 bytes.length).toNat = bytes.length := by
    rw [BitVec.toNat_ofNat]
    exact Nat.mod_eq_of_lt (by omega)
  have holds := cells.holds
  rw [held] at holds
  obtain ⟨written, file', ran, -, openAt'⟩ := @run_scWrite fresh other _ _ _
    _ _ _ _ _ request.first request.second request.third openAt readWrite
    count nonempty (by omega) holds
  refine Returns.of_run .write (by rw [request.code]; rfl) ran ?_
  rintro afterWrite shared - closing second third ⟨openf, unix, request⟩
  have openClosing : closing.OpenAt id file' name bytes.length
      (cut bytes ++ contents.drop bytes.length) :=
    openAt'.congr (by rw [openf, shared]) (by rw [unix, shared])
  obtain ⟨closed, ran, files, index, free⟩ :=
    @run_scClose fresh other _ _ _ _ _ _ request.first openClosing
  refine Returns.of_run .close (by rw [request.code]; rfl) ran ?_
  rintro afterClose sharedClose - opening nameAddr third slot
    ⟨openf', unix', request⟩ named beyond unused
  obtain ⟨opened, id', file'', ran, result, readWrite', openAt''⟩ :=
    @run_scOpen fresh other _ _ _ _ _ index request.first request.second
      short proper named beyond unused (by
        rw [unix', sharedClose]
        exact free) (by
        rw [unix', sharedClose, files]
        exact openClosing.contents)
  refine Returns.of_run .open (by rw [request.code]; rfl) ran ?_
  rintro afterOpen sharedOpen resultOpen reading virtAddr' target ⟨openf'', unix'', request⟩ cells'
  have openReading : reading.OpenAt id' file'' name 0 (cut bytes ++ contents.drop bytes.length) :=
    openAt''.congr (by rw [openf'', sharedOpen])
      (by rw [unix'', sharedOpen])
  obtain ⟨final, ran, value, mapped, memory⟩ :=
    @run_scRead fresh other _ _ _ _ _ _ _ _ request.first request.second
      (request.third.trans (resultOpen.trans result)) openReading readWrite'
      (by rw [count]; exact (List.length_pos_iff.mpr nonempty).ne')
      (by rw [count]; simp) (by rw [count]; exact cells')
  refine Returns.of_run .read (by rw [request.code]; rfl) ran ?_
  intro afterRead sharedRead resultRead
  rw [count, List.take_left' (cut_length bytes)] at memory
  rw [sharedRead, resultRead, value, memory]
  refine ⟨cells'.congr mapped, ?_⟩
  have stored : afterWrite.shared.rest.beginning name bytes.length = some (cut bytes) := by
    rw [shared, Unix.beginning, openAt'.contents, Option.map_some,
      List.take_left' (cut_length bytes)]
  rw [stored, Option.some.injEq, cut_eq_iff, cellBytes_storeString bytes _ cells']
  constructor
  · rintro ⟨zeros, -, kept⟩ index inside ended
    have zero := zeros index inside ended
    exact ⟨zero, (kept index inside ended).trans zero⟩
  · intro zeros
    refine ⟨fun index inside ended => (zeros index inside ended).1, rfl,
      fun index inside ended => ?_⟩
    rw [(zeros index inside ended).1, (zeros index inside ended).2]

/-- The host has the empty file `f`, which is open as descriptor 5. -/
def oneFile : Unix where
  files := fun name => if name = [102#8] then some [] else none
  descriptors := fun index =>
    if index.val = 5 then some ⟨[102#8], 0⟩ else none

def filesOnly : Environment Unix :=
  unixHost (fun _ => 0#8) fun _ _ => .error .blocked

def asking (shared : Shared Unix) (code first second third : Word) : Kernel Unix where
  registers := update (update (update (update (fun _ => 0#32) r2 code) r4 first) r5 second) r6 third
  shared := shared

/-- The program has the bytes `A`, NUL, `B` at address 0, the name `f` at
address 4, and `x` in all of a buffer at address 8. -/
def sharedWithBytes : Shared Unix where
  mainMemory := fun address =>
    [65#8, 0#8, 66#8, 0#8, 102#8, 0#8].getD address 120#8
  mmu := ⟨some [⟨0#32, 0#32, true, false, false, false⟩], none⟩
  openf := fun id => if id.val = 2 then some ⟨0#32, 5#32, 0#32⟩ else none
  semTab := .new (fun _ => 0#32) fun _ => .null
  rest := oneFile

def writerOf (count : Word) : Kernel Unix :=
  asking sharedWithBytes 7#32 0#32 count 2#32

/-- Two pages, in frames of the other order. -/
def twoPages : List TranslationEntry :=
  [⟨0#32, 1#32, true, false, false, false⟩, ⟨1#32, 0#32, true, false, false, false⟩]

/-- The program writes `ABCD`, of which two bytes are at the end of its first
page and two at the start of its second one. -/
def writerAcross : Kernel Unix :=
  asking { sharedWithBytes with
    mainMemory := update (update (update (update (fun _ => 0#8) 1022 65#8) 1023 66#8) 0 67#8) 1 68#8
    mmu := ⟨some twoPages, none⟩ } 7#32 510#32 4#32 2#32

theorem cells_writerAcross : Cells writerAcross.shared.mmu 510#32 4 false
    fun index => [1022, 1023, 0, 1].getD index 0 := by
  constructor
  · intro index inside
    interval_cases index <;> rfl
  · decide

theorem read_back_iff_across_pages :
    Returns filesOnly writerAcross fun written =>
      ∀ closing second third,
        Continues written closing 8#32 2#32 second third →
      Returns filesOnly closing fun closed =>
      ∀ opening nameAddr third slot,
        Continues closed opening 5#32 nameAddr 0#32 third →
        opening.Holds nameAddr (paddedName [102#8]) →
        2 ≤ slot.val → opening.shared.openf slot = none →
      Returns filesOnly opening fun opened =>
      ∀ reading virtAddr' target,
        Continues opened reading 6#32 virtAddr' 4#32 (opened.registers r2) →
        Cells reading.shared.mmu virtAddr' 4 true target →
      Returns filesOnly reading fun final =>
        written.shared.rest.beginning [102#8] 4 = some [65#8, 66#8, 67#8, 68#8] ∧
          final.registers r2 = 4#32 ∧
          cellBytes final.shared.mainMemory target 4 = [65#8, 66#8, 67#8, 68#8] := by
  obtain ⟨written, ran, next⟩ := read_back_iff (fun _ => 0#8)
    (fun _ _ => .error .blocked) [102#8] (by decide) (by decide) [65#8, 66#8, 67#8, 68#8]
    (by decide) writerAcross ⟨2, by decide⟩ ⟨0#32, 5#32, 0#32⟩ []
    ⟨rfl, rfl, rfl⟩ rfl 510#32 _ ⟨rfl, rfl, rfl, rfl⟩ cells_writerAcross (by decide)
  refine ⟨written, ran, fun closing second third continues => ?_⟩
  obtain ⟨closed, ran, next⟩ := next closing second third continues
  refine ⟨closed, ran, ?_⟩
  intro opening nameAddr third slot continues named beyond unused
  obtain ⟨opened, ran, next⟩ :=
    next opening nameAddr third slot continues named beyond unused
  refine ⟨opened, ran, fun reading virtAddr' target continues cells => ?_⟩
  obtain ⟨final, ran, -, same⟩ :=
    next reading virtAddr' target continues cells
  refine ⟨final, ran, same.mpr ?_⟩
  intro index inside ended
  obtain ⟨earlier, before, nul⟩ := ended
  have nulFree : ∀ earlier < 4, [65#8, 66#8, 67#8, 68#8].getD earlier 0#8 ≠ 0#8 := by decide
  exact absurd nul (nulFree earlier (before.trans inside))

/-- The program makes the four calls one after another, with the bytes at
address 0 and the buffer at address 8. -/
def fourCalls (count : Word) : Except Departure (Kernel Unix × Kernel Unix) := do
  let handler := (exceptionHandler .syscallException).run (Kernel.answer filesOnly)
  let (_, written) ← handler (writerOf count)
  let (_, closed) ← handler (asking written.shared 8#32 2#32 0#32 0#32)
  let (_, opened) ← handler (asking closed.shared 5#32 4#32 0#32 0#32)
  let (_, final) ← handler (asking opened.shared 6#32 8#32 count (opened.registers r2))
  return (written, final)

/-- Of `A`, NUL, `B` the file gets `A` and two NULs, and the last byte of the
buffer stays `x`. -/
theorem byte_behind_nul_lost : ((fourCalls 3#32).map fun (written, final) =>
      (written.shared.rest.beginning [102#8] 3, final.registers r2,
        cellBytes final.shared.mainMemory (8 + ·) 3)).toOption =
    some (some [65#8, 0#8, 0#8], 3#32, [65#8, 0#8, 120#8]) := by
  decide +kernel

end Handler

end Nachos
