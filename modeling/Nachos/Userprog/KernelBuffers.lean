import Nachos.Userprog.WriteCall

/-!
# The buffers of the system calls

Five system calls copy characters through a buffer of the kernel, three of
them with a size which the program gives.  A call keeps to its buffer unless
there is no block of that size, a string has no place for its NUL, or a
numeral fills the buffer of `SC_ReadInt`.
-/

open Words Memory Calls Program

namespace Nachos

namespace Handler

/-- The size of the buffer a call asks for. -/
def requested (kernel : Kernel Host) : Syscall → Option Word
  | .read => some (kernel.registers r5 + 1#32)
  | .write => some (kernel.registers r5 + 1#32)
  | .readInt => some 100#32
  | .readString => some (kernel.registers r5)
  | .printString => some (255#32 + 1#32 + 1#32)
  | _ => none

/-- The id names no file which can be read. -/
def ReadRejected (kernel : Kernel Host) : Prop :=
  ∀ id file, fileIndex (kernel.registers r6) = some id →
    kernel.shared.openf id = some file → file.type = 3#32

/-- The buffer of `SC_ReadInt` has room for the numeral and its end. -/
def NumeralFits (typed : List Byte) : Prop :=
  ¬(100 ≤ typed.length ∧ (typed.take 100).all isDigit = true)

def ReadIntFits (heap : Nat) (kernel : Kernel Host) : Prop :=
  100 ≤ heap ∧ NumeralFits kernel.shared.rest.typed

/-- A string for the console has a place for its NUL. -/
def RoomForNul (kernel : Kernel Host) : Prop :=
  ∀ id file, fileIndex (kernel.registers r6) = some id →
    kernel.shared.openf id = some file → file.type = 3#32 →
    0 ≤ (kernel.registers r5).toInt

/-- What a call needs to keep to its buffer.  `SC_Write` to the console needs
the place for a NUL, and when it falls through what `SC_ReadInt` needs. -/
def BuffersFit (heap : Nat) (kernel : Kernel Host) : Syscall → Prop
  | .read =>
    ReadRejected kernel ∨ Honours heap (kernel.registers r5 + 1#32)
  | .write =>
    WriteRejected kernel ∨
      Honours heap (kernel.registers r5 + 1#32) ∧ RoomForNul kernel ∧
      (FallsThrough heap kernel → ReadIntFits heap kernel)
  | .readInt => ReadIntFits heap kernel
  | .readString => Honours heap (kernel.registers r5)
  | .printString => Honours heap (255#32 + 1#32 + 1#32)
  | _ => True

/-- What `atoi` reads behind the blanks and the sign. -/
def unsigned (buffer : List Byte) : List Byte :=
  let text := buffer.dropWhile isSpace
  if text.head? = some 45#8 ∨ text.head? = some 43#8 then text.tail
  else text

section Calls

variable {heap : Nat} {fresh : Nat → Byte} {unset : Byte} {kernel : Kernel Host} {α : Type}

/-- A program which does not make the kernel fail. -/
def Sound (heap : Nat) (fresh : Nat → Byte) (unset : Byte)
    (program : KernelProgram α) (kernel : Kernel Host) : Prop :=
  program.Ends (device heap fresh unset) kernel
    (fun _ _ => True) (fun reason => ¬reason.KernelFailure)

/-! ## Strings and lines -/

/-- What `SynchConsole::Read` returns is not more than what it stored. -/
theorem consoleRead_length {buffer : List Byte} {numBytes : Word}
    (room : numBytes.toInt.toNat ≤ buffer.length) :
    (consoleRead buffer numBytes).Ends (device heap fresh unset) kernel
      (fun result after => result.1.toInt ≤ result.2.length ∧
        ∃ typed, after = kernel.withTyped typed)
      (fun reason => reason = .blocked) := by
  refine (consoleRead_ends room).mono ?_ fun _ => And.left
  rintro result after ⟨line, typed, contents, returned, rfl, -⟩
  refine ⟨?_, typed, rfl⟩
  have length : line.length ≤ result.2.length := by
    rw [contents, List.append_assoc, List.length_append]
    omega
  rcases returned with minusOne | counted
  · rw [minusOne]
    exact le_trans (by decide) (Int.natCast_nonneg result.2.length)
  · rw [counted]
    exact (toInt_ofNat_le line.length).trans (by exact_mod_cast length)

theorem scReadString_sound (ready : kernel.machine.Ready)
    (honours : Honours heap (kernel.registers r5)) :
    Sound heap fresh unset scReadString kernel := by
  have value := toInt_eq_toNat honours.1
  refine (ends_bind_ok (run_readRegister r4)).mpr ((ends_bind_ok (run_readRegister r5)).mpr
      ((ends_bind_ok (run_newBuffer_honoured honours)).mpr
        ((ends_bind_ok (run_nonNull _)).mpr (ends_bind.mpr ?_))))
  refine (consoleRead_length (by
    rw [List.length_map, List.length_range, value, Int.toNat_natCast])).mono ?_ ?_
  · rintro ⟨size, stored⟩ after ⟨length, typed, rfl⟩
    have copied := @systemToUser_ends _ (deviceHost heap fresh unset)
      (kernel.withTyped typed) (kernel.registers r4) size stored length ready
    refine ends_bind.mpr (copied.mono ?_ ?_)
    · intro _ _ _
      rw [ends_pure]
      trivial
    · rintro _ rfl
      exact not_false
  · rintro _ rfl
    exact not_false

theorem scPrintString_sound (ready : kernel.machine.Ready)
    (honours : Honours heap (255#32 + 1#32 + 1#32)) :
    Sound heap fresh unset scPrintString kernel := by
  refine (ends_bind_ok (run_readRegister r4)).mpr (ends_bind.mpr ?_)
  refine (userToSystem_ends honours ready).mono ?_ ?_
  · rintro _ after ⟨buffer, mmu, rfl, -, rfl, length, -⟩
    rw [ends_bind_ok (run_nonNull _), ends_of_ok (run_consoleWrite (by rw [length]; decide))]
    trivial
  · rintro _ ⟨rfl, -⟩
    exact not_false

/-! ## Numerals -/

theorem not_space_of_digit {character : Byte} (digit : isDigit character = true) :
    isSpace character = false ∧ character ≠ 45#8 ∧ character ≠ 43#8 := by
  revert character
  decide

theorem atoi_ends (buffer : List Byte) : (atoi buffer).Ends (device heap fresh unset) kernel
      (fun _ _ => (unsigned buffer).all isDigit = false)
      (fun reason => reason = .fault .bounds ∧ (unsigned buffer).all isDigit = true) := by
  change Ends _ (if ((unsigned buffer).takeWhile isDigit).length =
    (unsigned buffer).length then fail .bounds else Pure.pure _) _ _ _
  have whole : ((unsigned buffer).takeWhile isDigit).length =
      (unsigned buffer).length ↔ (unsigned buffer).all isDigit = true := by
    rw [List.all_eq_true, ← List.takeWhile_eq_self_iff]
    constructor
    · exact (List.takeWhile_prefix isDigit).eq_of_length
    · exact congrArg List.length
  split
  · rename_i unended
    exact ⟨rfl, whole.mp unended⟩
  · rename_i ended
    rw [ends_pure]
    exact Bool.eq_false_iff.mpr fun digits => ended (whole.mpr digits)

theorem unsigned_ended {buffer : List Byte} (zero : 0#8 ∈ buffer) :
    (unsigned buffer).all isDigit = false := by
  have kept : 0#8 ∈ buffer.dropWhile isSpace := by
    rw [← List.takeWhile_append_dropWhile (p := isSpace) (l := buffer)] at zero
    rcases List.mem_append.mp zero with space | kept
    · exact absurd (List.mem_takeWhile_imp space) (by decide)
    · exact kept
  have member : 0#8 ∈ unsigned buffer := by
    simp only [unsigned]
    split
    · rename_i sign
      cases text : buffer.dropWhile isSpace with
      | nil =>
        rw [text] at kept
        cases kept
      | cons first rest =>
        rw [text] at kept sign
        rcases List.mem_cons.mp kept with same | member
        · subst same
          rw [List.head?_cons] at sign
          exact absurd sign (by decide)
        · exact member
    · exact kept
  exact List.all_eq_false.mpr ⟨0#8, member, by decide⟩

theorem dropWhile_isSpace {first : Byte} (rest : List Byte) (notSpace : isSpace first = false) :
    (first :: rest).dropWhile isSpace = first :: rest :=
  List.dropWhile_cons_of_neg (by rw [notSpace]; decide)

theorem unsigned_cons {first : Byte} (rest : List Byte)
    (notSpace : isSpace first = false) (notMinus : first ≠ 45#8)
    (notPlus : first ≠ 43#8) : unsigned (first :: rest) = first :: rest := by
  unfold unsigned
  rw [dropWhile_isSpace rest notSpace, if_neg]
  rintro (minus | plus)
  · exact notMinus (Option.some.inj minus)
  · exact notPlus (Option.some.inj plus)

theorem unsigned_digits {buffer : List Byte}
    (digits : buffer.all isDigit = true) : unsigned buffer = buffer := by
  cases buffer with
  | nil => rfl
  | cons first rest =>
    obtain ⟨notSpace, notMinus, notPlus⟩ := not_space_of_digit
      (List.all_eq_true.mp digits first List.mem_cons_self)
    exact unsigned_cons rest notSpace notMinus notPlus

/-- A line which fills the buffer is a numeral without an end, or none. -/
theorem numeralFits_full {line typed : List Byte} (full : line.length = 100) :
    NumeralFits (line ++ typed) ↔ line.all isDigit = false := by
  have front : (line ++ typed).take 100 = line := List.take_left' full
  unfold NumeralFits
  rw [front, List.length_append, full, ← Bool.not_eq_true]
  constructor
  · intro fits digits
    exact fits ⟨Nat.le_add_right _ _, digits⟩
  · rintro other ⟨-, digits⟩
    exact other digits

theorem numeralFits_short {line typed : List Byte} {ending : Byte}
    (short : line.length < 100) (ends : ending = 10#8 ∨ ending = 1#8) :
    NumeralFits (line ++ ending :: typed) := by
  rintro ⟨-, digits⟩
  have member : ending ∈ (line ++ ending :: typed).take 100 := by
    rw [List.take_append, List.take_of_length_le (le_of_lt short)]
    obtain ⟨left, more⟩ := Nat.exists_eq_add_of_lt short
    rw [show 100 - line.length = left + 1 by omega]
    exact List.mem_append_right _ List.mem_cons_self
  have digit := List.all_eq_true.mp digits ending member
  rcases ends with rfl | rfl
  · cases digit
  · cases digit

/-- `SC_ReadInt` fails if and only if the console has 100 digits for it. -/
theorem scReadInt_ends (enough : 100 ≤ heap) : scReadInt.Ends (device heap fresh unset) kernel
      (fun _ _ => NumeralFits kernel.shared.rest.typed)
      (fun reason => reason.KernelFailure ↔ ¬NumeralFits kernel.shared.rest.typed) := by
  refine (ends_bind_ok (run_newBuffer_honoured ⟨by decide, enough⟩)).mpr
    ((ends_bind_ok (run_nonNull _)).mpr (ends_bind.mpr ?_))
  refine (consoleRead_ends (by
    rw [List.length_map, List.length_range]
    decide)).mono ?_ ?_
  · rintro ⟨length, stored⟩ after ⟨line, typed, contents, -, rfl, ended⟩
    have count : (100#32).toInt.toNat = 100 := rfl
    have empty : ((List.range (100#32).toNat).map fresh).drop 100 = [] :=
      List.drop_eq_nil_of_le (by simp)
    rw [count, empty, List.append_nil] at contents
    simp only at contents
    rw [count] at ended
    subst contents
    rcases ended with ⟨full, taken, returned⟩ | ⟨short, ending, ends, taken⟩
    · have nonempty : line ≠ [] := by
        rintro rfl
        cases full
      have whole : length.toInt.toNat = line.length := by
        rw [full]
        have value := returned nonempty
        rw [full] at value
        exact congrArg (fun word : Word => word.toInt.toNat) value
      rw [taken, numeralFits_full full, full, Nat.sub_self, List.replicate_zero, List.append_nil]
      simp only [whole, List.take_length]
      by_cases digits : line.all isDigit = true
      · rw [if_pos digits, ends_bind]
        refine (atoi_ends line).mono ?_ ?_
        · intro number middle other
          rw [unsigned_digits digits, digits] at other
          cases other
        · rintro _ ⟨rfl, -⟩
          rw [digits]
          exact ⟨fun _ => Bool.noConfusion, fun _ => trivial⟩
      · rw [if_neg digits, ends_pure]
        exact Bool.eq_false_iff.mpr digits
    · have fits : NumeralFits kernel.shared.rest.typed := by
        rw [taken]
        exact numeralFits_short short ends
      have zero : 0#8 ∈ line ++ List.replicate (100 - line.length) 0#8 :=
        List.mem_append_right _ (List.mem_replicate.mpr ⟨by omega, rfl⟩)
      simp only
      split
      · rw [ends_bind]
        refine (atoi_ends _).mono ?_ ?_
        · intro number middle _
          rw [ends_of_ok (run_writeRegister r2 number)]
          exact fits
        · rintro _ ⟨-, digits⟩
          rw [unsigned_ended zero] at digits
          cases digits
      · rw [ends_pure]
        exact fits
  · rintro _ ⟨rfl, few⟩
    have fits : NumeralFits kernel.shared.rest.typed := by
      intro full
      exact absurd full.1 (not_le.mpr few)
    exact ⟨False.elim, fun overfull => overfull fits⟩

theorem scReadInt_sound (fits : ReadIntFits heap kernel) :
    Sound heap fresh unset scReadInt kernel := by
  refine (scReadInt_ends fits.1).mono (fun _ _ _ => trivial) ?_
  intro reason failure failed
  exact failure.mp failed fits.2

theorem scReadInt_fails (overfull : ¬ReadIntFits heap kernel) :
    ∃ reason : Departure, reason.KernelFailure ∧
      scReadInt.run (device heap fresh unset) kernel =
        .error reason := by
  by_cases enough : 100 ≤ heap
  · have unended : ¬NumeralFits kernel.shared.rest.typed :=
      fun fits => overfull ⟨enough, fits⟩
    rcases (@scReadInt_ends heap fresh unset kernel enough).cases with
      ⟨_, _, _, fits⟩ | ⟨reason, failed, failure⟩
    · exact absurd fits unended
    · exact ⟨reason, failure.mpr unended, failed⟩
  · exact scReadInt_refused enough

/-! ## Files -/

section Reading

variable {id : Fin maxOpenFiles} {file : StubFile}

theorem run_scRead_rejected (rejected : ReadRejected kernel) :
    scRead.run (device heap fresh unset) kernel = .ok ((), kernel.withRegister r2 (-1#32)) := by
  refine (run_readArguments _).trans ?_
  cases index : fileIndex (kernel.registers r6) with
  | none => rfl
  | some id =>
    refine (run_bind_ok (run_readOpenf id)).trans ?_
    cases slot : kernel.shared.openf id with
    | none => rfl
    | some file =>
      simp only [if_pos (rejected id file index slot)]
      rfl

theorem scRead_fails (index : fileIndex (kernel.registers r6) = some id)
    (slot : kernel.shared.openf id = some file)
    (readable : file.type ≠ 3#32)
    (refused : ¬Honours heap (kernel.registers r5 + 1#32)) :
    ∃ reason : Departure, reason.KernelFailure ∧
      scRead.run (device heap fresh unset) kernel =
        .error reason := by
  rw [run_scRead_accepted index slot (run_tell slot) readable]
  exact userToSystem_refused refused _

theorem systemToUser_sound {virtAddr len : Word} {buffer : List Byte}
    (room : len.toInt ≤ buffer.length) (value : Word)
    (ready : kernel.machine.Ready) :
    Sound heap fresh unset (do
      let _ ← systemToUser virtAddr len buffer
      writeRegister r2 value) kernel := by
  refine ends_bind.mpr ((systemToUser_ends _ len room ready).mono ?_ ?_)
  · intro _ after _
    rw [ends_of_ok (run_writeRegister r2 value)]
    trivial
  · rintro _ rfl
    exact not_false

theorem readIn_console (slot : kernel.shared.openf id = some file)
    (input : file.type = 2#32) (ready : kernel.machine.Ready)
    {oldPos virtAddr charcount : Word} {buffer : List Byte}
    (room : charcount.toInt.toNat ≤ buffer.length) :
    Sound heap fresh unset (readIn id oldPos virtAddr charcount buffer)
      kernel := by
  refine (ends_bind_ok (run_openFileAt slot)).mpr ?_
  rw [if_pos input, ends_bind]
  refine (consoleRead_length room).mono ?_ ?_
  · rintro ⟨size, stored⟩ after ⟨length, typed, rfl⟩
    exact @systemToUser_sound heap fresh unset (kernel.withTyped typed)
      virtAddr size stored length size ready
  · rintro _ rfl
    exact not_false

theorem readIn_file {name : CString} {position : Nat} {contents : List Byte}
    (fileAt : kernel.FileAt id file name position contents)
    (offset : file.currentOffset = BitVec.ofNat 32 position)
    (notInput : file.type ≠ 2#32) (ready : kernel.machine.Ready)
    {virtAddr charcount : Word} {buffer : List Byte}
    (room : charcount.toInt.toNat ≤ buffer.length) :
    Sound heap fresh unset (readIn id (BitVec.ofNat 32 position) virtAddr charcount buffer)
      kernel := by
  obtain ⟨numRead, stored, unix, offset', count, read, length, few, moved⟩ :=
    @run_readFile_at heap fresh unset _ _ _ _ _ _ fileAt offset _ _ room
  refine (ends_bind_ok (run_openFileAt fileAt.slot)).mpr ?_
  rw [if_neg notInput]
  refine (ends_bind_ok read).mpr ?_
  simp only
  by_cases positive : 0 < numRead.toInt
  · have difference := Unix.tell_sub (moved positive).2
    rw [if_pos positive, ends_bind_ok (run_tell (Function.update_self id _ _))]
    apply systemToUser_sound
    · refine (congrArg BitVec.toInt difference).trans_le ?_
      rw [length]
      exact (toInt_ofNat_le count).trans (by exact_mod_cast few)
    · exact ready
  · rw [if_neg positive, ends_of_ok (run_writeRegister r2 _)]
    trivial

section

variable (index : fileIndex (kernel.registers r6) = some id)
  (slot : kernel.shared.openf id = some file)
include index slot

theorem scRead_sound (notOutput : file.type ≠ 3#32) (ready : kernel.machine.Ready)
    (opened : kernel.FilesOpen) (honours : Honours heap (kernel.registers r5 + 1#32)) :
    Sound heap fresh unset scRead kernel := by
  have sizes := limit_cases honours.1
  refine (ends_congr (run_scRead_accepted index slot (run_tell slot)
    notOutput)).mpr (ends_bind.mpr ?_)
  refine (@userToSystem_ends heap fresh unset (kernel.positioned id file) _
    _ honours ready).mono ?_ ?_
  · rintro _ after ⟨buffer, mmu, rfl, same, rfl, length, -⟩
    have room : (kernel.registers r5).toInt.toNat ≤ buffer.length := by
      omega
    have ready' : ((kernel.positioned id file).withMmu mmu).machine.Ready :=
      ⟨ready.configured.of_mapping same, ready.pending⟩
    rw [ends_bind_ok (run_nonNull _)]
    by_cases input : file.type = 2#32
    · exact readIn_console slot_positioned input ready' room
    · obtain ⟨name, position, contents, fileAt⟩ :=
        opened id file slot input notOutput
      have placed := fileAt_positioned fileAt
      rw [tell_fileAt fileAt]
      exact @readIn_file heap fresh unset ((kernel.positioned id file).withMmu mmu) _ _ _ _ _
        ⟨placed.slot, placed.opened, placed.contents, placed.inRange⟩ rfl
        input ready' _ _ _ room
  · rintro _ ⟨rfl, -⟩
    exact not_false

theorem scWriteBody_sound (writable : ¬(file.type = 1#32 ∨ file.type = 2#32))
    (ready : kernel.machine.Ready) (opened : kernel.FilesOpen)
    (honours : Honours heap (kernel.registers r5 + 1#32))
    (ended : file.type = 3#32 → 0 ≤ (kernel.registers r5).toInt) :
    Sound heap fresh unset scWriteBody kernel := by
  by_cases output : file.type = 3#32
  · refine (scWriteBody_console index slot output ready honours).mono (fun _ _ _ => trivial) ?_
    rintro _ (⟨rfl, -⟩ | ⟨-, negative⟩)
    · exact not_false
    · exact absurd (ended output) (not_le.mpr negative)
  · by_cases readWrite : file.type = 0#32
    · obtain ⟨name, position, contents, fileAt⟩ :=
        opened id file slot (not_or.mp writable).2 output
      refine (scWriteBody_file index fileAt readWrite ready honours).mono (fun _ _ _ => trivial) ?_
      rintro _ ⟨rfl, -⟩
      exact not_false
    · refine (scWriteBody_other index slot writable readWrite output ready
        honours).mono (fun _ _ _ => trivial) ?_
      rintro _ ⟨rfl, -⟩
      exact not_false

end

theorem scWrite_sound (ready : kernel.machine.Ready) (opened : kernel.FilesOpen)
    (body : Sound heap fresh unset scWriteBody kernel)
    (continues : FallsThrough heap kernel → ReadIntFits heap kernel) :
    Sound heap fresh unset scWrite kernel := by
  rcases body.cases with ⟨more, after, ran, -⟩ | ⟨reason, failed, sound⟩
  · refine (ends_bind_ok ran).mpr ?_
    cases more with
    | true =>
      rw [if_pos rfl, ends_pure]
      trivial
    | false =>
      have falls := fallsThrough_of_run ready opened ran
      obtain ⟨_, same, typed⟩ :=
        @FallsThrough.run heap fresh unset kernel ready opened falls
      rw [ran] at same
      cases same
      have fits := continues falls
      refine scReadInt_sound ⟨fits.1, ?_⟩
      rw [typed]
      exact fits.2
  · exact (ends_bind_error failed).mpr sound

/-- The three ways in which `SC_Write` can fail: there is no buffer, the
buffer has no place for a NUL, or `SC_ReadInt` fails. -/
theorem scWrite_fails (ready : kernel.machine.Ready) (opened : kernel.FilesOpen)
    (misfit : ¬BuffersFit heap kernel .write) :
    ∃ reason : Departure, reason.KernelFailure ∧
      scWrite.run (device heap fresh unset) kernel =
        .error reason := by
  obtain ⟨accepted, misfit⟩ := not_or.mp misfit
  by_cases honours : Honours heap (kernel.registers r5 + 1#32)
  · by_cases continues : FallsThrough heap kernel → ReadIntFits heap kernel
    · have unended : ¬RoomForNul kernel :=
        fun ended => misfit ⟨honours, ended, continues⟩
      unfold RoomForNul at unended
      push Not at unended
      obtain ⟨id, file, index, slot, output, negative⟩ := unended
      rcases (@scWriteBody_console heap fresh unset _ _ _ index slot output
        ready honours).cases with
        ⟨_, _, _, nonnegative, -⟩ | ⟨reason, failed, ⟨-, nonnegative⟩ | ⟨rfl, -⟩⟩
      · exact absurd nonnegative (not_le.mpr negative)
      · exact absurd nonnegative (not_le.mpr negative)
      · exact ⟨.fault .bounds, trivial, by rw [scWrite, run_bind, failed]⟩
    · push Not at continues
      obtain ⟨falls, overfull⟩ := continues
      obtain ⟨middle, ran, typed⟩ :=
        @FallsThrough.run heap fresh unset kernel ready opened falls
      obtain ⟨reason, failure, failed⟩ :=
        @scReadInt_fails heap fresh unset middle (by
          rintro ⟨enough, fits⟩
          rw [typed] at fits
          exact overfull ⟨enough, fits⟩)
      exact ⟨reason, failure, (run_bind_ok ran).trans failed⟩
  · unfold WriteRejected at accepted
    push Not at accepted
    obtain ⟨id, file, index, slot, notRead, notInput⟩ := accepted
    obtain ⟨reason, failure, failed⟩ := @scWriteBody_refused heap fresh unset
      _ _ _ index slot (not_or.mpr ⟨notRead, notInput⟩) honours
    exact ⟨reason, failure, by rw [scWrite, run_bind, failed]⟩

end Reading

end Calls

/-! ## The contract of the calls -/

/-- The kernel does not fail, and for a buffer which it cannot have it
returns `-1`. -/
def BufferContract (heap : Nat) (fresh : Nat → Byte) (unset : Byte)
    (kernel : Kernel Host) (size : Word) : Prop :=
  (exceptionHandler .syscallException).Ends (device heap fresh unset) kernel
    (fun _ after => ¬Honours heap size → after.registers r2 = -1#32)
    (fun reason => Honours heap size ∧ ¬reason.KernelFailure)

section Contract

variable {heap : Nat} {fresh : Nat → Byte} {unset : Byte}
  {kernel : Kernel Host} {size : Word} {request : Syscall}
  (code : Syscall.ofCode (kernel.registers r2) = some request)

include code

theorem bufferContract_of_sound (honours : Honours heap size)
    (sound : Sound heap fresh unset (syscallCase request) kernel) :
    BufferContract heap fresh unset kernel size :=
  (exceptionHandler_ends code).mpr (sound.mono (fun _ _ _ refused => absurd honours refused)
    (fun _ unharmed => ⟨honours, unharmed⟩))

theorem bufferContract_of_rejected (ran : (syscallCase request).run
      (device heap fresh unset) kernel = .ok ((), kernel.withRegister r2 (-1#32))) :
    BufferContract heap fresh unset kernel size := by
  refine (exceptionHandler_ends code).mpr ((ends_of_ok ran).mpr ?_)
  intro _
  rw [Kernel.advanced_registers _ (by decide) (by decide) (by decide)]
  exact Kernel.withRegister_self _ _ _

/-- A call keeps the contract exactly if it has what it needs, when without
it the kernel fails. -/
theorem bufferContract_iff_of_fails {needs : Prop}
    (keeps : needs → BufferContract heap fresh unset kernel size)
    (fails : ¬needs → ∃ reason : Departure, reason.KernelFailure ∧ (syscallCase request).run
        (device heap fresh unset) kernel = .error reason) :
    BufferContract heap fresh unset kernel size ↔ needs := by
  constructor
  · intro contract
    by_contra lacking
    obtain ⟨reason, failure, failed⟩ := fails lacking
    exact ((ends_of_error failed).mp ((exceptionHandler_ends code).mp contract)).2 failure
  · exact keeps

end Contract

section Requests

variable {heap : Nat} {fresh : Nat → Byte} {unset : Byte} {kernel : Kernel Host}

theorem read_contract (code : Syscall.ofCode (kernel.registers r2) = some .read)
    (ready : kernel.machine.Ready) (opened : kernel.FilesOpen) :
    BufferContract heap fresh unset kernel (kernel.registers r5 + 1#32) ↔
      BuffersFit heap kernel .read := by
  by_cases rejected : ReadRejected kernel
  · exact ⟨fun _ => Or.inl rejected, fun _ =>
      bufferContract_of_rejected code (run_scRead_rejected rejected)⟩
  · have accepted := rejected
    unfold ReadRejected at accepted
    push Not at accepted
    obtain ⟨id, file, index, slot, notOutput⟩ := accepted
    apply bufferContract_iff_of_fails code
    · rintro (nothing | honours)
      · exact absurd nothing rejected
      · exact bufferContract_of_sound code honours
          (scRead_sound index slot notOutput ready opened honours)
    · intro misfit
      exact scRead_fails index slot notOutput (not_or.mp misfit).2

theorem write_contract (code : Syscall.ofCode (kernel.registers r2) = some .write)
    (ready : kernel.machine.Ready) (opened : kernel.FilesOpen) :
    BufferContract heap fresh unset kernel (kernel.registers r5 + 1#32) ↔
      BuffersFit heap kernel .write := by
  by_cases rejected : WriteRejected kernel
  · exact ⟨fun _ => Or.inl rejected, fun _ =>
      bufferContract_of_rejected code (run_bind_ok (run_scWriteBody_rejected rejected))⟩
  · have accepted := rejected
    unfold WriteRejected at accepted
    push Not at accepted
    obtain ⟨id, file, index, slot, notRead, notInput⟩ := accepted
    apply bufferContract_iff_of_fails code
    · rintro (nothing | ⟨honours, ended, continues⟩)
      · exact absurd nothing rejected
      · have body : Sound heap fresh unset scWriteBody kernel :=
          scWriteBody_sound index slot (not_or.mpr ⟨notRead, notInput⟩)
            ready opened honours (ended id file index slot)
        exact bufferContract_of_sound code honours (scWrite_sound ready opened body continues)
    · exact scWrite_fails ready opened

theorem readInt_contract (code : Syscall.ofCode (kernel.registers r2) = some .readInt) :
    BufferContract heap fresh unset kernel 100#32 ↔ BuffersFit heap kernel .readInt := by
  apply bufferContract_iff_of_fails code
  · intro fits
    exact bufferContract_of_sound code ⟨by decide, fits.1⟩ (scReadInt_sound fits)
  · exact scReadInt_fails

theorem readString_contract (code : Syscall.ofCode (kernel.registers r2) = some .readString)
    (ready : kernel.machine.Ready) :
    BufferContract heap fresh unset kernel (kernel.registers r5) ↔
      BuffersFit heap kernel .readString := by
  apply bufferContract_iff_of_fails code
  · intro honours
    exact bufferContract_of_sound code honours (scReadString_sound ready honours)
  · intro refused
    exact newBuffer_refused refused _

theorem printString_contract (code : Syscall.ofCode (kernel.registers r2) = some .printString)
    (ready : kernel.machine.Ready) :
    BufferContract heap fresh unset kernel (255#32 + 1#32 + 1#32) ↔
      BuffersFit heap kernel .printString := by
  apply bufferContract_iff_of_fails code
  · intro honours
    exact bufferContract_of_sound code honours (scPrintString_sound ready honours)
  · intro refused
    exact userToSystem_refused refused _

end Requests

/-- A system call keeps its buffer, whatever its arguments are and whatever is
typed at the console, if and only if it has what it needs. -/
theorem buffer_contract_iff (heap : Nat) (fresh : Nat → Byte) (unset : Byte)
    (kernel : Kernel Host) (request : Syscall) (size : Word)
    (code : Syscall.ofCode (kernel.registers r2) = some request)
    (asks : requested kernel request = some size)
    (ready : kernel.machine.Ready) (opened : kernel.FilesOpen) :
    BufferContract heap fresh unset kernel size ↔
      BuffersFit heap kernel request := by
  cases request with
  | read =>
    cases asks
    exact read_contract code ready opened
  | write =>
    cases asks
    exact write_contract code ready opened
  | readInt =>
    cases asks
    exact readInt_contract code
  | readString =>
    cases asks
    exact readString_contract code ready
  | printString =>
    cases asks
    exact printString_contract code ready
  | _ => cases asks

theorem buffer_contract_iff_short_numeral : BufferContract 1000 (fun _ => 0#8) 0#8
      (requesting [49#8, 10#8] 11#32 0#32 0#32 0#32) 100#32 := by
  rw [buffer_contract_iff _ _ _ _ .readInt _ rfl rfl
    (requesting_ready _ _ _ _ _) (requesting_filesOpen _ _ _ _ _)]
  constructor
  · decide
  · rintro ⟨long, -⟩
    exact absurd long (by decide)

theorem not_bufferContract_of_stops {heap : Nat} {fresh : Nat → Byte}
    {unset : Byte} {kernel : Kernel Host} {size : Word} {reason : Departure}
    (failure : reason.KernelFailure)
    (stops : (exceptionHandler .syscallException).Ends (device heap fresh unset) kernel
      (fun _ _ => False) (fun stop => stop = reason)) :
    ¬BufferContract heap fresh unset kernel size := by
  intro contract
  rcases stops.cases with ⟨_, _, _, never⟩ | ⟨_, failed, rfl⟩
  · exact never
  · exact ((ends_of_error failed).mp contract).2 failure

/-- `SC_ReadString` with the size `-1`, `SC_ReadInt` when 100 digits are
typed, and `SC_Write` of `-1` characters to the console. -/
theorem requests_make_kernel_fail : ¬BufferContract 1000 (fun _ => 0#8) 0#8
        (requesting [] 15#32 0#32 (-1#32) 0#32) (-1#32) ∧
      ¬BufferContract 1000 (fun _ => 0#8) 0#8
        (requesting (List.replicate 100 49#8) 11#32 0#32 0#32 0#32)
        100#32 ∧
      ¬BufferContract 1000 (fun _ => 0#8) 0#8 (requesting [] 7#32 0#32 (-1#32) 1#32) 0#32 := by
  refine ⟨?_, ?_, ?_⟩
  · apply @not_bufferContract_of_stops _ _ _ _ _ (.fault .allocation) trivial
    decide +kernel
  · apply @not_bufferContract_of_stops _ _ _ _ _ (.fault .bounds) trivial
    decide +kernel
  · apply @not_bufferContract_of_stops _ _ _ _ _ (.fault .bounds) trivial
    decide +kernel

end Handler

end Nachos
