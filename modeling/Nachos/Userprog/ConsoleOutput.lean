import Nachos.Lib.Visits
import Nachos.Userprog.WriteCall

/-!
# What the console shows

The characters which a system call gives to the console are those of its
`PutChar` calls.  `SC_Write` to the console prints a line: it stops at the
first newline, always sends a newline, and returns one less than the number
of characters before it.
-/

open Words Memory Calls Program

namespace Nachos

/-- The character which a call sends to the console. -/
def KernelCall.displayed : KernelCall → Option Byte
  | .host (.putChar character) => some character
  | _ => none

namespace Handler

open KernelCall (displayed)

/-- The characters which a program sends to the console. -/
def sent {σ α : Type} (environment : Environment σ)
    (program : KernelProgram α) (kernel : Kernel σ) : List Byte :=
  program.emitted displayed (Kernel.answer environment) kernel

/-- Programs which send nothing to the console. -/
def Silent {α : Type} (program : KernelProgram α) : Prop :=
  program.OnlyCalls fun call => displayed call = none

section Systemcall

variable {σ : Type} {environment : Environment σ} {kernel : Kernel σ}

theorem silent_advanceProgramCounter : Silent advanceProgramCounter :=
  .call rfl fun _ => .call rfl fun _ =>
    .call rfl fun _ => .call rfl fun _ => .perform rfl

theorem exceptionHandler_shows {call : Syscall} {middle : Kernel σ} {text : List Byte}
    (code : Syscall.ofCode (kernel.registers r2) = some call)
    (shows : (syscallCase call).Shows displayed (Kernel.answer environment) kernel text () middle) :
    (exceptionHandler .syscallException).Shows displayed
      (Kernel.answer environment) kernel text () middle.advanced := by
  have whole : (syscallCase call >>= fun _ => advanceProgramCounter).Shows
      displayed (Kernel.answer environment) kernel (text ++ []) ()
      middle.advanced :=
    shows.bind (silent_advanceProgramCounter.shows rfl)
  rw [List.append_nil] at whole
  have entry : (exceptionHandler .syscallException).Shows displayed
      (Kernel.answer environment) kernel text () middle.advanced ↔
      (dispatch (kernel.registers r2)).Shows displayed
        (Kernel.answer environment) kernel text () middle.advanced :=
    Iff.rfl
  rw [entry, dispatch_some code]
  exact whole

end Systemcall

section Console

variable {heap : Nat} {fresh : Nat → Byte} {unset : Byte} {kernel : Kernel Host}

theorem putChars_shows {buffer : List Byte} (left start : Nat)
    (room : start + left ≤ buffer.length) :
    (putChars buffer left start).Shows displayed (device heap fresh unset) kernel
      ((buffer.drop start).take left) () kernel := by
  induction left generalizing start with
  | zero =>
    rw [List.take_zero]
    exact shows_pure () kernel
  | succ left induction =>
    have inside : start < buffer.length := by omega
    rw [List.drop_eq_getElem_cons inside, List.take_succ_cons]
    refine OnlyCalls.shows_bind (onlyCalls_lift fun _ => rfl)
      (run_charAt_inside (List.getElem?_eq_getElem inside)) ?_
    exact (shows_perform rfl).bind (induction (start + 1) (by omega))

theorem consoleWrite_shows {buffer : List Byte} {start : Nat} {numBytes : Word}
    (room : start + numBytes.toInt.toNat ≤ buffer.length) :
    (consoleWrite buffer start numBytes).Shows displayed (device heap fresh unset) kernel
      ((buffer.drop start).take numBytes.toInt.toNat) () kernel :=
  OnlyCalls.shows_bind (.perform rfl) (run_host _) (putChars_shows _ start room)

theorem consoleWrite_shows_one {before after : List Byte} (character : Byte) :
    (consoleWrite (before ++ character :: after) before.length 1#32).Shows
      displayed (device heap fresh unset) kernel
      [character] () kernel := by
  have shown : ((before ++ character :: after).drop before.length).take
      (1#32).toInt.toNat = [character] := by
    rw [List.drop_left]
    rfl
  rw [← shown]
  refine consoleWrite_shows ?_
  rw [show (1#32).toInt.toNat = 1 from rfl, List.length_append, List.length_cons]
  omega

/-! ## `SC_Write` to the console -/

/-- The loop of `SC_Write` sends the characters up to a NUL or a newline. -/
theorem writeLine_shows (line before after : List Byte) {stop : Byte}
    (plain : ∀ character ∈ line, ¬(character = 0#8 ∨ character = 10#8))
    (stops : stop = 0#8 ∨ stop = 10#8) {left : Nat}
    (rounds : line.length < left) :
    (writeLine (before ++ line ++ stop :: after) left before.length).Shows
      displayed (device heap fresh unset) kernel line
      (before.length + line.length) kernel := by
  induction line generalizing before left with
  | nil =>
    cases left with
    | zero => exact absurd rounds (Nat.not_lt_zero _)
    | succ left =>
      rw [List.append_nil]
      refine OnlyCalls.shows_bind (onlyCalls_lift fun _ => rfl) run_charAt ?_
      rw [if_pos stops]
      exact shows_pure _ kernel
  | cons first line induction =>
    cases left with
    | zero => exact absurd rounds (Nat.not_lt_zero _)
    | succ left =>
      have split : before ++ first :: line ++ stop :: after =
          before ++ first :: (line ++ stop :: after) := by simp
      have moved : before ++ first :: line ++ stop :: after =
          before ++ [first] ++ line ++ stop :: after := by simp
      have continues : ¬(first = 0#8 ∨ first = 10#8) :=
        plain first List.mem_cons_self
      have later := induction (before ++ [first]) (fun character member => plain character
          (List.mem_cons_of_mem first member))
        (Nat.lt_of_succ_lt_succ rounds)
      rw [split]
      refine OnlyCalls.shows_bind (onlyCalls_lift fun _ => rfl) run_charAt ?_
      rw [if_neg continues]
      refine (consoleWrite_shows_one first).bind ?_
      rw [← split, moved, List.length_cons,
        show before.length + (line.length + 1) = before.length + 1 + line.length by omega]
      rwa [List.length_append, List.length_singleton] at later

section Line

variable {id : Fin maxOpenFiles} {file : StubFile} {line after : List Byte} {stop : Byte}
  (plain : ∀ character ∈ line, ¬(character = 0#8 ∨ character = 10#8))
  (stops : stop = 0#8 ∨ stop = 10#8)

include plain stops

theorem writeOut_shows (slot : kernel.shared.openf id = some file)
    (output : file.type = 3#32) (oldPos charcount : Word) :
    (writeOut id oldPos charcount (line ++ stop :: after)).Shows displayed
      (device heap fresh unset) kernel
      (line ++ [10#8]) true
      (kernel.withRegister r2 (BitVec.ofNat 32 line.length - 1#32)) := by
  have printed : (writeLine (line ++ stop :: after)
      ((line ++ stop :: after).length + 1) 0).Shows displayed
      (device heap fresh unset) kernel line line.length
      kernel := by
    have whole := @writeLine_shows heap fresh unset kernel line [] after stop
      plain stops ((line ++ stop :: after).length + 1) (by
        rw [List.length_append]
        omega)
    rwa [List.length_nil, Nat.zero_add, List.nil_append] at whole
  have replaced : (line ++ stop :: after).set line.length 10#8 = line ++ 10#8 :: after := by
    rw [List.set_append_right _ _ le_rfl, Nat.sub_self, List.set_cons_zero]
  refine OnlyCalls.shows_bind (onlyCalls_openFileAt (fun _ => rfl)
    fun _ => rfl) (run_openFileAt slot) ?_
  rw [output, if_neg (by decide), if_pos rfl]
  refine printed.bind ?_
  refine OnlyCalls.shows_bind (onlyCalls_setChar fun _ => rfl)
    (run_setChar (by rw [List.length_append, List.length_cons]; omega) 10#8)
    ?_
  rw [replaced]
  refine (consoleWrite_shows_one 10#8).bind ?_
  exact OnlyCalls.shows_bind (.perform rfl) (run_writeRegister _ _) (shows_pure true _)

end Line

theorem run_userToSystem_honoured {virtAddr limit : Word}
    {bytes : List Byte} (count : limit.toNat = bytes.length)
    (small : bytes.length + 1 < 2 ^ 31)
    (enough : bytes.length + 1 ≤ heap)
    (holds : kernel.Holds virtAddr bytes) :
    ∃ mmu, mmu.mapping = kernel.shared.mmu.mapping ∧ (userToSystem virtAddr limit).run
        (device heap fresh unset) kernel = .ok (some (cut bytes ++ [0#8]), kernel.withMmu mmu) := by
  obtain ⟨size, signed⟩ := limit_succ count small
  have honours : Honours heap (limit + 1#32) := ⟨by omega, by omega⟩
  exact run_userToSystem_of_block count small holds (by simp [size])
    (run_newBuffer_honoured honours)

theorem scWriteBody_shows {id : Fin maxOpenFiles} {file : StubFile}
    {line after bytes : List Byte} {stop : Byte}
    (index : fileIndex (kernel.registers r6) = some id)
    (slot : kernel.shared.openf id = some file) (output : file.type = 3#32)
    (count : (kernel.registers r5).toNat = bytes.length)
    (small : bytes.length + 1 < 2 ^ 31) (enough : bytes.length + 1 ≤ heap)
    (holds : kernel.Holds (kernel.registers r4) bytes)
    (copied : cut bytes ++ [0#8] = line ++ stop :: after)
    (plain : ∀ character ∈ line, ¬(character = 0#8 ∨ character = 10#8))
    (stops : stop = 0#8 ∨ stop = 10#8) :
    ∃ mmu, scWriteBody.Shows displayed (device heap fresh unset) kernel (line ++ [10#8]) true
      (((kernel.positioned id file).withMmu mmu).withRegister r2
        (BitVec.ofNat 32 line.length - 1#32)) := by
  obtain ⟨mmu, -, ran⟩ := @run_userToSystem_honoured heap fresh unset
    (kernel.positioned id file) (kernel.registers r4) (kernel.registers r5)
    bytes count small enough holds
  have writable : ¬(file.type = 1#32 ∨ file.type = 2#32) := by
    rw [output]
    decide
  refine ⟨mmu, ?_⟩
  refine OnlyCalls.shows_bind (.perform rfl) (run_readRegister r4) ?_
  refine OnlyCalls.shows_bind (.perform rfl) (run_readRegister r5) ?_
  refine OnlyCalls.shows_bind (.perform rfl) (run_readRegister r6) ?_
  simp only [index]
  refine OnlyCalls.shows_bind (.perform rfl) (run_readOpenf id) ?_
  simp only [slot, if_neg writable]
  refine OnlyCalls.shows_bind (onlyCalls_getCurrentPos (fun _ => rfl)
    (fun _ => rfl) (fun _ => rfl) fun _ => rfl) (run_tell slot) ?_
  refine OnlyCalls.shows_bind (onlyCalls_userToSystem (fun _ => rfl)
    (fun _ => rfl) fun _ _ => rfl) ran ?_
  refine OnlyCalls.shows_bind (onlyCalls_lift fun _ => rfl) (run_nonNull _) ?_
  rw [copied]
  exact writeOut_shows plain stops slot_positioned output _ _

/-- The line at the beginning of a string. -/
def firstLine (bytes : List Byte) : List Byte :=
  bytes.takeWhile (· ≠ 10#8)

theorem firstLine_ended (bytes : List Byte) :
    ∃ stop after, (stop = 0#8 ∨ stop = 10#8) ∧
      bytes ++ [0#8] = firstLine bytes ++ stop :: after := by
  induction bytes with
  | nil => exact ⟨0#8, [], .inl rfl, rfl⟩
  | cons first rest induction =>
    by_cases newline : first = 10#8
    · subst newline
      exact ⟨10#8, rest ++ [0#8], .inr rfl, rfl⟩
    · obtain ⟨stop, after, stops, same⟩ := induction
      refine ⟨stop, after, stops, ?_⟩
      have taken : firstLine (first :: rest) = first :: firstLine rest := by
        simp [firstLine, newline]
      rw [taken, List.cons_append, List.cons_append, same]

/-- The line and a newline are the whole string if its only newline is the
last character. -/
theorem firstLine_newline_iff (bytes : List Byte) :
    firstLine bytes ++ [10#8] = bytes ↔ ∃ line, 10#8 ∉ line ∧ bytes = line ++ [10#8] := by
  constructor
  · intro whole
    refine ⟨firstLine bytes, ?_, whole.symm⟩
    intro member
    have different := List.mem_takeWhile_imp member
    simp at different
  · rintro ⟨line, plain, rfl⟩
    have taken : firstLine (line ++ [10#8]) = line := by
      unfold firstLine
      rw [List.takeWhile_append_of_pos]
      · simp
      · intro character member
        simp only [ne_eq, decide_not, Bool.not_eq_eq_eq_not, Bool.not_true, decide_eq_false_iff_not]
        rintro rfl
        exact plain member
    rw [taken]

end Console

/-- The call returns, exactly the bytes have been sent, and register 2 holds
their number. -/
def WritesExactly (heap : Nat) (fresh : Nat → Byte) (unset : Byte)
    (kernel : Kernel Host) (bytes : List Byte) : Prop :=
  ∃ after, (exceptionHandler .syscallException).run
      (device heap fresh unset) kernel =
        .ok ((), after) ∧
    sent (deviceHost heap fresh unset) (exceptionHandler .syscallException)
      kernel = bytes ∧
    after.registers r2 = kernel.registers r5

theorem toInt_ofNat_pred {count : Nat} (small : count < 2147483648) :
    (BitVec.ofNat 32 count - 1#32).toInt = (count : Int) - 1 := by
  have value := toInt_ofNat_eq small
  by_cases zero : count = 0
  · subst zero
    rfl
  · have nonzero : BitVec.ofNat 32 count ≠ 0#32 := by
      intro same
      rw [same] at value
      have none : (0 : Int) = count := value
      omega
    exact (toInt_sub_one (by omega) nonzero).trans (by rw [value])

section Contract

variable {heap : Nat} {fresh : Nat → Byte} {unset : Byte}
  {kernel : Kernel Host} {id : Fin maxOpenFiles} {file : StubFile}
  {bytes : List Byte}

/-- What the call does with a buffer for the string. -/
theorem write_shows_line (code : kernel.registers r2 = 7#32)
    (index : fileIndex (kernel.registers r6) = some id)
    (slot : kernel.shared.openf id = some file) (output : file.type = 3#32)
    (size : (kernel.registers r5).toInt = bytes.length)
    (nulFree : 0#8 ∉ bytes)
    (holds : kernel.Holds (kernel.registers r4) bytes)
    (honours : Honours heap (kernel.registers r5 + 1#32)) :
    ∃ after, (exceptionHandler .syscallException).Shows displayed (device heap fresh unset) kernel
        (firstLine bytes ++ [10#8]) () after ∧
      (after.registers r2).toInt = (firstLine bytes).length - 1 := by
  have count : (kernel.registers r5).toNat = bytes.length := by
    have nonnegative : 0 ≤ (kernel.registers r5).toInt := by omega
    have same := toInt_eq_toNat nonnegative
    omega
  have room : bytes.length + 1 ≤ heap ∧ bytes.length + 1 < 2 ^ 31 := by
    have block := honours.2
    have signed := toInt_eq_toNat honours.1
    have limit := (kernel.registers r5 + 1#32).toInt_lt
    rcases limit_cases honours.1 with ⟨negative, -⟩ | ⟨-, next⟩
    · omega
    · constructor
      · omega
      · omega
  obtain ⟨stop, rest, stops, ended⟩ := firstLine_ended bytes
  have plain : ∀ character ∈ firstLine bytes, ¬(character = 0#8 ∨ character = 10#8) := by
    rintro character member (rfl | rfl)
    · exact nulFree ((List.takeWhile_sublist _).subset member)
    · have different := List.mem_takeWhile_imp member
      simp at different
  have short : (firstLine bytes).length ≤ bytes.length :=
    (List.takeWhile_sublist _).length_le
  obtain ⟨mmu, body⟩ := @scWriteBody_shows heap fresh unset kernel id file
    (firstLine bytes) rest bytes stop index slot output count room.2 room.1
    holds (by rw [cut_of_nulFree nulFree, ended]) plain stops
  have written : scWrite.Shows displayed (device heap fresh unset) kernel
      (firstLine bytes ++ [10#8] ++ []) () _ :=
    body.bind (shows_pure () _)
  rw [List.append_nil] at written
  have found : Syscall.ofCode (kernel.registers r2) = some .write := by
    rw [code]
    rfl
  refine ⟨_, exceptionHandler_shows found written, ?_⟩
  rw [Kernel.advanced_registers _ (by decide) (by decide) (by decide), Kernel.withRegister_self]
  exact toInt_ofNat_pred (by omega)

end Contract

/-- `SC_Write` of a string without NULs to the console never does what it
should: it sends the first line and a newline, and the number it returns is
too small.  What is sent is right if the only newline is at the end. -/
theorem console_write_never_exact (heap : Nat) (fresh : Nat → Byte)
    (unset : Byte) (kernel : Kernel Host) (id : Fin maxOpenFiles)
    (file : StubFile) (bytes : List Byte)
    (code : kernel.registers r2 = 7#32)
    (index : fileIndex (kernel.registers r6) = some id)
    (slot : kernel.shared.openf id = some file) (output : file.type = 3#32)
    (size : (kernel.registers r5).toInt = bytes.length)
    (nulFree : 0#8 ∉ bytes)
    (holds : kernel.Holds (kernel.registers r4) bytes) :
    ¬WritesExactly heap fresh unset kernel bytes ∧
    (Honours heap (kernel.registers r5 + 1#32) → ∃ after, (exceptionHandler .syscallException).run
          (Kernel.answer (deviceHost heap fresh unset)) kernel =
            .ok ((), after) ∧
        sent (deviceHost heap fresh unset)
          (exceptionHandler .syscallException) kernel =
            firstLine bytes ++ [10#8] ∧
        (after.registers r2).toInt = (firstLine bytes).length - 1 ∧
        (sent (deviceHost heap fresh unset)
            (exceptionHandler .syscallException) kernel = bytes ↔
          ∃ line, 10#8 ∉ line ∧ bytes = line ++ [10#8])) := by
  by_cases honours : Honours heap (kernel.registers r5 + 1#32)
  · obtain ⟨after, ⟨ran, shown⟩, returned⟩ := write_shows_line code index
      slot output size nulFree holds honours
    have short : (firstLine bytes).length ≤ bytes.length :=
      (List.takeWhile_sublist _).length_le
    constructor
    · rintro ⟨other, same, -, count⟩
      rw [ran] at same
      cases same
      rw [count, size] at returned
      omega
    · intro _
      refine ⟨after, ran, shown, returned, ?_⟩
      rw [show sent (deviceHost heap fresh unset) _ kernel = _ from shown]
      exact firstLine_newline_iff bytes
  · refine ⟨?_, fun given => absurd given honours⟩
    rintro ⟨after, ran, -⟩
    have writable : ¬(file.type = 1#32 ∨ file.type = 2#32) := by
      rw [output]
      decide
    have found : Syscall.ofCode (kernel.registers r2) = some .write := by
      rw [code]
      rfl
    obtain ⟨reason, -, stopped⟩ := @scWriteBody_refused heap fresh unset
      kernel id file index slot writable honours
    have failed : (syscallCase .write).run
        (device heap fresh unset) kernel =
          .error reason := by
      refine (run_bind _ _ _).trans ?_
      rw [stopped]
    exact exceptionHandler_stops found failed after ran

/-- The program writes to the console from address 8, where memory holds
`x`. -/
def writingToConsole (count : Word) : Kernel Host :=
  requesting [] 7#32 8#32 count 1#32

theorem console_write_never_exact_two_bytes :
    ¬WritesExactly 100 (fun _ => 0#8) 0#8 (writingToConsole 2#32) [120#8, 120#8] := by
  have holds : (writingToConsole 2#32).Holds 8#32 [120#8, 120#8] := by
    intro index inside _
    have cases : index = 0 ∨ index = 1 := by
      have bound : index < 2 := inside
      omega
    rcases cases with rfl | rfl
    · exact ⟨8, rfl, rfl⟩
    · exact ⟨9, rfl, rfl⟩
  exact (console_write_never_exact 100 (fun _ => 0#8) 0#8
    (writingToConsole 2#32) ⟨1, by decide⟩ ⟨3#32, 4#32, 0#32⟩
    [120#8, 120#8] rfl rfl rfl rfl rfl (by decide) holds).1

/-- The two characters `xx` are sent with a newline, and the call returns
1. -/
theorem console_write_adds_newline : sent (deviceHost 100 (fun _ => 0#8) 0#8)
        (exceptionHandler .syscallException) (writingToConsole 2#32) =
      [120#8, 120#8, 10#8] ∧
    (exceptionHandler .syscallException).Ends (Kernel.answer (deviceHost 100 (fun _ => 0#8) 0#8))
      (writingToConsole 2#32)
      (fun _ after => after.registers r2 = 1#32) (fun _ => False) := by
  decide +kernel

end Handler

end Nachos
