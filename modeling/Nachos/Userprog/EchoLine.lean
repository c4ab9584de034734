import Nachos.Threads.SynchConsole
import Nachos.Userprog.ConsoleOutput

/-!
# Reading a string and printing it

A program which reads a line with `ReadString` and prints it with
`PrintString` should show the line.  `SC_ReadString` copies the characters of
the line without a NUL, so what the buffer held behind them is printed, too,
and `SC_PrintString` always sends 255 characters.
-/

open Words Memory Calls Program Transition

namespace Nachos

namespace Handler

open KernelCall (displayed)

section Calls

variable {heap : Nat} {fresh : Nat → Byte} {unset : Byte} {kernel : Kernel Host}

/-- A call of `SynchConsole::Read` which has returned, whatever the other
threads did, has done what `consoleRead` does with the characters it has
taken, which are those other than `EOF`. -/
theorem run_consoleRead_of_result {ι : Type} [DecidableEq ι] {events : List (ReadEvent ι)}
    {state : ConsoleInput ι} (run : Run ConsoleInput.Step .boot events state)
    {line : ReadResult} (returned : line ∈ state.results) {buffer later : List Byte}
    {numBytes : Word} (count : numBytes.toInt.toNat = line.numBytes)
    (positive : 0 < line.numBytes) (room : line.numBytes ≤ buffer.length)
    (typed : kernel.shared.rest.typed = line.segment ++ later) :
    (consoleRead buffer numBytes).run (device heap fresh unset) kernel =
      .ok ((BitVec.ofInt 32 line.result, line.into ++ buffer.drop line.numBytes),
        kernel.withTyped later) := by
  obtain ⟨text, ordinary, isLine, into⟩ := (ConsoleInput.sound_of_run run).results line returned
  rw [into, ← count]
  rw [← count] at room
  cases isLine with
  | newline short taken result =>
    rw [taken, List.append_assoc] at typed
    rw [run_consoleRead room (.ended (count ▸ short) (.inl rfl)) ordinary typed,
      List.getLastD_concat, if_neg (by decide), result, BitVec.ofInt_natCast]
  | ctrlA short taken result =>
    rw [taken, List.append_assoc] at typed
    rw [run_consoleRead room (.ended (count ▸ short) (.inr rfl)) ordinary typed,
      List.getLastD_concat, if_pos rfl, result]
    rfl
  | full long taken result =>
    rw [taken] at typed
    have nonempty : text ≠ [] := List.ne_nil_of_length_pos (long ▸ positive)
    rw [run_consoleRead room (.full (long.trans count.symm)) ordinary
      (typed.trans (by rw [List.nil_append])), List.append_nil,
      if_neg (getLastD_plain nonempty ordinary), result, BitVec.ofInt_natCast]

/-! ## `SC_ReadString` -/

theorem run_systemToUser_line {line rest : List Byte} {virtAddr : Word}
    {place : Nat → Nat} (small : line.length < 2 ^ 31)
    (located : ∀ index, index < line.length →
      kernel.shared.mmu.locate (virtAddr + BitVec.ofNat 32 index) true = some (place index)) :
    ∃ mmu result, mmu.mapping = kernel.shared.mmu.mapping ∧
      (systemToUser virtAddr (BitVec.ofNat 32 line.length) (line ++ rest)).run
        (device heap fresh unset) kernel = .ok (result, (kernel.withMmu mmu).withMemory
            (storeString place line 0 kernel.shared.mainMemory)) := by
  by_cases empty : line = []
  · subst empty
    exact ⟨kernel.shared.mmu, 0#32, rfl, rfl⟩
  · have count : (BitVec.ofNat 32 line.length).toNat = line.length := by
      rw [BitVec.toNat_ofNat, Nat.mod_eq_of_lt (by omega)]
    obtain ⟨mmu, same, copied⟩ :=
      run_systemToUser line rest count empty small located
    exact ⟨mmu, _, same, copied⟩

/-- `SC_ReadString` of a line which fits stores its characters and changes no
other byte. -/
theorem scReadString_shows {line later : List Byte} {place : Nat → Nat}
    (cells : Cells kernel.shared.mmu (kernel.registers r4) (kernel.registers r5).toNat true place)
    (enough : (kernel.registers r5).toNat ≤ heap)
    (short : line.length < (kernel.registers r5).toNat)
    (plain : Unended line)
    (typed : kernel.shared.rest.typed = line ++ 10#8 :: later) :
    ∃ after, scReadString.Shows displayed
        (device heap fresh unset) kernel [] () after ∧
      after.shared.mmu.mapping = kernel.shared.mmu.mapping ∧
      after.shared.mainMemory = storeString place line 0 kernel.shared.mainMemory := by
  have fits := cells.count_le
  have bound : memorySize < 2 ^ 31 := by decide
  have signed : (kernel.registers r5).toInt = ((kernel.registers r5).toNat : Int) :=
    BitVec.toInt_eq_toNat_of_lt (by omega)
  have count : (kernel.registers r5).toInt.toNat = (kernel.registers r5).toNat := by omega
  have read := @run_consoleRead_line heap fresh unset kernel line later
    ((List.range (kernel.registers r5).toNat).map fresh) (kernel.registers r5)
    (by rw [List.length_map, List.length_range, count])
    (by rw [count]; exact short) plain typed
  rw [List.append_assoc] at read
  obtain ⟨mmu, result, same, stored⟩ := @run_systemToUser_line heap fresh
    unset (kernel.withTyped later) line _ (kernel.registers r4) place
    (by omega) fun index inside => cells.located index (by omega)
  refine ⟨((kernel.withTyped later).withMmu mmu).withMemory
    (storeString place line 0 kernel.shared.mainMemory), ?_, same, rfl⟩
  refine OnlyCalls.shows_bind (.perform rfl) (run_readRegister r4) ?_
  refine OnlyCalls.shows_bind (.perform rfl) (run_readRegister r5) ?_
  refine OnlyCalls.shows_bind (onlyCalls_newBuffer (fun _ => rfl)
    fun _ => rfl) (run_newBuffer_honoured ⟨by omega, enough⟩) ?_
  refine OnlyCalls.shows_bind (onlyCalls_lift fun _ => rfl) (run_nonNull _) ?_
  refine OnlyCalls.shows_bind (onlyCalls_consoleRead (fun _ => rfl) rfl rfl rfl) read ?_
  exact OnlyCalls.shows_bind (onlyCalls_systemToUser (fun _ => rfl)
    fun _ _ _ => rfl) stored (shows_pure () _)

/-! ## `SC_PrintString` -/

theorem holds_of_readable {virtAddr : Word} {count : Nat}
    (readable : kernel.Readable virtAddr count) :
    ∃ bytes, bytes.length = count ∧ kernel.Holds virtAddr bytes := by
  induction count generalizing virtAddr with
  | zero =>
    refine ⟨[], rfl, ?_⟩
    intro index inside
    cases inside
  | succ count induction =>
    obtain ⟨physAddr, located, later⟩ := readable
    by_cases zero : kernel.shared.mainMemory physAddr = 0#8
    · exact ⟨kernel.shared.mainMemory physAddr :: List.replicate count 0#8,
        by simp, holds_cons located fun nonzero => absurd zero nonzero⟩
    · obtain ⟨bytes, length, holds⟩ := induction (later zero)
      exact ⟨kernel.shared.mainMemory physAddr :: bytes, by simp [length],
        holds_cons located fun _ => holds⟩

/-- `SC_PrintString` sends 255 characters: the string and NULs. -/
theorem scPrintString_shows {bytes : List Byte} (enough : 257 ≤ heap) (length : bytes.length = 256)
    (holds : kernel.Holds (kernel.registers r4) bytes) :
    ∃ after, scPrintString.Shows displayed (device heap fresh unset) kernel
      ((cut bytes).take 255) () after := by
  obtain ⟨mmu, -, copied⟩ := @run_userToSystem_honoured heap fresh unset
    kernel (kernel.registers r4) (255#32 + 1#32) bytes
    (by rw [length]; decide) (by omega) (by omega) holds
  have front : ((cut bytes ++ [0#8]).drop 0).take (255#32).toInt.toNat = (cut bytes).take 255 := by
    rw [List.drop_zero, show (255#32).toInt.toNat = 255 from rfl,
      List.take_append_of_le_length (by rw [cut_length]; omega)]
  have printed := @consoleWrite_shows heap fresh unset (kernel.withMmu mmu)
    (cut bytes ++ [0#8]) 0 255#32 (by
      rw [List.length_append, cut_length, length]
      decide)
  rw [front] at printed
  refine ⟨kernel.withMmu mmu, ?_⟩
  refine OnlyCalls.shows_bind (.perform rfl) (run_readRegister r4) ?_
  refine OnlyCalls.shows_bind (onlyCalls_userToSystem (fun _ => rfl)
    (fun _ => rfl) fun _ _ => rfl) copied ?_
  exact OnlyCalls.shows_bind (onlyCalls_lift fun _ => rfl) (run_nonNull _) printed

theorem printString_inv (ready : kernel.machine.Ready)
    (code : kernel.registers r2 = 16#32) {after : Kernel Host}
    (ran : (exceptionHandler .syscallException).run
      (device heap fresh unset) kernel = .ok ((), after)) :
    ∃ bytes, bytes.length = 256 ∧
      kernel.Holds (kernel.registers r4) bytes ∧
      sent (deviceHost heap fresh unset) (exceptionHandler .syscallException)
        kernel = (cut bytes).take 255 := by
  have found : Syscall.ofCode (kernel.registers r2) = some .printString := by
    rw [code]
    rfl
  by_cases enough : 257 ≤ heap
  · have honours : Honours heap (255#32 + 1#32 + 1#32) := ⟨by decide, enough⟩
    by_cases readable : kernel.Readable (kernel.registers r4) 256
    · obtain ⟨bytes, length, holds⟩ := holds_of_readable readable
      obtain ⟨middle, shows⟩ := @scPrintString_shows heap fresh unset kernel
        bytes enough length holds
      exact ⟨bytes, length, holds, (exceptionHandler_shows found shows).2⟩
    · have halted : (syscallCase .printString).run
          (device heap fresh unset) kernel = .error .halted := by
        refine (run_bind_ok (run_readRegister r4)).trans ?_
        rcases (@userToSystem_ends heap fresh unset kernel
          (kernel.registers r4) (255#32 + 1#32) honours ready).cases with
          ⟨value, middle, -, buffer, mmu, -, -, -, -, -, read⟩ |
          ⟨reason, stopped, rfl, -⟩
        · exact absurd read readable
        · rw [run_bind, stopped]
      exact (exceptionHandler_stops found halted after ran).elim
  · have refused : ¬Honours heap (255#32 + 1#32 + 1#32) :=
      fun honours => enough honours.2
    obtain ⟨reason, -, stopped⟩ := @userToSystem_refused heap fresh unset
      kernel Unit (kernel.registers r4) (255#32 + 1#32) refused
      fun buffer => consoleWrite buffer 0 255#32
    have failed : (syscallCase .printString).run
        (device heap fresh unset) kernel =
          .error reason := (run_bind_ok (run_readRegister r4)).trans stopped
    exact (exceptionHandler_stops found failed after ran).elim

end Calls

/-! ## Both calls -/

/-- What passes the loop of `SynchConsole::Read` which waits for a character
other than `EOF`. -/
def passed (typed : List Byte) : List Byte := typed.filter (· ≠ 255#8)

/-- What a display shows of the characters sent to it. -/
def visible (text : List Byte) : List Byte := text.filter (· ≠ 0#8)

/-- A program calls `ReadString` and then, with its registers set anew,
`PrintString`.  If both calls return, these are the characters sent. -/
def echo (environment : Environment Host) (start : Kernel Host)
    (registers : Registers) : Except Departure (List Byte) := do
  let handler : KernelProgram Unit := exceptionHandler .syscallException
  let (_, read) ← handler.run (Kernel.answer environment) start
  let printing : Kernel Host := ⟨registers, read.shared⟩
  let _ ← handler.run (Kernel.answer environment) printing
  return sent environment handler start ++ sent environment handler printing

variable {environment : Environment Host} {start : Kernel Host} {text : List Byte}

theorem echo_inv {registers : Registers} (echoed : echo environment start registers = .ok text) :
    ∃ read final, (exceptionHandler .syscallException).run
        (Kernel.answer environment) start = .ok ((), read) ∧
      (exceptionHandler .syscallException).run (Kernel.answer environment)
        ⟨registers, read.shared⟩ = .ok ((), final) ∧
      text = sent environment (exceptionHandler .syscallException) start ++
        sent environment (exceptionHandler .syscallException) ⟨registers, read.shared⟩ := by
  unfold echo at echoed
  obtain ⟨⟨⟨⟩, read⟩, first, rest⟩ := bind_ok_inv echoed
  obtain ⟨⟨⟨⟩, final⟩, second, result⟩ := bind_ok_inv rest
  cases result
  exact ⟨read, final, first, second, rfl⟩

theorem echo_of_shows {read final : Kernel Host} {registers : Registers} {first second : List Byte}
    (reading : (exceptionHandler .syscallException).Shows displayed
      (Kernel.answer environment) start first () read)
    (printing : (exceptionHandler .syscallException).Shows displayed
      (Kernel.answer environment) ⟨registers, read.shared⟩ second () final) :
    echo environment start registers = .ok (first ++ second) := by
  have sentFirst : sent environment (exceptionHandler .syscallException) start = first := reading.2
  have sentSecond : sent environment (exceptionHandler .syscallException)
      ⟨registers, read.shared⟩ = second := printing.2
  unfold echo
  simp only [reading.1, printing.1, ok_bind, sentFirst, sentSecond]
  rfl

/-! ## Lines in buffers -/

theorem passed_line (line later : List Byte) :
    passed (line ++ 10#8 :: later) = passed line ++ 10#8 :: passed later := by
  simp [passed]

theorem filter_ne_of_absent {character : Byte} (absent : character ∉ text) :
    text.filter (· ≠ character) = text := by
  refine List.filter_eq_self.mpr fun found member => ?_
  simp only [decide_eq_true_eq]
  rintro rfl
  exact absent member

variable {line : List Byte}

theorem passed_of_proper (proper : 255#8 ∉ line) : passed line = line :=
  filter_ne_of_absent proper

theorem visible_of_nulFree (nulFree : 0#8 ∉ text) : visible text = text :=
  filter_ne_of_absent nulFree

theorem visible_append (first second : List Byte) :
    visible (first ++ second) = visible first ++ visible second :=
  List.filter_append ..

theorem visible_nuls (count : Nat) : visible (List.replicate count 0#8) = [] := by
  simp [visible]

theorem visible_ended (nulFree : 0#8 ∉ line) (printable : line.length < 255) (rest : List Byte) :
    visible ((cut (line ++ [0#8] ++ rest)).take 255) = line := by
  rw [List.append_assoc, List.singleton_append, cut_append_nul nulFree,
    List.take_append, visible_append, List.take_replicate, visible_nuls,
    List.append_nil, List.take_of_length_le (by omega),
    visible_of_nulFree nulFree]

/-- If no more than the line is visible, a NUL follows it. -/
theorem nul_of_visible {kernel : Kernel Host} {virtAddr : Word}
    {bytes : List Byte} {byte : Byte} (printable : line.length < 255)
    (length : bytes.length = 256) (holds : kernel.Holds virtAddr bytes)
    (stored : kernel.Holds virtAddr (line ++ [byte])) (nulFree : 0#8 ∉ line)
    (seen : visible ((cut bytes).take 255) = line) : byte = 0#8 := by
  by_contra nonzero
  have complete : 0#8 ∉ line ++ [byte] := by
    rw [List.mem_append, List.mem_singleton, not_or]
    exact ⟨nulFree, Ne.symm nonzero⟩
  have front : ((cut bytes).take 255).take (line.length + 1) = line ++ [byte] := by
    rw [List.take_take, min_eq_left (by omega), ← cut_take,
      Holds.cut_unique (Holds.take holds (line.length + 1)) stored
        (by rw [List.length_take, List.length_append, length,
          List.length_singleton]; omega),
      cut_of_nulFree complete]
  have count := congrArg List.length seen
  rw [← List.take_append_drop (line.length + 1) ((cut bytes).take 255),
    visible_append, front, visible_of_nulFree complete, List.length_append,
    List.length_append, List.length_singleton] at count
  omega

theorem cellBytes_line {mmu : Mmu} {virtAddr : Word} {place : Nat → Nat}
    {memory : Nat → Byte} (nulFree : 0#8 ∉ line)
    (cells : Cells mmu virtAddr (line.length + 1) true place) :
    cellBytes (storeString place line 0 memory) place (line.length + 1) =
      line ++ [memory (place line.length)] := by
  refine (eq_iff_getD (by rw [cellBytes_length, List.length_append]; rfl)).mpr
    fun index inside => ?_
  rw [List.length_append, List.length_singleton] at inside
  rw [cellBytes_getD _ _ inside]
  by_cases within : index < line.length
  · have stored := storeString_at cells.distinct line 0 memory (by omega) within
    have unended : ¬Ended line index := by
      rintro ⟨earlier, before, zero⟩
      rw [List.getD_eq_getElem _ _ (before.trans within)] at zero
      exact nulFree (zero ▸ List.getElem_mem _)
    rw [Nat.zero_add, if_neg unended] at stored
    rw [stored, List.getD_append _ _ _ _ within]
  · obtain rfl : index = line.length := by omega
    rw [storeString_outside cells.distinct line 0 memory (by omega) (by omega)
      (by omega), List.getD_append_right _ _ _ _ le_rfl, Nat.sub_self]
    rfl

/-- A buffer which cannot be had stops the first call. -/
theorem readString_enough {heap : Nat} {fresh : Nat → Byte} {unset : Byte}
    {read : Kernel Host} (code : start.registers r2 = 15#32)
    (ran : (exceptionHandler .syscallException).run
      (device heap fresh unset) start = .ok ((), read)) :
    (start.registers r5).toNat ≤ heap := by
  have found : Syscall.ofCode (start.registers r2) = some .readString := by
    rw [code]
    rfl
  by_contra large
  have refused : ¬Honours heap (start.registers r5) :=
    fun honours => large honours.2
  obtain ⟨reason, -, stopped⟩ := @newBuffer_refused heap fresh unset start
    Unit (start.registers r5) refused fun buffer => do
      let read ← consoleRead buffer (start.registers r5)
      let _ ← systemToUser (start.registers r4) read.1 read.2
  have failed : (syscallCase .readString).run
      (device heap fresh unset) start =
        .error reason :=
    (run_bind_ok (run_readRegister r4)).trans ((run_bind_ok (run_readRegister r5)).trans stopped)
  exact exceptionHandler_stops found failed read ran

section Echo

variable {heap : Nat} {fresh : Nat → Byte} {unset : Byte}
  {start : Kernel Host} {virtAddr size : Word} {place : Nat → Nat}
  {line later : List Byte}
  (reads : start.registers r2 = 15#32 ∧ start.registers r4 = virtAddr ∧ start.registers r5 = size)
  (cells : Cells start.shared.mmu virtAddr size.toNat true place)
  (short : line.length < size.toNat)
  (plain : ∀ character ∈ line, character ≠ 0#8 ∧ character ≠ 10#8 ∧ character ≠ 1#8)
  (typed : start.shared.rest.typed = passed (line ++ 10#8 :: later))

include reads cells short plain typed

theorem readString_shows (enough : size.toNat ≤ heap) :
    ∃ read, (exceptionHandler .syscallException).Shows displayed
        (device heap fresh unset) start [] () read ∧
      read.shared.mmu.mapping = start.shared.mmu.mapping ∧
      read.shared.mainMemory = storeString place (passed line) 0 start.shared.mainMemory := by
  obtain ⟨code, rfl, rfl⟩ := reads
  have found : Syscall.ofCode (start.registers r2) = some .readString := by
    rw [code]
    rfl
  have within : (passed line).length ≤ line.length :=
    List.length_filter_le ..
  obtain ⟨after, shows, mapping, memory⟩ := @scReadString_shows heap fresh
    unset start (passed line) (passed later) place cells enough (by omega)
    (fun character member => (plain character (List.mem_of_mem_filter
      member)).2) (by rw [typed, passed_line])
  exact ⟨after.advanced, exceptionHandler_shows found shows, mapping, memory⟩

/-- What both calls send, if they return: the string which `PrintString`
finds. -/
theorem echo_ok_inv {registers : Registers} {text : List Byte}
    (prints : registers r2 = 16#32 ∧ registers r4 = virtAddr)
    (ready : (⟨registers, start.shared⟩ : Kernel Host).machine.Ready)
    (echoed : echo (deviceHost heap fresh unset) start registers = .ok text) :
    ∃ (printing : Kernel Host) (bytes : List Byte), bytes.length = 256 ∧
      printing.Holds virtAddr bytes ∧ text = (cut bytes).take 255 ∧
      printing.shared.mmu.mapping = start.shared.mmu.mapping ∧
      printing.shared.mainMemory = storeString place (passed line) 0 start.shared.mainMemory := by
  obtain ⟨read, final, first, second, rfl⟩ := echo_inv echoed
  have enough : size.toNat ≤ heap := by
    rw [← reads.2.2]
    exact readString_enough reads.1 first
  obtain ⟨middle, shows, mapping, memory⟩ := @readString_shows heap fresh
    unset start virtAddr size place line later reads cells short plain typed
    enough
  have same := first.symm.trans shows.1
  cases same
  have readyAfter : (⟨registers, read.shared⟩ : Kernel Host).machine.Ready :=
    ⟨ready.configured.of_mapping mapping, ready.pending⟩
  obtain ⟨bytes, length, holds, text⟩ := printString_inv readyAfter prints.1 second
  have silent : sent (deviceHost heap fresh unset)
      (exceptionHandler .syscallException) start = [] := shows.2
  rw [show (⟨registers, read.shared⟩ : Kernel Host).registers r4 = virtAddr from prints.2] at holds
  exact ⟨_, bytes, length, holds, by rw [silent, text]; rfl, mapping, memory⟩

/-- What both calls send, if the blocks can be had. -/
theorem echo_of_holds {registers : Registers}
    (prints : registers r2 = 16#32 ∧ registers r4 = virtAddr)
    (enough : size.toNat ≤ heap) (block : 257 ≤ heap) :
    ∃ printing : Kernel Host,
      printing.shared.mmu.mapping = start.shared.mmu.mapping ∧
      printing.shared.mainMemory =
        storeString place (passed line) 0 start.shared.mainMemory ∧
      ∀ bytes, bytes.length = 256 → printing.Holds virtAddr bytes →
        echo (deviceHost heap fresh unset) start registers = .ok ((cut bytes).take 255) := by
  obtain ⟨read, reading, mapping, memory⟩ := @readString_shows heap fresh
    unset start virtAddr size place line later reads cells short plain typed
    enough
  refine ⟨⟨registers, read.shared⟩, mapping, memory, ?_⟩
  intro bytes length holds
  have found : Syscall.ofCode (registers r2) = some .printString := by
    rw [prints.1]
    rfl
  rw [← prints.2] at holds
  obtain ⟨middle, shows⟩ := @scPrintString_shows heap fresh unset
    ⟨registers, read.shared⟩ bytes block length holds
  exact echo_of_shows reading (exceptionHandler_shows found shows)

omit reads plain typed in
/-- The line stands in the buffer, and behind it what was there before. -/
theorem holds_line {printing : Kernel Host} (nulFree : 0#8 ∉ line)
    (mapping : printing.shared.mmu.mapping = start.shared.mmu.mapping)
    (memory : printing.shared.mainMemory = storeString place line 0 start.shared.mainMemory) :
    printing.Holds virtAddr (line ++ [start.shared.mainMemory (place line.length)]) := by
  have within : Cells printing.shared.mmu virtAddr (line.length + 1) true
      place :=
    Cells.congr ⟨fun index inside => cells.located index (by omega),
      fun index inside other inside' =>
        cells.distinct index (by omega) other (by omega)⟩ mapping
  have held := within.holds
  rwa [memory, cellBytes_line nulFree within] at held

end Echo

/-- A program which reads a line into a buffer of `n` bytes and prints the
buffer never sends exactly the line.  As far as a display shows it, the line
appears if and only if the buffer held a NUL behind the place of the line. -/
theorem echo_line_iff (heap : Nat) (fresh : Nat → Byte) (unset : Byte)
    (start : Kernel Host) (registers : Registers) (virtAddr size : Word)
    (place : Nat → Nat) (line later : List Byte)
    (reads : start.registers r2 = 15#32 ∧ start.registers r4 = virtAddr ∧ start.registers r5 = size)
    (prints : registers r2 = 16#32 ∧ registers r4 = virtAddr)
    (ready : (⟨registers, start.shared⟩ : Kernel Host).machine.Ready)
    (cells : Cells start.shared.mmu virtAddr size.toNat true place)
    (short : line.length < size.toNat) (printable : line.length < 255)
    (plain : ∀ character ∈ line, character ≠ 0#8 ∧ character ≠ 10#8 ∧ character ≠ 1#8)
    (typed : start.shared.rest.typed = passed (line ++ 10#8 :: later)) :
    echo (deviceHost heap fresh unset) start registers ≠ .ok line ∧
    (size.toNat ≤ heap → 257 ≤ heap → 255#8 ∉ line →
      ((echo (deviceHost heap fresh unset) start registers).map visible =
          .ok line ↔
        start.shared.mainMemory (place line.length) = 0#8)) := by
  have nulFree : 0#8 ∉ line := fun member => (plain 0#8 member).1 rfl
  constructor
  · intro echoed
    obtain ⟨printing, bytes, length, -, same, -⟩ :=
      echo_ok_inv reads cells short plain typed prints ready echoed
    have count := congrArg List.length same
    rw [List.length_take, cut_length, length] at count
    omega
  · intro enough block proper
    have whole : passed line = line := passed_of_proper proper
    generalize stale : start.shared.mainMemory (place line.length) = byte
    constructor
    · intro shown
      cases echoed : echo (deviceHost heap fresh unset) start registers with
      | error reason =>
        rw [echoed] at shown
        cases shown
      | ok text =>
        rw [echoed] at shown
        obtain ⟨printing, bytes, length, holds, rfl, mapping, memory⟩ :=
          echo_ok_inv reads cells short plain typed prints ready echoed
        rw [whole] at memory
        have stored := holds_line cells short nulFree mapping memory
        rw [stale] at stored
        exact nul_of_visible printable length holds stored nulFree (Except.ok.inj shown)
    · rintro rfl
      obtain ⟨printing, mapping, memory, shows⟩ := @echo_of_holds heap fresh
        unset start virtAddr size place line later reads cells short plain
        typed registers prints enough block
      rw [whole] at memory
      have stored := holds_line cells short nulFree mapping memory
      rw [stale] at stored
      rw [shows (line ++ [0#8] ++ List.replicate (255 - line.length) 0#8)
        (by simp; omega) (Holds.append stored (by simp) _)]
      exact congrArg Except.ok (visible_ended nulFree printable _)

/-- The program reads a string into a buffer. -/
def readingString (typed : List Byte) (virtAddr size : Word) : Kernel Host :=
  requesting typed 15#32 virtAddr size 0#32

/-- The registers with which it prints the buffer. -/
def printingString (virtAddr : Word) : Registers :=
  (requesting [] 16#32 virtAddr 0#32 0#32).registers

/-- The buffer has a NUL behind its first byte. -/
theorem echo_line_iff_one_character : echo (deviceHost 1000 (fun _ => 0#8) 0#8)
        (readingString [104#8, 10#8] 0#32 4#32) (printingString 0#32) ≠
          .ok [104#8] ∧
      (echo (deviceHost 1000 (fun _ => 0#8) 0#8) (readingString [104#8, 10#8] 0#32 4#32)
        (printingString 0#32)).map visible = .ok [104#8] := by
  have cells : Cells sharedWithBytes.mmu 0#32 4 true id :=
    ⟨by decide, fun _ _ _ _ same => same⟩
  have settled := echo_line_iff 1000 (fun _ => 0#8) 0#8
    (readingString [104#8, 10#8] 0#32 4#32) (printingString 0#32) 0#32 4#32
    id [104#8] [] ⟨rfl, rfl, rfl⟩ ⟨rfl, rfl⟩ ⟨rfl, by decide⟩ cells
    (by decide) (by decide) (by decide) rfl
  exact ⟨settled.1, (settled.2 (by decide) (by decide) (by decide)).mpr rfl⟩

/-- Two characters are read into a buffer of four which holds `xxxx`, and 255
characters are printed. -/
theorem stale_bytes_printed : (echo (deviceHost 1000 (fun _ => 0#8) 0#8)
      (readingString [104#8, 105#8, 10#8] 8#32 4#32)
      (printingString 8#32)).toOption = some ([104#8, 105#8] ++ List.replicate 253 120#8) := by
  have located : ∀ index, index < 256 →
      sharedWithBytes.mmu.locate (8#32 + BitVec.ofNat 32 index) true = some (8 + index) := by
    decide +kernel
  have cells : Cells sharedWithBytes.mmu 8#32 256 true (8 + ·) :=
    ⟨located, fun _ _ _ _ same => Nat.add_left_cancel same⟩
  have buffer : Cells sharedWithBytes.mmu 8#32 4 true (8 + ·) :=
    ⟨fun index inside => located index (by omega), fun _ _ _ _ same => Nat.add_left_cancel same⟩
  obtain ⟨printing, mapping, memory, shows⟩ := @echo_of_holds 1000
    (fun _ => 0#8) 0#8 (readingString [104#8, 105#8, 10#8] 8#32 4#32) 8#32
    4#32 (8 + ·) [104#8, 105#8] [] ⟨rfl, rfl, rfl⟩ buffer (by decide)
    (by decide) rfl (printingString 8#32) ⟨rfl, rfl⟩ (by decide) (by decide)
  have holds := (cells.congr mapping).holds
  have found : cellBytes printing.shared.mainMemory (8 + ·) 256 =
      [104#8, 105#8] ++ List.replicate 254 120#8 := by
    rw [memory]
    decide +kernel
  rw [shows _ (cellBytes_length ..) holds, found]
  decide +kernel

end Handler

end Nachos
