import Nachos.Userprog.LoadDelay
import Nachos.Userprog.LoadedImage
import Nachos.Userprog.PTable
import Nachos.Userprog.RoundTrip

/-!
# The system call `Exec`

`ExecUpdate` answers as soon as it has found a slot and forked a thread.
The program itself is loaded later, by `StartProcess_2` in the new thread,
when the pid has been returned and nothing can be undone.
-/

open Words Memory Semaphores Calls Program Transition Function

namespace Nachos

namespace Processes

/-- `ExecUpdate` from the end of its checks on. -/
def execFinish (state : Processes) (thread : Nat) :
    Except Trouble Processes :=
  match state.points thread with
  | .execFork _ _ => do
    let state ← state.run thread
    let state ← state.run thread
    state.run thread
  | _ => state.run thread

/-- `ExecUpdate` without a switch to another thread. -/
def execUpdate (state : Processes) (thread : Nat) (opened itself : Bool) :
    Except Trouble Processes := do
  let state ← state.next (.exec thread opened itself)
  let state ← state.run thread
  let state ← state.run thread
  state.execFinish thread

/-- A process which was not there before. -/
structure NewProcess (before after : Processes) (pid : Pid) : Prop where
  free : before.bm.test pid = false
  slot : after.pcb pid = some before.created
  made : after.created = before.created + 1
  numbered : after.pids before.created = pid
  starting : after.points before.created = .starting

section

variable {state : Processes} {thread : Nat} {opened itself : Bool} {value : Word}

/-- After `bmsem->P()`. -/
def entered (state : Processes) (thread : Nat) (opened itself : Bool) :
    Processes :=
  { state.setPoint thread (.execChecks opened itself) with
    bmsem := .new 0 }

theorem execUpdate_eq (user : state.points thread = .user value) (free : state.bmsem = .new 1) :
    state.execUpdate thread opened itself =
      ((state.entered thread opened itself).execChecks thread opened itself).execFinish thread := by
  have called : state.next (.exec thread opened itself) =
      .ok (state.setPoint thread (.execEnter opened itself)) := by
    simp only [next, user]
  have granted : (state.setPoint thread (.execEnter opened itself)).run
      thread = .ok (state.entered thread opened itself) := by
    simp only [run, setPoint, update_self, waitOnBmsem, free, entered]
    simp [Semaphore.new, Semaphore.take]
  have checked : (state.entered thread opened itself).run thread =
      .ok ((state.entered thread opened itself).execChecks thread opened itself) := by
    simp only [run, entered, setPoint, update_self]
  unfold execUpdate
  rw [called, ok_bind, granted, ok_bind, checked, ok_bind]

theorem execUpdate_refused (user : state.points thread = .user value) (free : state.bmsem = .new 1)
    (refused : opened = false ∨ itself = true ∨ state.bm.numClear = 0) :
    state.execUpdate thread opened itself = .ok (state.setPoint thread (.user (-1#32))) := by
  have left : (state.entered thread opened itself).execChecks thread opened
      itself = (state.entered thread opened itself).setPoint thread (.execLeave (-1#32)) := by
    unfold execChecks
    by_cases early : opened = false ∨ itself = true
    · rw [if_pos (by simpa using early)]
    · rw [if_neg (by simpa using early)]
      have full : state.bm.numClear = 0 := by tauto
      simp [entered, setPoint, BitMap.find_of_full full]
  rw [execUpdate_eq user free, left]
  simp only [execFinish, run, entered, setPoint, update_self, update_idem]
  rw [free]
  rfl

/-- After the checks, with a PCB in a free slot. -/
def placed (state : Processes) (thread : Nat) (pid : Pid) : Processes :=
  { state with
    bm := state.bm.mark pid
    pcb := update state.pcb pid (some state.created)
    objects := update state.objects state.created
      (some { PCB.new pid (pidWord (state.pids thread)) with
        multex := .new 0 })
    created := state.created + 1
    creator := update state.creator state.created (some thread)
    points := update state.points thread (.execFork pid state.created) }

theorem execChecks_eq {pid : Pid} (found : state.bm.find = ((pid.val : Int), state.bm.mark pid)) :
    state.execChecks thread true false = state.placed thread pid := by
  have inside : 0 ≤ (pid.val : Int) ∧ (pid.val : Int).toNat < maxProcess :=
    ⟨Int.natCast_nonneg _, pid.isLt⟩
  unfold execChecks
  rw [if_neg (by decide), found]
  simp only
  rw [dif_pos inside]
  rfl

theorem placed_finish {pid : Pid} (older : thread < state.created)
    (unset : state.bm.test pid = false) :
    ∃ after, (state.placed thread pid).execFinish thread = .ok after ∧
      after.points thread = .user (pidWord pid) ∧
      NewProcess state after pid := by
  have apart : state.created ≠ thread := older.ne'
  let forked := (state.placed thread pid).execFork thread pid state.created
  let signalled := forked.setObject state.created (.new pid (pidWord (state.pids thread)))
  let leaving := signalled.setPoint thread (.execLeave (pidWord pid))
  have forking : (state.placed thread pid).points thread =
      .execFork pid state.created := update_self ..
  have first : (state.placed thread pid).run thread = .ok forked := by
    rw [run, forking]
  have object : forked.object state.created = .ok { PCB.new pid (pidWord (state.pids thread)) with
        multex := .new 0 } := by
    simp [Processes.object, forked, execFork, placed]
  have second : forked.run thread = .ok leaving := by
    rw [run, show forked.points thread = .execForked pid state.created from
      update_self ..]
    simp only [signalOn, object, ok_bind]
    rfl
  have third : leaving.run thread = .ok { leaving.setPoint thread
      (.user (pidWord pid)) with bmsem := leaving.bmsem.release } := by
    rw [run, show leaving.points thread = .execLeave (pidWord pid) from
      update_self ..]
  refine ⟨{ leaving.setPoint thread (.user (pidWord pid)) with
      bmsem := leaving.bmsem.release }, ?_, update_self .., unset,
    update_self .., rfl, update_self .., ?_⟩
  · unfold execFinish
    rw [forking]
    simp only [first, second, third, ok_bind]
  · simp [leaving, signalled, forked, setPoint, setObject, execFork, apart]

theorem execUpdate_created (user : state.points thread = .user value)
    (free : state.bmsem = .new 1) (older : thread < state.created)
    (room : 0 < state.bm.numClear) :
    ∃ pid after, state.execUpdate thread true false = .ok after ∧
      after.points thread = .user (pidWord pid) ∧
      NewProcess state after pid := by
  obtain ⟨pid, unset, found⟩ := BitMap.find_of_clear room
  obtain ⟨after, finished, returned, new⟩ := @placed_finish
    (state.entered thread true false) thread pid older unset
  refine ⟨pid, after, ?_, returned, new.free, new.slot, new.made, new.numbered, new.starting⟩
  rw [execUpdate_eq user free, execChecks_eq (by exact found), finished]

end

end Processes

/-- What `Exec` works with, beside main memory.  `names` is what `getName`
of a thread reads: a thread made by `Exec` has the buffer of the call for
its name, which the handler deletes.  The names of the files are kept in
the PCBs. -/
structure Programs where
  processes : Processes
  gPhysPageBitMap : BitMap numPhysPages
  addrLock : Semaphore Nat
  spaces : Nat → LoadPoint
  files : CString → Option Executable
  names : Nat → CString
  filenames : Nat → CString

namespace Programs

def execUpdate (programs : Programs) (thread : Nat) (filename : CString) :
    Except Trouble (Word × Programs) := do
  let processes ← programs.processes.execUpdate thread
    (programs.files filename).isSome (programs.names thread = filename)
  match processes.points thread with
  | .user pid =>
    return (pid, { programs with
      processes := processes
      filenames :=
        if processes.created = programs.processes.created then
          programs.filenames
        else update programs.filenames programs.processes.created filename })
  | _ => .error .disabled

/-- The file which `StartProcess_2` loads. -/
def program (programs : Programs) (thread : Nat) : Option Executable := do
  let number ← programs.processes.pcb (programs.processes.pids thread)
  programs.files (programs.filenames number)

/-- The call returns `-1`: the file does not open, has the name of the
calling thread, or finds no free slot. -/
def Refuses (programs : Programs) (thread : Nat) (filename : CString) :
    Prop :=
  programs.files filename = none ∨ programs.names thread = filename ∨
    programs.processes.bm.numClear = 0

end Programs

namespace Shared

def loading (shared : Shared Programs) : Loading Nat where
  gPhysPageBitMap := shared.rest.gPhysPageBitMap
  addrLock := shared.rest.addrLock
  mainMemory := shared.mainMemory
  points := shared.rest.spaces

/-- The address space of the thread has been loaded. -/
def Loaded (shared : Shared Programs) (thread : Nat) : Prop :=
  ∃ pageTable, shared.rest.spaces thread = .ready (some pageTable)

/-- The thread loads the image of its file when it comes to run
`StartProcess_2`. -/
def Loads (shared : Shared Programs) (thread : Nat) : Prop :=
  ∃ file begun, shared.rest.program thread = some file ∧
    shared.loading.next (.start thread (some file)) = some begun ∧
    begun.LoadsImage thread file

/-- Nobody but the calling program gets to see a refused call. -/
structure Unchanged (before after : Shared Programs) (thread : Nat) :
    Prop where
  rest : after.rest = { before.rest with
    processes := before.rest.processes.setPoint thread (.user (-1#32)) }
  mainMemory : after.mainMemory = before.mainMemory
  mapping : after.mmu.mapping = before.mmu.mapping
  openf : after.openf = before.openf
  semTab : after.semTab = before.semTab

/-- A thread in its user program can make the call without waiting, and
the number of the next thread has not been used. -/
structure Ready (shared : Shared Programs) (thread : Nat) : Prop where
  user : ∃ value, shared.rest.processes.points thread = .user value
  older : thread < shared.rest.processes.created
  bmsem : shared.rest.processes.bmsem = .new 1
  addrLock : shared.rest.addrLock = .new 1
  absent : shared.rest.spaces shared.rest.processes.created = .absent

end Shared

/-- How trouble in the process table ends a system call. -/
def Trouble.departure : Trouble → Departure
  | .disabled => .blocked
  | .halted => .halted
  | .assertion => .fault .assertion
  | .nullPointer => .fault .bounds
  | .deleted => .fault .bounds

/-- The kernel behind the handler of a thread; `fresh` is what new memory
holds, and `other` serves the other calls. -/
def execHost (fresh : Nat → Byte) (thread : Nat)
    (other : Environment Programs) : Environment Programs
  | .newChars _, shared => .ok (some fresh, shared)
  | .execUpdate filename, shared =>
    match shared.rest.execUpdate thread filename with
    | .ok (pid, programs) => .ok (pid, { shared with rest := programs })
    | .error trouble => .error trouble.departure
  | request, shared => other request shared

namespace Programs

variable {programs : Programs} {thread : Nat} {filename : CString} {value : Word}

variable (user : programs.processes.points thread = .user value)
  (free : programs.processes.bmsem = .new 1)
include user free

theorem execUpdate_refused (refuses : programs.Refuses thread filename) :
    programs.execUpdate thread filename = .ok (-1#32, { programs with
      processes := programs.processes.setPoint thread (.user (-1#32)) }) := by
  unfold execUpdate
  rw [Processes.execUpdate_refused user free (by
    simpa [Refuses] using refuses), ok_bind]
  simp only [Processes.setPoint, update_self, if_true]
  rfl

theorem execUpdate_created (older : thread < programs.processes.created)
    (accepts : ¬programs.Refuses thread filename) :
    ∃ pid processes, programs.execUpdate thread filename = .ok (pidWord pid, { programs with
          processes := processes
          filenames := update programs.filenames
            programs.processes.created filename }) ∧
      programs.processes.NewProcess processes pid := by
  unfold Refuses at accepts
  push Not at accepts
  obtain ⟨opens, other, room⟩ := accepts
  obtain ⟨pid, processes, updated, returned, new⟩ :=
    Processes.execUpdate_created user free older (Nat.pos_of_ne_zero room)
  refine ⟨pid, processes, ?_, new⟩
  unfold execUpdate
  rw [Option.isSome_iff_ne_none.mpr opens, decide_eq_false other, updated, ok_bind, returned]
  simp only [new.made, Nat.succ_ne_self, if_false]
  rfl

end Programs

namespace Handler

variable {fresh : Nat → Byte} {other : Environment Programs}
  {thread : Nat} {kernel : Kernel Programs} {virtAddr : Word}
  {bytes : List Byte}

/-- What a program may rely on when it calls `Exec`: the call returns, either
with `-1` and without a change, or with the pid of a new process which has an
address space. -/
def ExecContract (HasSpace : Shared Programs → Nat → Prop)
    (environment : Environment Programs) (thread : Nat)
    (kernel : Kernel Programs) : Prop :=
  ∃ after, (exceptionHandler .syscallException).run
      (Kernel.answer environment) kernel = .ok ((), after) ∧
    (after.registers r2 = -1#32 ∧
        kernel.shared.Unchanged after.shared thread ∨
      ∃ pid, after.registers r2 = pidWord pid ∧ kernel.shared.rest.processes.NewProcess
          after.shared.rest.processes pid ∧
        HasSpace after.shared kernel.shared.rest.processes.created)

section Returning

variable (code : kernel.registers r2 = 2#32) (first : kernel.registers r4 = virtAddr)
  (length : bytes.length = 33) (holds : kernel.Holds virtAddr bytes)
include code first length holds

theorem run_exec {pid : Word} {programs : Programs} (answered : kernel.shared.rest.execUpdate thread
      (bytes.takeWhile (· ≠ 0#8)) = .ok (pid, programs)) :
    ∃ after mmu, (exceptionHandler .syscallException).run
        (Kernel.answer (execHost fresh thread other)) kernel =
          .ok ((), after) ∧
      after.registers r2 = pid ∧
      mmu.mapping = kernel.shared.mmu.mapping ∧
      after.shared = { kernel.shared with
        mmu := mmu
        rest := programs } := by
  obtain ⟨mmu, same, copied⟩ := @run_userToSystem _
    (execHost fresh thread other) kernel (fun _ _ => ⟨fresh, rfl⟩) virtAddr
    (32#32 + 1#32) bytes (by rw [length]; rfl) (by rw [length]; decide)
    holds
  have asked : (host (.execUpdate (cString (cut bytes ++ [0#8])))).run
      (Kernel.answer (execHost fresh thread other)) (kernel.withMmu mmu) =
        .ok (pid, { kernel with shared := { kernel.shared with
          mmu := mmu
          rest := programs } }) := by
    rw [run_host]
    simp only [execHost, cString_cut, show (kernel.withMmu mmu).shared.rest =
      kernel.shared.rest from rfl, answered]
    rfl
  subst first
  obtain ⟨after, returned, shared, result⟩ :=
    @run_exceptionHandler _ _ _ .exec _ (by rw [code]; rfl)
      ((run_bind_ok (run_readRegister r4)).trans ((run_bind_ok copied).trans
        ((run_bind_ok asked).trans (run_writeRegister r2 pid))))
  exact ⟨after, mmu, returned, result.trans (Kernel.withRegister_self ..), same, shared⟩

variable (ready : kernel.shared.Ready thread)
include ready

theorem execContract_of_refused {HasSpace : Shared Programs → Nat → Prop}
    (refuses : kernel.shared.rest.Refuses thread (bytes.takeWhile (· ≠ 0#8))) :
    ExecContract HasSpace (execHost fresh thread other) thread kernel := by
  obtain ⟨value, user⟩ := ready.user
  obtain ⟨after, mmu, returned, result, same, shared⟩ :=
    @run_exec fresh other _ _ _ _ code first length holds _ _
      (Programs.execUpdate_refused user ready.bmsem refuses)
  refine ⟨after, returned, .inl ⟨result, ?_⟩⟩
  rw [shared]
  exact ⟨rfl, rfl, same, rfl, rfl⟩

/-- A call which is not refused leaves everything the constructor of the new
thread will need as it was. -/
theorem execContract_of_created
    (accepts : ¬kernel.shared.rest.Refuses thread (bytes.takeWhile (· ≠ 0#8))) :
    ∃ shared : Shared Programs, shared.loading = kernel.shared.loading ∧
      shared.rest.program kernel.shared.rest.processes.created =
        kernel.shared.rest.files (bytes.takeWhile (· ≠ 0#8)) ∧
      ∀ HasSpace, ExecContract HasSpace (execHost fresh thread other) thread
          kernel ↔
        HasSpace shared kernel.shared.rest.processes.created := by
  obtain ⟨value, user⟩ := ready.user
  obtain ⟨pid, processes, updated, new⟩ :=
    Programs.execUpdate_created user ready.bmsem ready.older accepts
  obtain ⟨after, mmu, returned, result, same, shared⟩ :=
    @run_exec fresh other _ _ _ _ code first length holds _ _ updated
  refine ⟨after.shared, ?_, ?_, fun HasSpace => ?_⟩
  · rw [shared]
    rfl
  · rw [shared]
    simp only [Programs.program, new.numbered, new.slot, Option.bind_eq_bind,
      Option.bind_some, update_self]
  · constructor
    · rintro ⟨other, returned', outcome⟩
      rw [returned] at returned'
      cases returned'
      rcases outcome with ⟨-, unchanged⟩ | ⟨-, -, -, space⟩
      · have counted := congrArg (fun rest => rest.processes.created) unchanged.rest
        rw [shared] at counted
        exact absurd (new.made.symm.trans counted) (Nat.succ_ne_self _)
      · exact space
    · intro space
      refine ⟨after, returned, .inr ⟨pid, result, ?_, space⟩⟩
      rw [shared]
      exact new

end Returning

/-- The call keeps the contract only if it is refused.  If the new process
is given the time to load its program, the contract is also kept for a file
which is linked to start at address 0, is there as a whole and fits into the
clear frames. -/
theorem exec_contract_iff (fresh : Nat → Byte) (other : Environment Programs)
    (thread : Nat) (kernel : Kernel Programs) (virtAddr : Word)
    (bytes : List Byte) (code : kernel.registers r2 = 2#32)
    (first : kernel.registers r4 = virtAddr) (length : bytes.length = 33)
    (holds : kernel.Holds virtAddr bytes)
    (ready : kernel.shared.Ready thread) :
    (ExecContract Shared.Loaded (execHost fresh thread other) thread
        kernel ↔
      kernel.shared.rest.Refuses thread (bytes.takeWhile (· ≠ 0#8))) ∧
    ((kernel.shared.rest.Refuses thread (bytes.takeWhile (· ≠ 0#8)) ∨
      ∃ file, kernel.shared.rest.files (bytes.takeWhile (· ≠ 0#8)) =
          some file ∧
        AddrSpace.Linked file ∧
        AddrSpace.programSize file.header ≤
          kernel.shared.rest.gPhysPageBitMap.numClear * pageSize) →
      ExecContract Shared.Loads (execHost fresh thread other) thread kernel) := by
  by_cases refuses : kernel.shared.rest.Refuses thread (bytes.takeWhile (· ≠ 0#8))
  · have kept := fun HasSpace => @execContract_of_refused fresh other _ _ _ _
      code first length holds ready HasSpace refuses
    exact ⟨iff_of_true (kept _) refuses, fun _ => kept _⟩
  · obtain ⟨shared, loading, program, contract⟩ :=
      @execContract_of_created fresh other _ _ _ _ code first length holds ready refuses
    simp only [contract, refuses, false_or, iff_false]
    constructor
    · rintro ⟨pageTable, loaded⟩
      have spaces : shared.rest.spaces = kernel.shared.rest.spaces :=
        congrArg Loading.points loading
      rw [spaces, ready.absent] at loaded
      cases loaded
    · rintro ⟨file, opened, linked, fits⟩
      obtain ⟨begun, started, loads⟩ :=
        @Loading.exists_loadsImage _ _ kernel.shared.loading _ _ ready.absent ready.addrLock
          linked fits
      refine ⟨file, begun, program.trans opened, ?_, loads⟩
      rw [loading]
      exact started

/-- A thread whose constructor has found too few frames has no pages, and a
pointer to a page table which is not set.  If it is not `NULL`, the first
instruction halts the machine. -/
theorem unset_space_halts {σ : Type} (environment : Environment σ)
    (kernel : Kernel σ) (memory : Nat → Byte) :
    ∃ raised, Machine.oneInstruction
        ⟨AddrSpace.initRegisters 0, memory, ⟨some [], none⟩⟩ =
          .error (.raised .addressErrorException raised) ∧
      (exceptionHandler .addressErrorException).run
        (Kernel.answer environment) (kernel.withMachine raised) = .error .halted := by
  let machine : Machine := ⟨AddrSpace.initRegisters 0, memory, ⟨some [], none⟩⟩
  obtain ⟨raised, stop⟩ := @Machine.raiseException_eq machine
    (Nat.zero_lt_succ _) .addressErrorException 0#32
  have fetched : machine.readMem 0#32 4 = .error (.raised .addressErrorException raised) := by
    rw [← stop]
    rfl
  refine ⟨raised, ?_, rfl⟩
  rw [Machine.oneInstruction, Machine.run_oneInstruction,
    show machine.registers .pcReg = 0#32 from rfl, fetched]

/-- A main program with one page and the name `p` at address 0, and a file
of this name. -/
def callerOf (file : Executable) : Kernel Programs where
  registers := fun num => if num = r2 then 2#32 else 0#32
  shared :=
    { mainMemory := fun address => if address = 0 then 112#8 else 0#8
      mmu := ⟨some [AddrSpace.entry 0 0], none⟩
      openf := fun _ => none
      semTab := .new (fun _ => 0#32) fun _ => .null
      rest :=
        { processes := .boot (fun _ => 0#32) 0#32
          gPhysPageBitMap := (BitMap.new fun _ => 0#32).mark ⟨0, by decide⟩
          addrLock := .new 1
          spaces := update (fun _ => .absent) 0 (.ready (some [AddrSpace.entry 0 0]))
          files := fun name => if name = [112#8] then some file else none
          names := fun _ => []
          filenames := fun _ => [] } }

def execOnly : Environment Programs :=
  execHost (fun _ => 0#8) 0 fun _ _ => .error .blocked

theorem exec_contract_iff_small_program : ExecContract Shared.Loads execOnly 0
        (callerOf Loading.smallProgram) ∧
      ¬ExecContract Shared.Loaded execOnly 0 (callerOf Loading.smallProgram) := by
  have ready : (callerOf Loading.smallProgram).shared.Ready 0 :=
    ⟨⟨0#32, rfl⟩, Nat.zero_lt_one, rfl, rfl, rfl⟩
  have holds : (callerOf Loading.smallProgram).Holds 0#32 (112#8 :: List.replicate 32 0#8) := by
    intro index inside open'
    obtain rfl | rfl : index = 0 ∨ index = 1 := by
      by_contra beyond
      exact open' ⟨1, by omega, rfl⟩
    · exact ⟨0, rfl, rfl⟩
    · exact ⟨1, rfl, rfl⟩
  obtain ⟨atReturn, later⟩ := exec_contract_iff (fun _ => 0#8)
    (fun _ _ => .error .blocked) 0 (callerOf Loading.smallProgram) 0#32
    (112#8 :: List.replicate 32 0#8) rfl rfl rfl holds ready
  refine ⟨later (.inr ⟨Loading.smallProgram, rfl, Loading.smallProgram_linked,
    by decide +kernel⟩), ?_⟩
  rw [execOnly, atReturn]
  rintro (unopened | itself | full)
  · cases unopened
  · cases itself
  · exact absurd full (by decide +kernel)

/-- No NOFF file. -/
def plainFile : Executable where
  contents := List.replicate 40 0#8
  fresh := fun _ => 0#8

/-- A NOFF file with `uninitData.size = 1048576`. -/
def largeProgram : Executable where
  contents := [0xad#8, 0xdf#8, 0xba#8] ++ List.replicate 35 0#8 ++ [0x10#8, 0x00#8]
  fresh := fun _ => 0#8

/-- Both files get the pid 1.  The new thread then aborts the machine for
the one, and is without a page table for the other. -/
theorem unloadable_programs_get_pids :
    ((exceptionHandler .syscallException).run (Kernel.answer execOnly)
        (callerOf plainFile)).toOption.any (fun (_, after) =>
      after.registers r2 = 1#32 ∧
      (after.shared.loading.next
        (.start 1 (after.shared.rest.program 1))).isNone) = true ∧
    ((exceptionHandler .syscallException).run (Kernel.answer execOnly)
        (callerOf largeProgram)).toOption.any (fun (_, after) =>
      after.registers r2 = 1#32 ∧
      (replay Loading.next after.shared.loading (.start 1 (after.shared.rest.program 1) ::
          List.replicate 3 (.run 1))).any fun final =>
        final.points 1 matches .ready none) = true := by
  decide +kernel

end Handler

end Nachos
