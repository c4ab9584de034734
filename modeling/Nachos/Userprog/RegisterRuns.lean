import Nachos.Lib.Transition
import Nachos.Lib.Update
import Nachos.Lib.Visits
import Nachos.Userprog.LoadDelay
import Nachos.Userprog.ProgramCounter

/-!
# Registers of many threads

The one set of machine registers is shared by all threads.  `InitRegisters`
sets it for a new program, instructions, exceptions and interrupts work on
it, the handlers write results and program counters, and `Scheduler::Run`
saves it for a thread which has an address space and restores it later.
Through all of this `R0` is zero and `LoadReg` names a general register.
-/

open Words Memory Calls Transition Function

namespace Nachos

open Register

/-! ## The calls which leave the pending load alone -/

def KernelCall.KeepsLoad : KernelCall → Prop
  | .writeRegister num _ => num ≠ zeroReg ∧ num ≠ loadReg
  | _ => True

theorem Kernel.SameBesidesMemory.wellFormed {σ : Type}
    {before after : Kernel σ} (same : before.SameBesidesMemory after)
    (wellFormed : before.machine.WellFormed) :
    after.machine.WellFormed := by
  have registers : after.machine.registers = before.machine.registers :=
    same.registers
  exact ⟨by rw [registers]; exact wellFormed.zero, by rw [registers]; exact wellFormed.pending⟩

theorem Kernel.answer_wellFormed {σ : Type} {environment : Environment σ}
    {call : KernelCall} {kernel after : Kernel σ} {reply : call.Reply}
    (keeps : call.KeepsLoad) (wellFormed : kernel.machine.WellFormed)
    (success : answer environment call kernel = .ok (reply, after)) :
    after.machine.WellFormed := by
  cases call with
  | readRegister num | readOpenf index | readSemTab =>
    cases success
    exact wellFormed
  | writeRegister num value =>
    cases success
    obtain ⟨notZero, notLoad⟩ := keeps
    refine ⟨?_, ?_⟩
    · exact (update_of_ne notZero.symm ..).trans wellFormed.zero
    · have kept : update kernel.registers num value loadReg =
          kernel.registers loadReg := update_of_ne notLoad.symm ..
      exact (congrArg BitVec.toNat kept).trans_lt wellFormed.pending
  | readMem addr size => exact (answer_readMem success).wellFormed wellFormed
  | writeMem addr size value =>
    exact (answer_writeMem success).wellFormed wellFormed
  | writeOpenf index file | writeSemTab table =>
    cases success
    exact ⟨wellFormed.zero, wellFormed.pending⟩
  | host call =>
    simp only [answer] at success
    split at success
    · cases success
      exact ⟨wellFormed.zero, wellFormed.pending⟩
    · cases success
  | depart reason => cases success

namespace Handler

variable {α : Type}

def KeepsLoad (program : KernelProgram α) : Prop :=
  program.OnlyCalls KernelCall.KeepsLoad

theorem ResultOnly.keepsLoad {program : KernelProgram α}
    (only : ResultOnly program) : KeepsLoad program := by
  refine only.mono fun call permitted => ?_
  cases call with
  | writeRegister num value =>
    obtain rfl : num = r2 := permitted
    exact ⟨by decide, by decide⟩
  | _ => trivial

theorem keepsLoad_advanceProgramCounter : KeepsLoad advanceProgramCounter :=
  .call trivial fun _ => .call ⟨by decide, by decide⟩ fun _ =>
      .call trivial fun _ => .call ⟨by decide, by decide⟩ fun _ =>
          .perform ⟨by decide, by decide⟩

theorem AdvancesLast.keepsLoad {program : KernelProgram Unit}
    (last : AdvancesLast program) : KeepsLoad program := by
  induction last with
  | advance => exact keepsLoad_advanceProgramCounter
  | andThen only _ after => exact only.keepsLoad.bind after

theorem keepsLoad_syscallCase (call : Syscall) : KeepsLoad (syscallCase call) := by
  rcases ownAdvances_zero_or_one call with plain | own
  · exact (resultOnly_syscallCase plain).keepsLoad
  · exact (advancesLast_syscallCase own).keepsLoad

theorem keepsLoad_exceptionHandler (which : ExceptionType) :
    KeepsLoad (exceptionHandler which) := by
  refine .call trivial fun type => ?_
  have halts : KeepsLoad (halt : KernelProgram Unit) :=
    onlyCalls_depart (fun _ => trivial)
  cases which with
  | noException => exact .pure _
  | syscallException =>
    cases Syscall.ofCode type with
    | none => exact halts
    | some call =>
      exact .bind (keepsLoad_syscallCase call) fun _ =>
        keepsLoad_advanceProgramCounter
  | _ => exact halts

end Handler

/-! ## Pending loads inside an instruction -/

namespace Machine

/-- `DelayedLoad` writes one general register, and else no register but
`LoadReg`, `LoadValueReg` and `R0`. -/
def LoadsWithin (machine : Machine) : Prop :=
  ∀ nextReg nextValue, ∃ target : Fin numGPRegs,
    machine.delayedLoad nextReg nextValue = .ok { machine with
      registers := loaded machine.registers (gp target) nextReg nextValue }

theorem loadsWithin_of_pending {machine : Machine}
    (pending : (machine.registers loadReg).toNat < numGPRegs) :
    machine.LoadsWithin := by
  intro nextReg nextValue
  exact ⟨⟨_, pending⟩, delayedLoad_eq rfl nextReg nextValue⟩

/-- The states from which the next call of `DelayedLoad` can come: an
interrupt is due, or some part of the next instruction is under way. -/
def loadStates (machine : Machine) : List Machine :=
  machine :: (Cpu.oneInstruction.visits answer machine).map Prod.snd

end Machine

/-- A load is only scheduled for a general register. -/
def MachineCall.Schedules (call : MachineCall) : Prop :=
  call.Tame True ∨ ∃ nextReg nextValue,
    call = .delayedLoad nextReg nextValue ∧ nextReg.toNat < numGPRegs

theorem Cpu.schedules_finish {executed : Executed} (proper : executed.Proper) :
    (finish executed).OnlyCalls MachineCall.Schedules := by
  have prev : prevPCReg ≠ loadReg := by decide
  have pc : pcReg ≠ loadReg := by decide
  have next : nextPCReg ≠ loadReg := by decide
  exact .call (.inr ⟨_, _, rfl, proper⟩) fun _ => .call (.inl trivial) fun _ =>
      .call (.inl prev) fun _ => .call (.inl trivial) fun _ =>
          .call (.inl pc) fun _ => .perform (.inl next)

theorem Cpu.schedules_oneInstruction : oneInstruction.OnlyCalls MachineCall.Schedules :=
  .call (.inl trivial) fun _ => .call (.inl (.inr (.inr rfl))) fun _ =>
      ((tame_execute _).mono fun _ tame => .inl tame.weaken).bind_returns
        (returns_execute _) fun _ => schedules_finish

variable {machine : Machine}

theorem Machine.answer_pending {call : MachineCall} {after : Machine}
    {reply : call.Reply} (schedules : call.Schedules)
    (pending : (machine.registers loadReg).toNat < numGPRegs)
    (success : answer call machine = .ok (reply, after)) :
    (after.registers loadReg).toNat < numGPRegs := by
  rcases schedules with tame | ⟨nextReg, nextValue, rfl, small⟩
  · have kept : SamePending machine after := answer_tame tame success
    rw [kept]
    exact pending
  · have load : (machine.registers loadReg).toNat = (gp ⟨_, pending⟩).val := rfl
    simp only [answer, delayedLoad_eq load] at success
    cases success
    exact small

theorem Machine.loadStates_pending (pending : (machine.registers loadReg).toNat < numGPRegs) :
    ∀ state ∈ machine.loadStates, (state.registers loadReg).toNat < numGPRegs := by
  intro state member
  rcases List.mem_cons.mp member with rfl | inside
  · exact pending
  · obtain ⟨visit, visited, rfl⟩ := List.mem_map.mp inside
    exact (Cpu.schedules_oneInstruction.visits_invariant
      (fun state => (state.registers loadReg).toNat < numGPRegs)
      (fun _ _ _ _ => answer_pending) pending visit visited).2

/-! ## Threads -/

/-- What a thread does: it has no address space yet, it runs its program, or
it is in `ExceptionHandler` with the given part still to come. -/
inductive Activity where
  | kernel
  | user
  | handling (rest : KernelProgram Unit)

/-- `space != NULL`. -/
def Activity.HasSpace : Activity → Prop
  | .kernel => False
  | _ => True

instance : (activity : Activity) → Decidable activity.HasSpace
  | .kernel => .isFalse id
  | .user => .isTrue trivial
  | .handling _ => .isTrue trivial

structure RegisterSystem (ι σ : Type) where
  kernel : Kernel σ
  currentThread : ι
  userRegisters : ι → Registers
  activity : ι → Activity

/-- What happens next.  Whatever other parts of the kernel do to memory, the
page table and the tables comes with the event. -/
inductive RegisterEvent (ι σ : Type) where
  | newThread (thread : ι) (registers : Registers)
  | startProcess (numPages : Nat) (shared : Shared σ)
  | oneInstruction
  | kernelCall
  | handlerReturns
  | interrupt (shared : Shared σ)
  | run (nextThread : ι) (shared : Shared σ)

/-- The exception which an access of a handler to user memory raises. -/
def Kernel.raisedBy {σ : Type} (kernel : Kernel σ) : KernelCall → Option (ExceptionType × Machine)
  | .readMem addr size =>
    match kernel.machine.readMem addr size with
    | .error (.raised which machine) => some (which, machine)
    | _ => none
  | .writeMem addr size value =>
    match kernel.machine.writeMem addr size value with
    | .error (.raised which machine) => some (which, machine)
    | _ => none
  | _ => none

theorem Kernel.raisedBy_wellFormed {σ : Type} {kernel : Kernel σ}
    {call : KernelCall} {which : ExceptionType}
    (wellFormed : kernel.machine.WellFormed)
    (raised : kernel.raisedBy call = some (which, machine)) :
    machine.WellFormed := by
  have entered : ∀ call : MachineCall,
      Machine.answer call kernel.machine = .error (.raised which machine) →
      machine.WellFormed := by
    intro call failed
    obtain ⟨badVAddr, shape⟩ :=
      Machine.answer_raisedIn failed which machine rfl
    exact wellFormed.raiseException shape
  cases call with
  | readMem addr size =>
    simp only [raisedBy] at raised
    split at raised
    · rename_i failed
      cases raised
      exact entered (.readMem addr size) failed
    · cases raised
  | writeMem addr size value =>
    simp only [raisedBy] at raised
    split at raised
    · rename_i failed
      cases raised
      exact entered (.writeMem addr size value) failed
    · cases raised
  | _ => cases raised

/-- `R0` is zero, and a load is pending for a general register. -/
def Registers.WellFormed (registers : Registers) : Prop :=
  registers zeroReg = 0#32 ∧ (registers loadReg).toNat < numGPRegs

theorem AddrSpace.initRegisters_wellFormed (numPages : Nat) :
    (initRegisters numPages).WellFormed := by
  refine ⟨rfl, ?_⟩
  show (0#32).toNat < numGPRegs
  decide

theorem Machine.WellFormed.ofRegisters (wellFormed : machine.WellFormed) :
    machine.registers.WellFormed :=
  ⟨wellFormed.zero, wellFormed.pending⟩

namespace RegisterSystem

variable {ι σ : Type} [DecidableEq ι]

/-- The activity of the current thread. -/
def current (system : RegisterSystem ι σ) : Activity :=
  system.activity system.currentThread

/-- The current thread goes on with another activity. -/
def proceed (system : RegisterSystem ι σ) (kernel : Kernel σ)
    (activity : Activity) : RegisterSystem ι σ where
  kernel := kernel
  currentThread := system.currentThread
  userRegisters := system.userRegisters
  activity := update system.activity system.currentThread activity

theorem proceed_current (system : RegisterSystem ι σ) (kernel : Kernel σ) (activity : Activity) :
    (system.proceed kernel activity).activity system.currentThread =
      activity :=
  update_self ..

theorem proceed_other (system : RegisterSystem ι σ) (kernel : Kernel σ)
    (activity : Activity) {thread : ι}
    (other : thread ≠ system.currentThread) :
    (system.proceed kernel activity).activity thread =
      system.activity thread :=
  update_of_ne other ..

/-- The saved registers after `SaveUserState` in `Scheduler::Run`. -/
def saveUserState (system : RegisterSystem ι σ) : ι → Registers :=
  if system.current.HasSpace then
    update system.userRegisters system.currentThread system.kernel.registers
  else system.userRegisters

/-- `Scheduler::Run`. -/
def schedulerRun (system : RegisterSystem ι σ) (nextThread : ι)
    (shared : Shared σ) : RegisterSystem ι σ where
  kernel :=
    { registers :=
        if (system.activity nextThread).HasSpace then
          system.saveUserState nextThread
        else system.kernel.registers
      shared := shared }
  currentThread := nextThread
  userRegisters := system.saveUserState
  activity := system.activity

/-- A thread without an address space does not use the registers.  A handler
which raises an exception enters `ExceptionHandler` once more and does not
come back from there. -/
def step (environment : Environment σ) (system : RegisterSystem ι σ) :
    RegisterEvent ι σ → Option (RegisterSystem ι σ)
  | .newThread thread registers =>
    if thread = system.currentThread then none
    else some { system with
      userRegisters :=
        update system.userRegisters thread registers
      activity := update system.activity thread .kernel }
  | .startProcess numPages shared =>
    match system.current with
    | .kernel => some (system.proceed
        ⟨AddrSpace.initRegisters numPages, shared⟩ .user)
    | _ => none
  | .oneInstruction =>
    match system.current with
    | .user =>
      match system.kernel.machine.oneInstruction with
      | .ok machine =>
        some (system.proceed (system.kernel.withMachine machine) .user)
      | .error (.raised which machine) =>
        some (system.proceed (system.kernel.withMachine machine)
          (.handling (Handler.exceptionHandler which)))
      | .error (.fault _) => none
    | _ => none
  | .kernelCall =>
    match system.current with
    | .handling (.call operation next) =>
      match system.kernel.raisedBy operation with
      | some (which, machine) =>
        some (system.proceed (system.kernel.withMachine machine)
          (.handling (Handler.exceptionHandler which)))
      | none =>
        match Kernel.answer environment operation system.kernel with
        | .ok (reply, kernel) =>
          some (system.proceed kernel (.handling (next reply)))
        | .error _ => none
    | _ => none
  | .handlerReturns =>
    match system.current with
    | .handling (.pure _) => some (system.proceed system.kernel .user)
    | _ => none
  | .interrupt shared =>
    match system.kernel.machine.delayedLoad 0#32 0#32 with
    | .ok machine =>
      some { system with kernel := ⟨machine.registers, shared⟩ }
    | .error _ => none
  | .run nextThread shared => some (system.schedulerRun nextThread shared)

def Step (environment : Environment σ) (before : RegisterSystem ι σ)
    (event : RegisterEvent ι σ) (after : RegisterSystem ι σ) : Prop :=
  before.step environment event = some after

/-- The machine has just been made, and no thread has a program. -/
structure Booted (system : RegisterSystem ι σ) : Prop where
  zeroed : system.kernel.registers = fun _ => 0#32
  idle : ∀ thread, system.activity thread = .kernel

/-! ## What every step keeps -/

/-- The registers in the machine and those saved for the other programs are
well-formed, and no handler under way will write `R0` or `LoadReg`. -/
structure Sound (system : RegisterSystem ι σ) : Prop where
  machine : system.kernel.registers.WellFormed
  saved : ∀ thread, thread ≠ system.currentThread →
    (system.activity thread).HasSpace →
    (system.userRegisters thread).WellFormed
  handlers : ∀ thread rest, system.activity thread = .handling rest → Handler.KeepsLoad rest

variable {system : RegisterSystem ι σ}

omit [DecidableEq ι] in
theorem Booted.sound (booted : system.Booted) : system.Sound where
  machine := by
    rw [booted.zeroed]
    exact ⟨rfl, by decide⟩
  saved thread _ hasSpace := by
    rw [booted.idle thread] at hasSpace
    exact hasSpace.elim
  handlers thread rest handling := by
    rw [booted.idle thread] at handling
    cases handling

section

variable (sound : system.Sound)
include sound

omit [DecidableEq ι] in
theorem Sound.wellFormed :
    system.kernel.machine.WellFormed :=
  ⟨sound.machine.1, sound.machine.2⟩

theorem Sound.proceed {kernel : Kernel σ} (wellFormed : kernel.registers.WellFormed)
    {activity : Activity} (keeps : ∀ rest, activity = .handling rest → Handler.KeepsLoad rest) :
    (system.proceed kernel activity).Sound where
  machine := wellFormed
  saved thread other hasSpace := by
    refine sound.saved thread other ?_
    rwa [proceed_other system _ _ other] at hasSpace
  handlers thread rest handling := by
    by_cases same : thread = system.currentThread
    · subst same
      rw [proceed_current] at handling
      exact keeps rest handling
    · rw [proceed_other system _ _ same] at handling
      exact sound.handlers thread rest handling

/-- Every saved set of registers is well-formed once `SaveUserState` has
saved those of the current thread. -/
theorem Sound.saveUserState (thread : ι) (hasSpace : (system.activity thread).HasSpace) :
    (system.saveUserState thread).WellFormed := by
  unfold RegisterSystem.saveUserState
  by_cases same : thread = system.currentThread
  · subst same
    have current : system.current.HasSpace := hasSpace
    rw [if_pos current, update_self]
    exact sound.machine
  · have other := sound.saved thread same hasSpace
    split
    · rwa [update_of_ne same]
    · exact other

theorem Sound.schedulerRun (nextThread : ι) (shared : Shared σ) :
    (system.schedulerRun nextThread shared).Sound where
  machine := by
    unfold RegisterSystem.schedulerRun
    split
    · rename_i hasSpace
      exact sound.saveUserState nextThread hasSpace
    · exact sound.machine
  saved thread _ hasSpace := sound.saveUserState thread hasSpace
  handlers := sound.handlers

theorem Sound.newThread (thread : ι) (registers : Registers) : Sound { system with
      userRegisters :=
        update system.userRegisters thread registers
      activity := update system.activity thread .kernel } where
  machine := sound.machine
  saved another notCurrent := by
    dsimp only
    by_cases same : another = thread
    · rw [same, update_self]
      exact False.elim
    · rw [update_of_ne same, update_of_ne same]
      exact sound.saved another notCurrent
  handlers := by
    dsimp only
    exact update_cases (by rintro _ ⟨⟩) fun another _ => sound.handlers another

end

variable {after : RegisterSystem ι σ} {environment : Environment σ}

theorem Sound.oneInstruction (sound : system.Sound)
    (taken : system.step environment .oneInstruction = some after) :
    after.Sound := by
  simp only [step] at taken
  split at taken
  · split at taken
    · rename_i machine completed
      cases taken
      have kept := sound.wellFormed.oneInstruction completed
      exact sound.proceed kept.ofRegisters (by rintro _ ⟨⟩)
    · rename_i which machine raised
      cases taken
      have kept := sound.wellFormed.raised raised
      refine sound.proceed kept.ofRegisters ?_
      rintro _ ⟨⟩
      exact Handler.keepsLoad_exceptionHandler which
    · cases taken
  · cases taken

theorem Sound.kernelCall (sound : system.Sound)
    (taken : system.step environment .kernelCall = some after) :
    after.Sound := by
  simp only [step] at taken
  split at taken
  · rename_i operation next handling
    have keeps : Handler.KeepsLoad (.call operation next) :=
      sound.handlers _ _ handling
    split at taken
    · rename_i which machine raised
      cases taken
      have kept := Kernel.raisedBy_wellFormed sound.wellFormed raised
      refine sound.proceed kept.ofRegisters ?_
      rintro _ ⟨⟩
      exact Handler.keepsLoad_exceptionHandler which
    · split at taken
      · rename_i reply kernel answered
        cases taken
        have kept :=
          Kernel.answer_wellFormed keeps.1 sound.wellFormed answered
        refine sound.proceed kept.ofRegisters ?_
        rintro _ ⟨⟩
        exact keeps.2 reply
      · cases taken
  · cases taken

theorem Step.sound {before : RegisterSystem ι σ} {event : RegisterEvent ι σ}
    (taken : Step environment before event after) (sound : before.Sound) :
    after.Sound := by
  cases event with
  | newThread thread registers =>
    simp only [Step, step] at taken
    split at taken
    · cases taken
    · cases taken
      exact sound.newThread thread registers
  | startProcess numPages shared =>
    simp only [Step, step] at taken
    split at taken
    · cases taken
      exact sound.proceed (AddrSpace.initRegisters_wellFormed numPages) (by rintro _ ⟨⟩)
    · cases taken
  | oneInstruction => exact sound.oneInstruction taken
  | kernelCall => exact sound.kernelCall taken
  | handlerReturns =>
    simp only [Step, step] at taken
    split at taken
    · cases taken
      exact sound.proceed sound.machine (by rintro _ ⟨⟩)
    · cases taken
  | interrupt shared =>
    simp only [Step, step] at taken
    split at taken
    · rename_i machine due
      cases taken
      have kept := sound.wellFormed.delayedLoad due
      exact ⟨kept.ofRegisters, sound.saved, sound.handlers⟩
    · cases taken
  | run nextThread shared =>
    cases taken
    exact sound.schedulerRun nextThread shared

/-- Whatever the threads, the devices and the handlers do after the machine
has been made, `R0` is zero and `LoadReg` names a general register, between
two steps and at every point of an instruction from which `DelayedLoad` can
be called, with or without `BadVAddrReg` set by `RaiseException`. -/
theorem load_within_general_registers (environment : Environment σ)
    {start finish : RegisterSystem ι σ} {events : List (RegisterEvent ι σ)}
    (booted : start.Booted) (run : Run (Step environment) start events finish) :
    finish.kernel.registers zeroReg = 0#32 ∧
    (finish.kernel.registers loadReg).toNat < numGPRegs ∧
    ∀ machine ∈ finish.kernel.machine.loadStates,
      machine.LoadsWithin ∧
      ∀ badVAddr, (machine.writeRegister badVAddrReg badVAddr).LoadsWithin := by
  have sound : finish.Sound :=
    run.invariant Sound (fun _ _ => trivial) booted.sound
      fun _ _ _ before _ taken => Step.sound taken before
  refine ⟨sound.machine.1, sound.machine.2, ?_⟩
  intro machine member
  have pending : (machine.registers loadReg).toNat < numGPRegs :=
    Machine.loadStates_pending sound.machine.2 machine member
  exact ⟨Machine.loadsWithin_of_pending pending, fun _ =>
    Machine.loadsWithin_of_pending pending⟩

/-- One page which holds `LW R0, 0(R0)`. -/
def loadsZero : Shared Unit where
  mainMemory := splice (fun _ => 0#8) 0 [0x00#8, 0x00#8, 0x00#8, 0x8C#8]
  mmu := ⟨some [⟨0#32, 0#32, true, false, false, false⟩], none⟩
  openf := fun _ => none
  semTab := STable.new (fun _ => 0#32) fun _ => .null
  rest := ()

/-- Two threads before they start a program. -/
def twoThreads : RegisterSystem Bool Unit where
  kernel := ⟨fun _ => 0#32, loadsZero⟩
  currentThread := false
  userRegisters := fun _ _ => 0xFFFFFFFF#32
  activity := fun _ => .kernel

/-- Both threads load `R0`, and the switch comes between the load and the
interrupt which finishes it. -/
theorem load_within_general_registers_two_threads : ∃ finish, Run (Step allocatingHost) twoThreads
        [.startProcess 1 loadsZero, .oneInstruction, .run true loadsZero,
          .startProcess 1 loadsZero, .oneInstruction, .run false loadsZero,
          .interrupt loadsZero] finish ∧
      finish.kernel.registers pcReg = 4#32 ∧
      finish.kernel.registers zeroReg = 0#32 ∧
      (finish.kernel.registers loadReg).toNat < numGPRegs ∧
      ∀ machine ∈ finish.kernel.machine.loadStates,
        machine.LoadsWithin ∧
        ∀ badVAddr, (machine.writeRegister badVAddrReg badVAddr).LoadsWithin := by
  have booted : twoThreads.Booted := ⟨rfl, fun _ => rfl⟩
  obtain ⟨finish, run, counter⟩ : ∃ finish, Run (Step allocatingHost) twoThreads
        [.startProcess 1 loadsZero, .oneInstruction, .run true loadsZero,
          .startProcess 1 loadsZero, .oneInstruction, .run false loadsZero,
          .interrupt loadsZero] finish ∧
        finish.kernel.registers pcReg = 4#32 :=
    exists_run_of_replay (fun _ _ _ taken => taken) (by decide +kernel)
  exact ⟨finish, run, counter, load_within_general_registers allocatingHost booted run⟩

end RegisterSystem

end Nachos
