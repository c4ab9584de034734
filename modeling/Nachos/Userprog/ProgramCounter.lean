import Nachos.Machine.Confinement
import Nachos.Userprog.HandlerCalls

/-!
# Program counters after a system call

A handler which does not call `AdvanceProgramCounter` leaves the program
counters alone, whatever the tables hold and whatever the host answers.  So
the shared tail of `ExceptionHandler` advances them exactly once, except
after the three semaphore calls, which have advanced them already.
-/

open Words Memory Calls Function

namespace Nachos

/-- The three registers which `AdvanceProgramCounter` moves. -/
structure Counters where
  prevPC : Word
  pc : Word
  nextPC : Word

def Counters.advance (counters : Counters) : Counters :=
  ⟨counters.pc, counters.nextPC, counters.nextPC + 4#32⟩

def Kernel.counters {σ : Type} (kernel : Kernel σ) : Counters :=
  ⟨kernel.registers .prevPCReg, kernel.registers .pcReg, kernel.registers .nextPCReg⟩

def Kernel.SameCounters {σ : Type} (before after : Kernel σ) : Prop :=
  after.counters = before.counters

variable {σ : Type}

theorem Kernel.SameCounters.refl (kernel : Kernel σ) :
    kernel.SameCounters kernel := rfl

theorem Kernel.SameCounters.trans (first second third : Kernel σ)
    (before : first.SameCounters second) (after : second.SameCounters third) :
    first.SameCounters third :=
  Eq.trans after before

def KernelCall.KeepsCounters : KernelCall → Prop
  | .writeRegister num _ =>
    num ≠ .prevPCReg ∧ num ≠ .pcReg ∧ num ≠ .nextPCReg
  | _ => True

def KernelCall.ResultOnly : KernelCall → Prop
  | .writeRegister num _ => num = Handler.r2
  | _ => True

/-- Two states which differ in the memory at most. -/
structure Kernel.SameBesidesMemory {σ : Type} (before after : Kernel σ) :
    Prop where
  registers : after.registers = before.registers
  openf : after.shared.openf = before.shared.openf
  semTab : after.shared.semTab = before.shared.semTab
  rest : after.shared.rest = before.shared.rest

variable {after kernel : Kernel σ}

theorem Kernel.access_same {α : Type} {outcome : Except Stop (α × Machine)} {value : α}
    (kept : ∀ value machine, outcome = .ok (value, machine) → machine.registers = kernel.registers)
    (success : kernel.access outcome = .ok (value, after)) :
    kernel.SameBesidesMemory after := by
  unfold access at success
  split at success
  · cases success
    exact ⟨kept _ _ rfl, rfl, rfl, rfl⟩
  · cases success
  · cases success

variable {environment : Environment σ}

theorem Kernel.answer_readMem {addr value : Word} {size : Nat}
    (success : answer environment (.readMem addr size) kernel =
      .ok (value, after)) : kernel.SameBesidesMemory after := by
  refine access_same (fun value machine ran => ?_) success
  obtain ⟨physicalAddress, mmu, -, -, rfl⟩ := Machine.readMem_inv ran
  rfl

theorem Kernel.answer_writeMem {addr value : Word} {size : Nat} {reply : Unit}
    (success : answer environment (.writeMem addr size value) kernel =
      .ok (reply, after)) : kernel.SameBesidesMemory after := by
  refine access_same (fun value machine ran => ?_) success
  obtain ⟨physicalAddress, mmu, bytes, -, -, rfl⟩ :=
    Machine.writeMem_inv ran
  rfl

/-- Calls other than writes to the program counters keep them; the caller's
registers survive every host call. -/
theorem Kernel.answer_counters (environment : Environment σ)
    (call : KernelCall) (kernel : Kernel σ) (reply : call.Reply)
    (after : Kernel σ) (keeps : call.KeepsCounters)
    (success : answer environment call kernel = .ok (reply, after)) :
    kernel.SameCounters after := by
  unfold SameCounters
  cases call with
  | readRegister num | readOpenf index | writeOpenf index file | readSemTab | writeSemTab table =>
    cases success
    rfl
  | writeRegister num value =>
    cases success
    obtain ⟨prev, pc, next⟩ := keeps
    simp only [counters, update_of_ne prev.symm, update_of_ne pc.symm, update_of_ne next.symm]
  | readMem addr size =>
    simp only [counters, (answer_readMem success).registers]
  | writeMem addr size value =>
    simp only [counters, (answer_writeMem success).registers]
  | host call =>
    simp only [answer] at success
    split at success
    · cases success
      rfl
    · cases success
  | depart reason => cases success

namespace Handler

variable {α β : Type}

/-- Programs which leave the program counters alone. -/
def Quiet (program : KernelProgram α) : Prop :=
  program.OnlyCalls KernelCall.KeepsCounters

/-- Programs which advance the program counters a fixed number of times
whenever they return. -/
def Advances (count : Nat) (program : KernelProgram α) : Prop :=
  ∀ (σ : Type) (environment : Environment σ) (kernel after : Kernel σ)
    (value : α),
    program.run (Kernel.answer environment) kernel = .ok (value, after) →
    after.counters = Counters.advance^[count] kernel.counters

variable {program : KernelProgram α}

theorem Quiet.advances (quiet : Quiet program) :
    Advances 0 program := by
  intro σ environment kernel after value success
  exact (Program.OnlyCalls.run_preserves Kernel.SameCounters.refl
    Kernel.SameCounters.trans (Kernel.answer_counters environment) quiet
    success :)

variable {continuation : α → KernelProgram β}

theorem Advances.bind {first second : Nat} (before : Advances first program)
    (after : ∀ value, Advances second (continuation value)) :
    Advances (second + first) (program >>= continuation) := by
  intro σ environment kernel final value success
  rw [Program.run_bind] at success
  split at success
  · rename_i middleValue middle ran
    rw [Function.iterate_add_apply, ← before σ environment _ _ _ ran]
    exact after middleValue σ environment _ _ _ success
  · cases success

theorem advances_advanceProgramCounter :
    Advances 1 advanceProgramCounter := by
  intro σ environment kernel after value success
  cases success
  rfl

/-! ## Handlers which write no register but the result -/

/-- Programs which write no register but `R2`. -/
def ResultOnly (program : KernelProgram α) : Prop :=
  program.OnlyCalls KernelCall.ResultOnly

theorem ResultOnly.quiet (only : ResultOnly program) : Quiet program := by
  refine only.mono fun call permitted => ?_
  cases call with
  | writeRegister num value =>
    obtain rfl : num = r2 := permitted
    exact ⟨by decide, by decide, by decide⟩
  | _ => trivial

theorem ResultOnly.advances (only : ResultOnly program) : Advances 0 program :=
  only.quiet.advances

theorem Modest.resultOnly (modest : Modest program) : ResultOnly program := by
  induction modest with
  | watch only =>
    refine only.mono fun call watches => ?_
    cases call with
    | writeRegister _ _ => exact watches.elim
    | _ => trivial
  | writeResult value => exact .perform rfl
  | getCurrentPos id =>
    exact onlyCalls_getCurrentPos (fun _ => trivial) (fun _ => trivial)
      (fun _ => trivial) fun _ => trivial
  | readFile id buffer numBytes =>
    exact onlyCalls_readFile (fun _ => trivial) (fun _ => trivial)
      (fun _ => trivial) (fun _ _ => trivial) fun _ _ => trivial
  | writeFile id buffer numBytes =>
    exact onlyCalls_writeFile (fun _ => trivial) (fun _ => trivial)
      (fun _ => trivial) (fun _ _ => trivial) fun _ _ _ => trivial
  | bind _ _ first rest => exact .bind first rest

theorem resultOnly_userToSystem (virtAddr limit : Word) :
    ResultOnly (userToSystem virtAddr limit) :=
  (modest_userToSystem virtAddr limit).resultOnly

theorem resultOnly_lift (result : Result α) : ResultOnly (lift result) :=
  onlyCalls_lift (fun _ => trivial)

theorem resultOnly_semSignal (name : CString) : ResultOnly (semSignal name) :=
  .bind (.perform trivial) fun _ => .bind (resultOnly_lift _) fun _ =>
    .bind (.perform trivial) fun _ => .pure _

theorem resultOnly_semWait (name : CString) : ResultOnly (semWait name) := by
  refine .bind (.perform trivial) fun _ => .bind (resultOnly_lift _) fun _ =>
    .ite (.pure _) (.bind (resultOnly_lift _) fun taken => ?_)
  cases taken with
  | some table => exact .bind (.perform trivial) fun _ => .pure _
  | none =>
    refine .bind (.perform trivial) fun _ => .bind (.perform trivial) fun _ =>
      .bind (resultOnly_lift _) fun taken => ?_
    cases taken with
    | some table => exact .bind (.perform trivial) fun _ => .pure _
    | none => exact onlyCalls_depart (fun _ => trivial)

theorem resultOnly_scOpen : ResultOnly scOpen := by
  refine .bind (.perform trivial) fun _ => .bind (.perform trivial) fun _ =>
    .bind (resultOnly_userToSystem _ _) fun _ =>
      .bind (onlyCalls_findFreeSlot fun _ => trivial) fun slot => ?_
  cases slot with
  | none => exact .perform rfl
  | some freeSlot =>
    exact .ite
      (.bind (resultOnly_lift _) fun _ =>
        .bind (onlyCalls_openFile _ _ fun _ => trivial) fun _ =>
          .bind (.perform trivial) fun _ => .ite (.perform rfl) (.pure _))
      (.ite (.perform rfl) (.perform rfl))

theorem resultOnly_scClose : ResultOnly scClose := by
  refine .bind (.perform trivial) fun fid => ?_
  cases fileIndex fid with
  | none => exact .perform rfl
  | some fid =>
    refine .bind (.perform trivial) fun file => ?_
    cases file with
    | none => exact .perform rfl
    | some file =>
      exact .bind (.perform trivial) fun _ => .bind (.perform trivial) fun _ => .perform rfl

/-! ## The dispatch -/

/-- A part of a handler which writes only the result and then advances the
program counters, on every path. -/
inductive AdvancesLast : KernelProgram Unit → Prop where
  | advance : AdvancesLast advanceProgramCounter
  | andThen {α : Type} {program : KernelProgram α}
      {continuation : α → KernelProgram Unit} (only : ResultOnly program)
      (after : ∀ value, AdvancesLast (continuation value)) :
      AdvancesLast (program >>= continuation)

theorem AdvancesLast.advances {program : KernelProgram Unit}
    (last : AdvancesLast program) : Advances 1 program := by
  induction last with
  | advance => exact advances_advanceProgramCounter
  | andThen only _ after => exact only.advances.bind after

theorem advancesLast_writeResult (result : Word) : AdvancesLast (do
    writeRegister r2 result
    advanceProgramCounter) :=
  .andThen (.perform rfl) fun _ => .advance

theorem advancesLast_scCreateSemaphore : AdvancesLast scCreateSemaphore :=
  .andThen (.perform trivial) fun _ => .andThen (.perform trivial) fun _ =>
    .andThen (resultOnly_userToSystem _ _) fun _ => .andThen (resultOnly_lift _) fun _ =>
      .andThen (.perform trivial) fun _ => .andThen (resultOnly_lift _) fun _ =>
        .andThen (.perform trivial) fun _ => advancesLast_writeResult _

theorem advancesLast_semaphoreCall {operation : CString → KernelProgram Word}
    (only : ∀ name, ResultOnly (operation name)) :
    AdvancesLast (semaphoreCall operation) := by
  refine .andThen (.perform trivial) fun _ =>
    .andThen (resultOnly_userToSystem _ _) fun _ => .andThen (resultOnly_lift _) fun name =>
      .andThen (.perform trivial) fun _ => .andThen (resultOnly_lift _) fun _ =>
        .andThen (resultOnly_lift _) fun found => ?_
  by_cases missing : found = 0
  · simp only [if_pos missing]
    exact advancesLast_writeResult _
  · simp only [if_neg missing]
    exact .andThen (only (cString name)) advancesLast_writeResult

/-- How often the case of a system call advances the program counters. -/
def ownAdvances : Syscall → Nat
  | .createSemaphore => 1
  | .signal => 1
  | .wait => 1
  | _ => 0

theorem ownAdvances_zero_or_one (call : Syscall) : ownAdvances call = 0 ∨ ownAdvances call = 1 := by
  cases call <;> simp [ownAdvances]

theorem resultOnly_syscallCase {call : Syscall}
    (plain : ownAdvances call = 0) : ResultOnly (syscallCase call) := by
  cases call with
  | halt => exact (Modest.depart _).resultOnly
  | exit => exact modest_scExit.resultOnly
  | exec => exact modest_scExec.resultOnly
  | join => exact modest_scJoin.resultOnly
  | create => exact modest_scCreate.resultOnly
  | «open» => exact resultOnly_scOpen
  | read => exact modest_scRead.resultOnly
  | write => exact modest_scWrite.resultOnly
  | close => exact resultOnly_scClose
  | readInt => exact modest_scReadInt.resultOnly
  | printInt => exact modest_scPrintInt.resultOnly
  | readChar => exact modest_scReadChar.resultOnly
  | printChar => exact modest_scPrintChar.resultOnly
  | readString => exact modest_scReadString.resultOnly
  | printString => exact modest_scPrintString.resultOnly
  | createSemaphore | signal | wait => cases plain

theorem advancesLast_syscallCase {call : Syscall}
    (own : ownAdvances call = 1) : AdvancesLast (syscallCase call) := by
  cases call with
  | createSemaphore => exact advancesLast_scCreateSemaphore
  | signal => exact advancesLast_semaphoreCall resultOnly_semSignal
  | wait => exact advancesLast_semaphoreCall resultOnly_semWait
  | _ => cases own

theorem advances_syscallCase (call : Syscall) : Advances (ownAdvances call) (syscallCase call) := by
  rcases ownAdvances_zero_or_one call with plain | own
  · rw [plain]
    exact (resultOnly_syscallCase plain).advances
  · rw [own]
    exact (advancesLast_syscallCase own).advances

theorem not_run_depart {σ : Type} {environment : Environment σ}
    {kernel after : Kernel σ} {value : α} (reason : Departure) :
    (depart reason : KernelProgram α).run (Kernel.answer environment) kernel ≠ .ok (value, after) :=
  nofun

/-- A system call which returns has a case, and the tail advances once more
than the case did. -/
theorem exceptionHandler_counters {σ : Type} {environment : Environment σ} {kernel after : Kernel σ}
    (returned : (exceptionHandler .syscallException).run
      (Kernel.answer environment) kernel = .ok ((), after)) :
    ∃ call, Syscall.ofCode (kernel.registers r2) = some call ∧
      after.counters = Counters.advance^[1 + ownAdvances call] kernel.counters := by
  change (dispatch (kernel.registers r2)).run _ kernel = _ at returned
  cases found : Syscall.ofCode (kernel.registers r2) with
  | none =>
    rw [dispatch_none found] at returned
    exact (not_run_depart _ returned).elim
  | some call =>
    rw [dispatch_some found] at returned
    exact ⟨call, rfl, (advances_syscallCase call).bind
      (fun _ => advances_advanceProgramCounter) σ environment _ _ _ returned⟩

end Handler

theorem Counters.advance_advance_ne (counters : Counters) :
    counters.advance.advance ≠ counters.advance := by
  intro same
  have next := congrArg Counters.nextPC same
  simp only [advance] at next
  bv_omega

theorem Handler.ownAdvances_of_code {code : Word} {call : Syscall}
    (found : Syscall.ofCode code = some call) :
    ownAdvances call = 0 ↔ code ≠ 17#32 ∧ code ≠ 18#32 ∧ code ≠ 19#32 := by
  have numbers : ∀ number : Word, code ≠ number ↔ code.toNat ≠ number.toNat := by
    intro number
    exact not_congr ⟨congrArg BitVec.toNat, BitVec.eq_of_toNat_eq⟩
  rw [numbers, numbers, numbers]
  unfold Syscall.ofCode at found
  split at found <;> cases found <;> rename_i number <;> rw [number] <;> decide

/-- A system call which returns to the user program leaves the program
counters advanced exactly once if and only if it is not one of
`SC_CreateSemaphore`, `SC_Signal` and `SC_Wait`. -/
theorem syscall_advances_once_iff {σ : Type} (environment : Environment σ) (kernel after : Kernel σ)
    (returned : (Handler.exceptionHandler .syscallException).run
      (Kernel.answer environment) kernel = .ok ((), after)) :
    (after.registers .prevPCReg = kernel.registers .pcReg ∧
      after.registers .pcReg = kernel.registers .nextPCReg ∧
      after.registers .nextPCReg = kernel.registers .nextPCReg + 4#32) ↔
    kernel.registers Handler.r2 ≠ 17#32 ∧
      kernel.registers Handler.r2 ≠ 18#32 ∧
      kernel.registers Handler.r2 ≠ 19#32 := by
  obtain ⟨call, found, advanced⟩ :=
    Handler.exceptionHandler_counters returned
  rw [← Handler.ownAdvances_of_code found]
  have once : (after.registers .prevPCReg = kernel.registers .pcReg ∧
      after.registers .pcReg = kernel.registers .nextPCReg ∧
      after.registers .nextPCReg = kernel.registers .nextPCReg + 4#32) ↔
      after.counters = kernel.counters.advance := by
    rw [Counters.mk.injEq]
    rfl
  rw [once, advanced]
  rcases Handler.ownAdvances_zero_or_one call with none | own
  · rw [none]
    exact ⟨fun _ => rfl, fun _ => rfl⟩
  · rw [own]
    constructor
    · intro same
      exact (Counters.advance_advance_ne _ same).elim
    · nofun

/-- A program with one page of zeros about to make a system call, in a
kernel with an empty semaphore table. -/
def callingKernel (code : Word) : Kernel Unit where
  registers := update (fun _ => 0#32) Handler.r2 code
  shared :=
    { mainMemory := fun _ => 0#8
      mmu := ⟨some [⟨0#32, 0#32, true, false, false, false⟩], none⟩
      openf := fun _ => none
      semTab := STable.new (fun _ => 0#32) fun _ => .null
      rest := () }

/-- A host which gives zeroed memory and stops at any other call. -/
def allocatingHost : Environment Unit
  | .newChars _, shared => .ok (some fun _ => 0#8, shared)
  | _, _ => .error .halted

theorem create_semaphore_advances_twice : ∃ after, (Handler.exceptionHandler .syscallException).run
        (Kernel.answer allocatingHost) (callingKernel 17#32) =
          .ok ((), after) ∧
      after.registers .pcReg =
        (callingKernel 17#32).registers .nextPCReg + 4#32 ∧
      after.registers .pcReg ≠ (callingKernel 17#32).registers .nextPCReg :=
  ⟨_, rfl, by decide, by decide⟩

theorem syscall_advances_once_iff_close : ∃ after, (Handler.exceptionHandler .syscallException).run
        (Kernel.answer allocatingHost) (callingKernel 8#32) =
          .ok ((), after) ∧
      after.registers .prevPCReg =
        (callingKernel 8#32).registers .pcReg ∧
      after.registers .pcReg =
        (callingKernel 8#32).registers .nextPCReg ∧
      after.registers .nextPCReg = (callingKernel 8#32).registers .nextPCReg + 4#32 :=
  ⟨_, rfl, (syscall_advances_once_iff allocatingHost (callingKernel 8#32) _ rfl).mpr (by decide)⟩

end Nachos
