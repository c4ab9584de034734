import Nachos.Lib.Weakest
import Nachos.Userprog.ProgramCounter
import Nachos.Userprog.SemaphoreTable

/-!
# System calls on named semaphores

`CreateSemaphore`, `Signal` and `Wait` work on the table of semaphores.  A
`Wait` which finds the value zero sleeps, and other calls are made before it
returns.  The handlers take the slot which `IsExist` returns for a truth
value, so the semaphore in slot 0 cannot be used.
-/

open Words Memory Calls Program Transition

namespace Nachos

/-- The registers of the caller, the table, and whether the caller has
slept. -/
structure SemaphoreView where
  registers : Registers
  semTab : STable
  slept : Bool

def Kernel.semaphoreView {σ : Type} (slept : σ → Bool) (kernel : Kernel σ) : SemaphoreView :=
  ⟨kernel.registers, kernel.shared.semTab, slept kernel.shared.rest⟩

def HostCall.isSleep : HostCall → Bool
  | .sleep => true
  | _ => false

/-- A thread which sleeps finds this table when it wakes up.  The other
calls keep the table. -/
structure WakesWith {σ : Type} (environment : Environment σ)
    (slept : σ → Bool) (woken : STable) : Prop where
  stays : ∀ call shared reply after, call.isSleep = false →
    environment call shared = .ok (reply, after) →
    after.semTab = shared.semTab ∧ slept after.rest = slept shared.rest
  wakes : ∀ call shared reply after, call.isSleep = true →
    environment call shared = .ok (reply, after) →
    after.semTab = woken ∧ slept after.rest = true

/-- What the calls of a handler do to the registers and the table. -/
def semaphoreSpec (woken : STable) : OperationSpec KernelCall KernelCall.Reply SemaphoreView
  | .readRegister num, view, post => post (view.registers num) view
  | .writeRegister num value, view, post =>
    post () { view with
      registers := Function.update view.registers num value }
  | .readSemTab, view, post => post view.semTab view
  | .writeSemTab table, view, post => post () { view with semTab := table }
  | .depart _, _, _ => True
  | .readMem _ _, view, post => ∀ reply, post reply view
  | .writeMem _ _ _, view, post => ∀ reply, post reply view
  | .readOpenf _, view, post => ∀ reply, post reply view
  | .writeOpenf _ _, view, post => ∀ reply, post reply view
  | .host operation, view, post => ∀ reply, post reply
      (if operation.isSleep then ⟨view.registers, woken, true⟩ else view)

theorem Kernel.SameBesidesMemory.semaphoreView {σ : Type}
    {before after : Kernel σ} (same : before.SameBesidesMemory after)
    (slept : σ → Bool) :
    after.semaphoreView slept = before.semaphoreView slept := by
  simp only [Kernel.semaphoreView, same.registers, same.semTab, same.rest]

theorem meets_semaphoreSpec {σ : Type} {environment : Environment σ}
    {slept : σ → Bool} {woken : STable}
    (wakesWith : WakesWith environment slept woken) :
    Meets (Kernel.answer environment) (Kernel.semaphoreView slept) (semaphoreSpec woken) := by
  intro call kernel reply after post success established
  cases call with
  | readRegister num | writeRegister num value | readSemTab | writeSemTab table =>
    cases success
    exact established
  | readMem addr size =>
    rw [(Kernel.answer_readMem success).semaphoreView]
    exact established reply
  | writeMem addr size value =>
    rw [(Kernel.answer_writeMem success).semaphoreView]
    exact established reply
  | readOpenf index | writeOpenf index file =>
    cases success
    exact established _
  | host call =>
    simp only [Kernel.answer] at success
    split at success
    · rename_i found shared answered
      cases success
      have replied := established reply
      cases sleeps : call.isSleep with
      | true =>
        obtain ⟨table, asleep⟩ :=
          wakesWith.wakes _ _ _ _ sleeps answered
        rw [sleeps] at replied
        simp only [Kernel.semaphoreView, table, asleep]
        exact replied
      | false =>
        obtain ⟨table, awake⟩ :=
          wakesWith.stays _ _ _ _ sleeps answered
        rw [sleeps] at replied
        simp only [Kernel.semaphoreView, table, awake]
        exact replied
    · cases success
  | depart reason => cases success

namespace Handler

variable {α : Type} {woken : STable}

theorem wp_lift {result : Result α} {view : SemaphoreView} {post : α → SemaphoreView → Prop}
    (established : ∀ value, result = .ok value → post value view) :
    (lift result).wp (semaphoreSpec woken) view post := by
  cases result with
  | ok value => exact established value rfl
  | error reason => trivial

/-- `SC_CreateSemaphore` after the name has been read. -/
def createNamed (name : CString) (initVal : Word) : KernelProgram Unit := do
  let table ← readSemTab
  let (index, table) ← lift (table.create name initVal)
  writeSemTab table
  writeRegister r2 (BitVec.ofInt 32 index)
  advanceProgramCounter

/-- `SC_Signal` and `SC_Wait` after the name has been read. -/
def operateNamed (operation : CString → KernelProgram Word)
    (name : CString) : KernelProgram Unit := do
  let table ← readSemTab
  let _ ← lift (table.getValue name)
  let found ← lift (table.isExist name)
  if found = 0 then
    writeRegister r2 (-1#32)
    advanceProgramCounter
  else
    let result ← operation name
    writeRegister r2 result
    advanceProgramCounter

end Handler

open Handler

/-! ## What one call does -/

/-- A system call of a user program: its registers, and the name in its
memory. -/
structure SemaphoreCall where
  registers : Registers
  name : CString

def SemaphoreCall.code (call : SemaphoreCall) : Option Syscall :=
  Syscall.ofCode (call.registers r2)

/-- `Signal` and `Wait`. -/
def SemaphoreCall.IsOperation (call : SemaphoreCall) : Prop :=
  call.code = some .signal ∨ call.code = some .wait

/-- What a call can do, with the table when it began, the table when it woke
up if it has slept, its result and the table when it returned. -/
inductive CallOutcome (began woken : STable) (call : SemaphoreCall) :
    Bool → Word → STable → Prop where
  | created {index : Int} {after : STable} :
      call.code = some .createSemaphore →
      began.create call.name (call.registers r5) = .ok (index, after) →
      CallOutcome began woken call false (BitVec.ofInt 32 index) after
  | refused :
      call.IsOperation →
      began.isExist call.name = .ok 0 →
      CallOutcome began woken call false (-1#32) began
  | missing :
      call.IsOperation →
      began.isExist call.name = .ok (-1) →
      CallOutcome began woken call false (-1#32) began
  | signalled {slot : Fin maxSemaphore} {object : Sem} :
      call.code = some .signal →
      began.isExist call.name = .ok slot.val →
      slot.val ≠ 0 →
      began.semTab slot = .sem object →
      CallOutcome began woken call false 0#32
        (began.setSlot slot { object with value := object.value + 1 })
  | took {slot : Fin maxSemaphore} {object : Sem} :
      call.code = some .wait →
      began.isExist call.name = .ok slot.val →
      slot.val ≠ 0 →
      began.semTab slot = .sem object →
      object.value ≠ 0#32 →
      CallOutcome began woken call false 0#32
        (began.setSlot slot { object with value := object.value - 1 })
  | woke {slot : Fin maxSemaphore} {object : Sem} :
      call.code = some .wait →
      began.isExist call.name = .ok slot.val →
      slot.val ≠ 0 →
      woken.semTab slot = .sem object →
      object.value ≠ 0#32 →
      CallOutcome began woken call true 0#32
        (woken.setSlot slot { object with value := object.value - 1 })

namespace STable

variable {table after : STable} {index : Int}

theorem deref_inv {slot : Fin maxSemaphore} {object : Sem}
    (success : table.deref index = .ok (slot, object)) :
    index = slot.val ∧ table.semTab slot = .sem object := by
  unfold deref at success
  split at success
  · rename_i inside
    split at success
    · rename_i found entry
      cases success
      exact ⟨(Int.toNat_of_nonneg inside.1).symm, entry⟩
    · cases success
  · cases success

theorem create_inv {name : CString} {init : Word}
    (success : table.create name init = .ok (index, after)) :
    (index = -1 ∧ after = table) ∨
      ∃ slot : Fin maxSemaphore, index = slot.val ∧
        table.bm.test slot = false ∧
        after = { table with bm := table.bm.mark slot }.setSlot slot ⟨name, init⟩ := by
  obtain ⟨found, -, success⟩ := bind_ok_inv success
  split at success
  · cases success
    exact .inl ⟨rfl, rfl⟩
  · rcases Nat.eq_zero_or_pos table.bm.numClear with full | room
    · rw [BitMap.find_of_full full] at success
      cases success
      exact .inl ⟨rfl, rfl⟩
    · obtain ⟨slot, unset, taken⟩ := BitMap.find_of_clear room
      rw [taken] at success
      simp only [Int.natCast_nonneg, Int.toNat_natCast, slot.isLt, and_self, dite_true] at success
      obtain ⟨object, fits, success⟩ := bind_ok_inv success
      cases (Sem.new_inv fits).2
      cases success
      exact .inr ⟨slot, rfl, unset, rfl⟩

theorem take_inv (success : table.take index = .ok (some after)) :
    ∃ slot object, index = Int.ofNat slot.val ∧
      table.semTab slot = .sem object ∧ object.value ≠ 0#32 ∧
      after = table.setSlot slot { object with value := object.value - 1 } := by
  obtain ⟨⟨slot, object⟩, found, success⟩ := bind_ok_inv success
  obtain ⟨place, entry⟩ := deref_inv found
  simp only at success
  split at success
  · cases success
  · rename_i available
    cases success
    exact ⟨slot, object, place, entry, available, rfl⟩

theorem signal_inv {name : CString} {result : Int}
    (success : table.signal name = .ok (result, after)) :
    (table.isExist name = .ok (-1) ∧ result = -1 ∧ after = table) ∨
      ∃ (slot : Fin maxSemaphore) (object : Sem),
        table.isExist name = .ok slot.val ∧ result = 0 ∧
        table.semTab slot = .sem object ∧
        after = table.setSlot slot { object with value := object.value + 1 } := by
  obtain ⟨found, exist, success⟩ := bind_ok_inv success
  split at success
  · rename_i missing
    subst missing
    cases success
    exact .inl ⟨exist, rfl, rfl⟩
  · obtain ⟨⟨slot, object⟩, here, success⟩ := bind_ok_inv success
    obtain ⟨place, entry⟩ := deref_inv here
    cases success
    rw [place] at exist
    exact .inr ⟨slot, object, exist, rfl, entry, rfl⟩

end STable

namespace Handler

variable {woken : STable} {call : SemaphoreCall} {view : SemaphoreView}

/-- The outcome of a call, as the kernel sees it. -/
def Reaches (woken : STable) (call : SemaphoreCall)
    (began : STable) (after : SemaphoreView) : Prop :=
  CallOutcome began woken call after.slept (after.registers r2) after.semTab

theorem wp_createNamed (code : call.code = some .createSemaphore) (awake : view.slept = false) :
    (createNamed call.name (call.registers r5)).wp (semaphoreSpec woken)
      view fun _ after => Reaches woken call view.semTab after := by
  refine wp_bind.mpr (wp_bind.mpr (wp_lift ?_))
  rintro ⟨index, table⟩ created
  have outcome : CallOutcome view.semTab woken call false
      (BitVec.ofInt 32 index) table := .created code created
  rw [← awake] at outcome
  exact outcome

/-- The call of an operation of the table, whose result goes to register
2 later. -/
def Operates (woken : STable) (call : SemaphoreCall) (before : SemaphoreView)
    (result : Word) (after : SemaphoreView) : Prop :=
  after.registers = before.registers ∧
    CallOutcome before.semTab woken call after.slept result after.semTab

theorem slot_ne_zero {table : STable} {name : CString} {found : Int}
    {slot : Fin maxSemaphore} (exist : table.isExist name = .ok found)
    (nonzero : found ≠ 0) (place : table.isExist name = .ok slot.val) :
    slot.val ≠ 0 := by
  cases exist.symm.trans place
  exact fun zero => nonzero (congrArg Int.ofNat zero)

theorem wp_semSignal (code : call.code = some .signal) (awake : view.slept = false) {found : Int}
    (exist : view.semTab.isExist call.name = .ok found)
    (nonzero : found ≠ 0) :
    (semSignal call.name).wp (semaphoreSpec woken) view (Operates woken call view) := by
  refine wp_bind.mpr (wp_bind.mpr (wp_lift ?_))
  rintro ⟨result, table⟩ signalled
  refine ⟨rfl, ?_⟩
  change CallOutcome view.semTab woken call view.slept _ table
  rw [awake]
  rcases STable.signal_inv signalled with
    ⟨missing, rfl, rfl⟩ | ⟨slot, object, place, rfl, entry, rfl⟩
  · exact .missing (.inl code) missing
  · exact .signalled code place (slot_ne_zero exist nonzero place) entry

theorem wp_semWait (code : call.code = some .wait) (awake : view.slept = false) {found : Int}
    (exist : view.semTab.isExist call.name = .ok found)
    (nonzero : found ≠ 0) :
    (semWait call.name).wp (semaphoreSpec woken) view (Operates woken call view) := by
  refine wp_bind.mpr (wp_bind.mpr (wp_lift fun index here => ?_))
  split
  · rename_i missing
    refine ⟨rfl, ?_⟩
    rw [awake]
    rw [missing] at here
    exact .missing (.inr code) here
  · refine wp_bind.mpr (wp_lift fun taken first => ?_)
    cases taken with
    | some table =>
      obtain ⟨slot, object, rfl, entry, available, rfl⟩ :=
        STable.take_inv first
      refine ⟨rfl, ?_⟩
      change CallOutcome view.semTab woken call view.slept _ _
      rw [awake]
      exact .took code here (slot_ne_zero exist nonzero here) entry available
    | none =>
      intro _
      change Program.wp (semaphoreSpec woken)
        (lift (woken.take index) >>= _) ⟨view.registers, woken, true⟩ _
      refine wp_bind.mpr (wp_lift fun taken second => ?_)
      cases taken with
      | some table =>
        obtain ⟨slot, object, rfl, entry, available, rfl⟩ :=
          STable.take_inv second
        exact ⟨rfl, .woke code here (slot_ne_zero exist nonzero here) entry available⟩
      | none => trivial

theorem monotone_semaphoreSpec : Monotone (semaphoreSpec woken) := by
  intro call view post weaker implied established
  cases call with
  | depart _ => trivial
  | readRegister _ | writeRegister _ _ | readSemTab | writeSemTab _ =>
    exact implied _ _ established
  | readMem _ _ | writeMem _ _ _ | readOpenf _ | writeOpenf _ _ | host _ =>
    exact fun reply => implied _ _ (established reply)

theorem wp_operateNamed {operation : CString → KernelProgram Word}
    (isOperation : call.IsOperation) (awake : view.slept = false)
    (operates : ∀ found, view.semTab.isExist call.name = .ok found →
      found ≠ 0 → (operation call.name).wp (semaphoreSpec woken) view (Operates woken call view)) :
    (operateNamed operation call.name).wp (semaphoreSpec woken) view
      fun _ after => Reaches woken call view.semTab after := by
  refine wp_bind.mpr (wp_bind.mpr (wp_lift fun _ _ =>
    wp_bind.mpr (wp_lift fun found exist => ?_)))
  split
  · rename_i zero
    rw [zero] at exist
    have outcome : CallOutcome view.semTab woken call false (-1#32)
        view.semTab := .refused isOperation exist
    rw [← awake] at outcome
    exact outcome
  · rename_i nonzero
    refine wp_bind.mpr (monotone_semaphoreSpec.wp ?_ (operates found exist nonzero))
    rintro result after ⟨-, outcome⟩
    exact outcome

theorem wp_userToSystem (virtAddr limit : Word) :
    (userToSystem virtAddr limit).wp (semaphoreSpec woken) view fun _ after => after = view := by
  have only : (userToSystem virtAddr limit).OnlyCalls (Keeps (semaphoreSpec woken)) :=
    onlyCalls_userToSystem (fun _ _ _ _ => trivial) (fun _ _ _ => id) fun _ _ _ _ => id
  exact only.wp_keep fun _ => rfl

end Handler

/-- A call which began with one table returns.  If it has slept, it was
woken with another. -/
def CallReturns (began woken : STable) (call : SemaphoreCall) (slept : Bool)
    (result : Word) (after : STable) : Prop :=
  ∃ (σ : Type) (environment : Environment σ) (asleep : σ → Bool)
    (kernel read final : Kernel σ) (buffer : List Byte),
    WakesWith environment asleep woken ∧
    kernel.semaphoreView asleep = ⟨call.registers, began, false⟩ ∧
    (userToSystem (call.registers r4) (maxNameLength + 1#32)).run
      (Kernel.answer environment) kernel = .ok (some buffer, read) ∧
    cString buffer = call.name ∧
    (exceptionHandler .syscallException).run (Kernel.answer environment)
      kernel = .ok ((), final) ∧
    asleep final.shared.rest = slept ∧ final.registers r2 = result ∧
    final.shared.semTab = after

/-- The calls on semaphores. -/
def SemaphoreCall.IsSemaphoreCall (call : SemaphoreCall) : Prop :=
  call.code = some .createSemaphore ∨ call.IsOperation

section

variable {σ : Type} {environment : Environment σ} {kernel final : Kernel σ}

theorem syscallCase_of_handler {code : Syscall}
    (called : Syscall.ofCode (kernel.registers r2) = some code)
    (success : (exceptionHandler .syscallException).run
      (Kernel.answer environment) kernel = .ok ((), final)) :
    ∃ middle, (syscallCase code).run (Kernel.answer environment) kernel =
        .ok ((), middle) ∧
      final.shared = middle.shared ∧
      final.registers r2 = middle.registers r2 := by
  change (dispatch (kernel.registers r2)).run _ kernel = _ at success
  rw [dispatch_some called] at success
  obtain ⟨_, middle, ran, advanced⟩ := run_bind_inv success
  cases advanced
  exact ⟨middle, ran, rfl, rfl⟩

theorem rest_of_name {virtAddr limit : Word} {read : Kernel σ}
    {buffer : List Byte} (rest : CString → KernelProgram Unit)
    (ran : (userToSystem virtAddr limit).run (Kernel.answer environment)
      kernel = .ok (some buffer, read))
    (success : (do
        let pointer ← userToSystem virtAddr limit
        let name ← nonNull pointer
        rest (cString name)).run (Kernel.answer environment) kernel =
      .ok ((), final)) :
    (rest (cString buffer)).run (Kernel.answer environment) read = .ok ((), final) := by
  obtain ⟨pointer, middle, same, success⟩ := run_bind_inv success
  cases ran.symm.trans same
  exact success

end

theorem CallReturns.outcome {began woken after : STable}
    {call : SemaphoreCall} {slept : Bool} {result : Word}
    (isCall : call.IsSemaphoreCall)
    (returns : CallReturns began woken call slept result after) :
    CallOutcome began woken call slept result after := by
  obtain ⟨σ, environment, asleep, kernel, read, final, buffer, wakesWith,
    view, ran, name, success, rfl, rfl, rfl⟩ := returns
  have meets := meets_semaphoreSpec wakesWith
  have sameView : read.semaphoreView asleep = ⟨call.registers, began, false⟩ :=
    (meets.run ran (wp_userToSystem _ _)).trans view
  have registers : kernel.registers = call.registers :=
    congrArg SemaphoreView.registers view
  have reached : ∀ (rest : KernelProgram Unit) middle,
      rest.run (Kernel.answer environment) read = .ok ((), middle) →
      rest.wp (semaphoreSpec woken) ⟨call.registers, began, false⟩
        (fun _ after => Reaches woken call began after) →
      final.shared = middle.shared →
      final.registers r2 = middle.registers r2 →
      CallOutcome began woken call (asleep final.shared.rest)
        (final.registers r2) final.shared.semTab := by
    intro rest middle ran established shared answer
    rw [← sameView] at established
    rw [shared, answer]
    exact meets.run ran established
  have dispatched : ∀ code, call.code = some code →
      ∃ middle, (syscallCase code).run (Kernel.answer environment) kernel =
          .ok ((), middle) ∧
        final.shared = middle.shared ∧
        final.registers r2 = middle.registers r2 := by
    intro code called
    refine syscallCase_of_handler ?_ success
    rw [registers]
    exact called
  rw [← registers] at ran
  rcases isCall with code | code | code
  · obtain ⟨middle, called, shared, answer⟩ := dispatched _ code
    have rest := rest_of_name (fun name => createNamed name (kernel.registers r5)) ran called
    rw [name, registers] at rest
    exact reached _ middle rest (wp_createNamed code rfl) shared answer
  · obtain ⟨middle, called, shared, answer⟩ := dispatched _ code
    have rest := rest_of_name (operateNamed semSignal) ran called
    rw [name] at rest
    exact reached _ middle rest (wp_operateNamed (.inl code) rfl
      fun found => wp_semSignal code rfl) shared answer
  · obtain ⟨middle, called, shared, answer⟩ := dispatched _ code
    have rest := rest_of_name (operateNamed semWait) ran called
    rw [name] at rest
    exact reached _ middle rest (wp_operateNamed (.inr code) rfl
      fun found => wp_semWait code rfl) shared answer

end Nachos
