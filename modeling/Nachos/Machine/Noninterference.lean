import Nachos.Machine.Confinement

/-!
# Noninterference between user threads

User threads share one machine.  A schedule says which of them executes each
instruction and where interrupts are taken; a switch goes through
`Scheduler::Run`, which saves and restores the registers and points the
machine at the page table of the next thread.  If the page tables map to
disjoint frames, nothing a thread can see depends on the others.
-/

open Words Memory Calls Function

namespace Nachos

/-- The part of a `Thread` and its `AddrSpace` which a switch works on. -/
structure UserThread where
  userRegisters : Registers
  pageTable : List TranslationEntry

/-- User threads on one machine, which uses a page table and no TLB. -/
structure UserSystem (ι : Type) where
  registers : Registers
  mainMemory : Nat → Byte
  threads : ι → UserThread
  currentThread : ι

inductive ScheduleEvent (ι : Type) where
  | execute (thread : ι)
  | interrupt

namespace UserSystem

variable {ι : Type} [DecidableEq ι]

/-- The machine as the current thread sees it. -/
def machine (system : UserSystem ι) : Machine where
  registers := system.registers
  mainMemory := system.mainMemory
  mmu := ⟨some (system.threads system.currentThread).pageTable, none⟩

/-- `Thread::SaveUserState` for the current thread. -/
def saveUserState (system : UserSystem ι) : UserSystem ι :=
  { system with
    threads := update system.threads system.currentThread { system.threads system.currentThread with
        userRegisters := system.registers } }

/-- `Thread::RestoreUserState` for the current thread; the machine follows
its page table, as `AddrSpace::RestoreState` makes it. -/
def restoreUserState (system : UserSystem ι) : UserSystem ι :=
  { system with
    registers := (system.threads system.currentThread).userRegisters }

/-- `Scheduler::Run`. -/
def schedulerRun (system : UserSystem ι) (nextThread : ι) : UserSystem ι :=
  restoreUserState { system.saveUserState with currentThread := nextThread }

/-- Give the processor to a thread, unless it has it already. -/
def dispatch (system : UserSystem ι) (thread : ι) : UserSystem ι :=
  if thread = system.currentThread then system
  else system.schedulerRun thread

/-- The system after the machine has run for the current thread. -/
def absorb (system : UserSystem ι) (machine : Machine) : UserSystem ι where
  registers := machine.registers
  mainMemory := machine.mainMemory
  threads := update system.threads system.currentThread { system.threads system.currentThread with
      pageTable := machine.mmu.pageTable.getD [] }
  currentThread := system.currentThread

/-- What the machine runs at one event: an instruction, or the delayed load
which `CheckIfDue` finishes before it calls an interrupt handler. -/
def eventProgram : ScheduleEvent ι → MachineProgram Unit
  | .execute _ => Cpu.oneInstruction
  | .interrupt => Cpu.delayedLoad 0#32 0#32

def eventThread (system : UserSystem ι) : ScheduleEvent ι → ι
  | .execute thread => thread
  | .interrupt => system.currentThread

/-- One event; there is no next state if it traps. -/
def step (system : UserSystem ι) (event : ScheduleEvent ι) : Option (UserSystem ι) :=
  let system := system.dispatch (system.eventThread event)
  match (eventProgram event).run Machine.answer system.machine with
  | .ok ((), machine) => some (system.absorb machine)
  | .error _ => none

/-- Follow a schedule. -/
def follow (system : UserSystem ι) : List (ScheduleEvent ι) → Option (UserSystem ι)
  | [] => some system
  | event :: events => do
    let next ← system.step event
    next.follow events

/-- The registers of a thread, wherever they are. -/
def registersOf (system : UserSystem ι) (thread : ι) : Registers :=
  if thread = system.currentThread then system.registers
  else (system.threads thread).userRegisters

def mmuOf (system : UserSystem ι) (thread : ι) : Mmu :=
  ⟨some (system.threads thread).pageTable, none⟩

/-- The byte a thread reads at a virtual address. -/
def readableByte (system : UserSystem ι) (thread : ι) (addr : Word) :
    Option Byte :=
  match (system.mmuOf thread).translate addr 1 false with
  | .ok (physicalAddress, _) => some (system.mainMemory physicalAddress)
  | .error _ => none

/-- No other thread maps a frame of this one. -/
def Isolated (system : UserSystem ι) (thread : ι) : Prop :=
  ∀ other, other ≠ thread → Disjoint (system.mmuOf thread).frames (system.mmuOf other).frames

/-- Two systems which look the same to one thread. -/
structure AgreeFor (thread : ι) (left right : UserSystem ι) : Prop where
  current : left.currentThread = right.currentThread
  registers : left.registersOf thread = right.registersOf thread
  pageTable : (left.threads thread).pageTable = (right.threads thread).pageTable
  memory : ∀ address, address / 512 ∈ (left.mmuOf thread).frames →
    left.mainMemory address = right.mainMemory address

/-! ## Switching -/

section

variable (system : UserSystem ι)
include system

@[simp] theorem dispatch_current (thread : ι) :
    (system.dispatch thread).currentThread = thread := by
  unfold dispatch
  split
  · rename_i same
    exact same.symm
  · rfl

@[simp] theorem dispatch_mainMemory (thread : ι) :
    (system.dispatch thread).mainMemory = system.mainMemory := by
  unfold dispatch
  split <;> rfl

@[simp] theorem dispatch_pageTable (thread other : ι) :
    ((system.dispatch thread).threads other).pageTable = (system.threads other).pageTable := by
  unfold dispatch
  split
  · rfl
  · by_cases running : other = system.currentThread
    · subst other
      simp [schedulerRun, restoreUserState, saveUserState]
    · simp [schedulerRun, restoreUserState, saveUserState, running]

/-- A switch moves the registers of every thread to the right place. -/
@[simp] theorem dispatch_registersOf (thread other : ι) :
    (system.dispatch thread).registersOf other =
      system.registersOf other := by
  unfold dispatch
  split
  · rfl
  · rename_i different
    by_cases running : other = system.currentThread
    · subst other
      simp [registersOf, schedulerRun, restoreUserState, saveUserState, Ne.symm different]
    · by_cases next : other = thread
      · subst other
        simp [registersOf, schedulerRun, restoreUserState, saveUserState, different]
      · simp [registersOf, schedulerRun, restoreUserState, saveUserState, running, next]

theorem dispatch_mmuOf (thread other : ι) :
    (system.dispatch thread).mmuOf other = system.mmuOf other := by
  unfold mmuOf
  rw [dispatch_pageTable]

end

variable {system : UserSystem ι} {thread : ι}

theorem Isolated.dispatch (isolated : system.Isolated thread) (next : ι) :
    (system.dispatch next).Isolated thread := by
  intro other different
  rw [dispatch_mmuOf, dispatch_mmuOf]
  exact isolated other different

variable {left right : UserSystem ι}

theorem AgreeFor.dispatch (agree : AgreeFor thread left right) (next : ι) :
    AgreeFor thread (left.dispatch next) (right.dispatch next) := by
  refine ⟨by simp, ?_, ?_, ?_⟩
  · simpa using agree.registers
  · simpa using agree.pageTable
  · rw [dispatch_mmuOf, dispatch_mainMemory, dispatch_mainMemory]
    exact agree.memory

/-! ## Running for the current thread -/

theorem absorb_registersOf_of_ne (system : UserSystem ι) (machine : Machine)
    (different : thread ≠ system.currentThread) :
    (system.absorb machine).registersOf thread =
      system.registersOf thread := by
  simp [registersOf, absorb, different]

theorem absorb_thread_of_ne (system : UserSystem ι) (machine : Machine)
    (different : thread ≠ system.currentThread) :
    (system.absorb machine).threads thread = system.threads thread := by
  simp [absorb, different]

theorem absorb_frames {machine : Machine}
    (confined : Machine.Confined system.machine machine) (thread : ι) :
    ((system.absorb machine).mmuOf thread).frames = (system.mmuOf thread).frames := by
  by_cases running : thread = system.currentThread
  · subst thread
    have targets := confined.targets
    have absent := confined.tlb rfl
    apply Mmu.frames_congr
    simp only [Mmu.targets, absent, UserSystem.machine] at targets
    simp only [Mmu.targets, mmuOf, absorb, update_self]
    exact targets
  · unfold mmuOf
    rw [absorb_thread_of_ne system machine running]

theorem Isolated.absorb {machine : Machine} (isolated : system.Isolated thread)
    (confined : Machine.Confined system.machine machine) :
    (system.absorb machine).Isolated thread := by
  intro other different
  rw [absorb_frames confined, absorb_frames confined]
  exact isolated other different

/-- A run for another thread leaves the frames of an isolated one alone. -/
theorem Isolated.absorb_memory {machine : Machine} (isolated : system.Isolated thread)
    (confined : Machine.Confined system.machine machine)
    (different : system.currentThread ≠ thread) {address : Nat}
    (inside : address / 512 ∈ (system.mmuOf thread).frames) :
    (system.absorb machine).mainMemory address =
      system.mainMemory address := by
  apply confined.memory
  intro reached
  exact Set.disjoint_left.mp (isolated _ different) inside reached

theorem AgreeFor.alike (agree : AgreeFor thread left right)
    (running : left.currentThread = thread) :
    Machine.Alike left.machine right.machine := by
  have running' := agree.current.symm.trans running
  have registers := agree.registers
  simp only [registersOf, running, running', if_true] at registers
  refine ⟨registers, ?_, ?_⟩
  · simp only [machine, running, running', agree.pageTable]
  · intro address inside
    apply agree.memory
    simp only [machine, running] at inside
    exact inside

theorem AgreeFor.absorb_observer {leftMachine rightMachine : Machine}
    (agree : AgreeFor thread left right)
    (running : left.currentThread = thread)
    (confined : Machine.Confined left.machine leftMachine)
    (alike : Machine.Alike leftMachine rightMachine) :
    AgreeFor thread (left.absorb leftMachine) (right.absorb rightMachine) := by
  have running' := agree.current.symm.trans running
  refine ⟨agree.current, ?_, ?_, ?_⟩
  · simp only [registersOf, absorb, running, running', if_true]
    exact alike.registers
  · simp only [absorb, running, running', update_self, alike.mmu]
  · intro address inside
    apply alike.memory
    rw [absorb_frames confined] at inside
    rw [Mmu.frames_congr confined.targets]
    simp only [machine, running]
    exact inside

theorem AgreeFor.absorb_other {leftMachine rightMachine : Machine}
    (agree : AgreeFor thread left right) (leftIsolated : left.Isolated thread)
    (rightIsolated : right.Isolated thread)
    (different : left.currentThread ≠ thread)
    (leftConfined : Machine.Confined left.machine leftMachine)
    (rightConfined : Machine.Confined right.machine rightMachine) :
    AgreeFor thread (left.absorb leftMachine) (right.absorb rightMachine) := by
  have different' : right.currentThread ≠ thread := by
    rw [← agree.current]
    exact different
  refine ⟨agree.current, ?_, ?_, ?_⟩
  · rw [absorb_registersOf_of_ne left leftMachine different.symm,
      absorb_registersOf_of_ne right rightMachine different'.symm]
    exact agree.registers
  · rw [absorb_thread_of_ne left leftMachine different.symm,
      absorb_thread_of_ne right rightMachine different'.symm]
    exact agree.pageTable
  · intro address inside
    rw [absorb_frames leftConfined] at inside
    have inside' : address / 512 ∈ (right.mmuOf thread).frames := by
      unfold mmuOf
      rw [← agree.pageTable]
      exact inside
    rw [leftIsolated.absorb_memory leftConfined different inside,
      rightIsolated.absorb_memory rightConfined different' inside']
    exact agree.memory address inside

/-! ## Schedules -/

theorem step_inv {next : UserSystem ι} {event : ScheduleEvent ι}
    (success : system.step event = some next) :
    ∃ machine, (eventProgram event).run Machine.answer
          (system.dispatch (system.eventThread event)).machine =
        .ok ((), machine) ∧
      next = (system.dispatch (system.eventThread event)).absorb machine := by
  unfold step at success
  simp only at success
  split at success
  · rename_i machine ran
    cases success
    exact ⟨machine, ran, rfl⟩
  · cases success

theorem Isolated.step {next : UserSystem ι} {event : ScheduleEvent ι}
    (isolated : system.Isolated thread)
    (success : system.step event = some next) : next.Isolated thread := by
  obtain ⟨machine, ran, rfl⟩ := step_inv success
  exact (isolated.dispatch _).absorb (Machine.run_confined _ ran)

theorem AgreeFor.step {left' right' : UserSystem ι} {event : ScheduleEvent ι}
    (agree : AgreeFor thread left right) (leftIsolated : left.Isolated thread)
    (rightIsolated : right.Isolated thread)
    (leftStep : left.step event = some left')
    (rightStep : right.step event = some right') :
    AgreeFor thread left' right' := by
  have events : left.eventThread event = right.eventThread event := by
    cases event with
    | execute next => rfl
    | interrupt => exact agree.current
  obtain ⟨leftMachine, leftRan, rfl⟩ := step_inv leftStep
  obtain ⟨rightMachine, rightRan, rfl⟩ := step_inv rightStep
  rw [← events] at rightRan ⊢
  have dispatched := agree.dispatch (left.eventThread event)
  have leftConfined := Machine.run_confined _ leftRan
  have rightConfined := Machine.run_confined _ rightRan
  by_cases running : (left.dispatch (left.eventThread event)).currentThread = thread
  · have matched := Machine.run_alike (eventProgram event) (dispatched.alike running)
    rw [leftRan, rightRan] at matched
    exact dispatched.absorb_observer running leftConfined matched.2
  · exact dispatched.absorb_other (leftIsolated.dispatch _)
      (rightIsolated.dispatch _) running leftConfined rightConfined

theorem AgreeFor.follow (events : List (ScheduleEvent ι))
    {left' right' : UserSystem ι} (agree : AgreeFor thread left right)
    (leftIsolated : left.Isolated thread)
    (rightIsolated : right.Isolated thread)
    (leftRun : left.follow events = some left')
    (rightRun : right.follow events = some right') :
    AgreeFor thread left' right' := by
  induction events generalizing left right with
  | nil =>
    cases leftRun
    cases rightRun
    exact agree
  | cons event events induction =>
    obtain ⟨leftNext, leftStep, leftRest⟩ :=
      Option.bind_eq_some_iff.mp leftRun
    obtain ⟨rightNext, rightStep, rightRest⟩ :=
      Option.bind_eq_some_iff.mp rightRun
    exact induction (agree.step leftIsolated rightIsolated leftStep rightStep)
      (leftIsolated.step leftStep) (rightIsolated.step rightStep)
      leftRest rightRest

theorem AgreeFor.readableByte (agree : AgreeFor thread left right) (addr : Word) :
    left.readableByte thread addr = right.readableByte thread addr := by
  have sameMmu : right.mmuOf thread = left.mmuOf thread := by
    unfold mmuOf
    rw [agree.pageTable]
  unfold UserSystem.readableByte
  rw [sameMmu]
  cases translated : (left.mmuOf thread).translate addr 1 false with
  | error refusal => rfl
  | ok result =>
    obtain ⟨physicalAddress, mmu⟩ := result
    have inside := Mmu.translate_inside translated (.inl rfl) (Nat.zero_lt_one)
    exact congrArg some (agree.memory physicalAddress inside)

theorem follow_take {final : UserSystem ι} (events : List (ScheduleEvent ι))
    (point : Nat) (run : system.follow events = some final) :
    ∃ reached, system.follow (events.take point) = some reached := by
  induction events generalizing system point with
  | nil =>
    rw [List.take_nil]
    exact ⟨final, run⟩
  | cons event events induction =>
    obtain ⟨next, step, rest⟩ := Option.bind_eq_some_iff.mp run
    cases point with
    | zero => exact ⟨system, rfl⟩
    | succ point =>
      obtain ⟨reached, follows⟩ := induction point rest
      exact ⟨reached, Option.bind_eq_some_iff.mpr ⟨next, step, follows⟩⟩

/-- Nothing an isolated thread can see depends on the other threads: two
systems which agree on its registers, its page table and its frames still
agree on its registers and on every byte it can read at each point of a
schedule which they both follow. -/
theorem isolated_thread_sees_no_difference (thread : ι)
    (left right leftFinal rightFinal : UserSystem ι)
    (events : List (ScheduleEvent ι))
    (leftIsolated : left.Isolated thread)
    (rightIsolated : right.Isolated thread)
    (agree : AgreeFor thread left right)
    (leftRun : left.follow events = some leftFinal)
    (rightRun : right.follow events = some rightFinal) (point : Nat) :
    ∃ left' right',
      left.follow (events.take point) = some left' ∧
      right.follow (events.take point) = some right' ∧
      left'.registersOf thread = right'.registersOf thread ∧
      ∀ addr, left'.readableByte thread addr = right'.readableByte thread addr := by
  obtain ⟨left', leftReached⟩ := follow_take events point leftRun
  obtain ⟨right', rightReached⟩ := follow_take events point rightRun
  have agree' := agree.follow (events.take point) leftIsolated
    rightIsolated leftReached rightReached
  exact ⟨left', right', leftReached, rightReached, agree'.registers, agree'.readableByte⟩

/-- Two threads with one page each; the second one runs whatever its frame
holds. -/
def twoThreads (secondFrame : Nat → Byte) (second : Registers) : UserSystem Bool where
  registers := fun _ => 0#32
  mainMemory address :=
    if address / 512 = 1 then secondFrame (address % 512) else 0#8
  threads := fun thread => cond thread ⟨fun _ => 0#32, [⟨0#32, 0#32, true, false, false, false⟩]⟩
    ⟨second, [⟨0#32, 1#32, true, false, false, false⟩]⟩
  currentThread := true

theorem twoThreads_isolated (secondFrame : Nat → Byte)
    (second : Registers) : (twoThreads secondFrame second).Isolated true := by
  intro other different
  cases other with
  | true => exact absurd rfl different
  | false =>
    rw [Set.disjoint_left]
    simp [Mmu.frames, Mmu.targets, mmuOf, twoThreads, TranslationEntry.target]

theorem twoThreads_agree (frame frame' : Nat → Byte) (second second' : Registers) :
    AgreeFor true (twoThreads frame second) (twoThreads frame' second') := by
  refine ⟨rfl, rfl, rfl, ?_⟩
  intro address inside
  have below : address < 512 := by
    simpa [Mmu.frames, Mmu.targets, mmuOf, twoThreads, TranslationEntry.target] using inside
  have first : address / 512 ≠ 1 := by omega
  simp [twoThreads, first]

theorem isolated_thread_sees_no_difference_between_two :
    ∃ left' right', (twoThreads (fun _ => 0#8) fun _ => 0#32).follow
        ([.execute true, .execute false, .interrupt, .execute true].take 3) =
          some left' ∧
      (twoThreads (fun address => if address = 3 then 36#8 else 0#8) fun _ => 0#32).follow
        ([.execute true, .execute false, .interrupt, .execute true].take 3) =
          some right' ∧
      left'.registersOf true = right'.registersOf true ∧
      ∀ addr, left'.readableByte true addr = right'.readableByte true addr :=
  isolated_thread_sees_no_difference true _ _ _ _
    [.execute true, .execute false, .interrupt, .execute true]
    (twoThreads_isolated _ _) (twoThreads_isolated _ _)
    (twoThreads_agree _ _ _ _)
    (Option.some_get (by decide : Option.isSome _ = true)).symm
    (Option.some_get (by decide : Option.isSome _ = true)).symm 3

end UserSystem

end Nachos
