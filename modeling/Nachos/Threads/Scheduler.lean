import Nachos.Lib.Transition
import Nachos.Lib.Words

/-!
# Kernel threads

`Thread`, `Scheduler` and `Semaphore` on one processor.  The operations turn
interrupts off, so a thread gives up the processor only in `Yield` and in
`Sleep`, and an interrupt handler runs only between operations or while
`Sleep` idles.  `SWITCH` continues a thread where it had given up the
processor; a thread which has not run yet starts in `ThreadRoot`, not behind
the call of `SWITCH` in `Scheduler::Run`.

Threads and semaphores are named by their addresses.  The constructor of a
semaphore is not an event: a semaphore nobody has used is as new.
-/

open Words Function

namespace Nachos

namespace Threads

inductive ThreadStatus where
  | justCreated
  | running
  | ready
  | blocked
  deriving DecidableEq

/-- Where `SWITCH` continues a thread. -/
inductive ResumePoint (κ : Type) where
  | threadRoot
  | yield
  | p (semaphore : κ)
  | finish
  deriving DecidableEq

/-- Where the current thread is.  `testing` is the loop of `P`, entered from
the start or after the thread was woken; `sleeping` and `idling` are the
loop of `Sleep` and the call of `Idle` in it, with the place where the
thread is going to continue. -/
inductive Control (κ : Type) where
  | outside
  | testing (semaphore : κ) (woken : Bool)
  | sleeping (point : ResumePoint κ)
  | idling (point : ResumePoint κ)
  | crashed
  deriving DecidableEq

structure Semaphore (τ : Type) where
  value : Word
  queue : List τ

/-- `status` is `none` where there is no thread object. -/
structure State (τ κ : Type) where
  currentThread : τ
  status : τ → Option ThreadStatus
  readyList : List τ
  semaphores : κ → Semaphore τ
  threadToBeDestroyed : Option τ
  resume : τ → ResumePoint κ
  control : Control κ

inductive Event (τ κ : Type) where
  | newThread (thread : τ)
  | fork (thread : τ)
  | yield
  | p (semaphore : κ)
  | take (semaphore : κ)
  | block (semaphore : κ)
  | v (semaphore : κ)
  | finish
  | idle
  | wake
  | dispatch
  deriving DecidableEq

namespace State

variable {τ κ : Type} [DecidableEq τ] [DecidableEq κ]

/-- `Initialize` makes the main thread. -/
def boot (main : τ) (initialValue : κ → Word) : State τ κ where
  currentThread := main
  status := update (fun _ => none) main (some .running)
  readyList := []
  semaphores semaphore := ⟨initialValue semaphore, []⟩
  threadToBeDestroyed := none
  resume _ := .threadRoot
  control := .outside

/-- `Scheduler::ReadyToRun`. -/
def readyToRun (thread : τ) (state : State τ κ) : State τ κ :=
  { state with
    status := update state.status thread (some .ready)
    readyList := state.readyList ++ [thread] }

/-- `Scheduler::FindNextToRun`. -/
def findNextToRun (state : State τ κ) : Option (τ × State τ κ) :=
  match state.readyList with
  | [] => none
  | next :: rest => some (next, { state with readyList := rest })

/-- What stands behind the call of `SWITCH` in `Scheduler::Run`.  The
destructor asserts that it does not destroy the current thread. -/
def afterSwitch (control : Control κ) (state : State τ κ) : State τ κ :=
  match state.threadToBeDestroyed with
  | none => { state with control := control }
  | some thread =>
    if thread = state.currentThread then { state with control := .crashed }
    else { state with
      status := update state.status thread none
      threadToBeDestroyed := none
      control := control }

/-- `Scheduler::Run` up to `SWITCH`, called by a thread which is going to
continue at `point`. -/
def switch (next : τ) (point : ResumePoint κ) (state : State τ κ) :
    State τ κ :=
  { state with
    resume := update state.resume state.currentThread point
    currentThread := next
    status := update state.status next (some .running) }

/-- `Scheduler::Run`.  `Finish` must not continue. -/
def run (next : τ) (point : ResumePoint κ) (state : State τ κ) :
    State τ κ :=
  match (state.switch next point).resume next with
  | .threadRoot => { state.switch next point with control := .outside }
  | .yield => (state.switch next point).afterSwitch .outside
  | .p semaphore =>
    (state.switch next point).afterSwitch (.testing semaphore true)
  | .finish => (state.switch next point).afterSwitch .crashed

/-- `Thread::Sleep` up to its loop. -/
def sleep (point : ResumePoint κ) (state : State τ κ) : State τ κ :=
  { state with
    status := update state.status state.currentThread (some .blocked)
    control := .sleeping point }

/-- `Thread::Yield`. -/
def yield (state : State τ κ) : State τ κ :=
  match state.findNextToRun with
  | none => state
  | some (next, state) =>
    (state.readyToRun state.currentThread).run next .yield

def setSemaphore (semaphore : κ) (changed : Semaphore τ) (state : State τ κ) : State τ κ :=
  { state with
    semaphores := update state.semaphores semaphore changed }

/-- The decrement at the end of `Semaphore::P`. -/
def take (semaphore : κ) (state : State τ κ) : State τ κ :=
  { state.setSemaphore semaphore { state.semaphores semaphore with
        value := (state.semaphores semaphore).value - 1 } with
    control := .outside }

/-- The body of the loop of `Semaphore::P`. -/
def block (semaphore : κ) (state : State τ κ) : State τ κ :=
  (state.setSemaphore semaphore { state.semaphores semaphore with
      queue := (state.semaphores semaphore).queue ++ [state.currentThread] }).sleep (.p semaphore)

/-- `Semaphore::V`. -/
def v (semaphore : κ) (state : State τ κ) : State τ κ :=
  match (state.semaphores semaphore).queue with
  | [] => state.setSemaphore semaphore
      ⟨(state.semaphores semaphore).value + 1, []⟩
  | thread :: rest => (state.readyToRun thread).setSemaphore semaphore
      ⟨(state.semaphores semaphore).value + 1, rest⟩

/-- `Thread::Finish`. -/
def finish (state : State τ κ) : State τ κ :=
  { state with
    threadToBeDestroyed := some state.currentThread }.sleep .finish

/-- `Thread::Fork`, which sets the place to start first. -/
def fork (thread : τ) (state : State τ κ) : State τ κ :=
  { state with
    resume := update state.resume thread .threadRoot }.readyToRun thread

/-- The state after an event which is possible. -/
def next (state : State τ κ) : Event τ κ → Option (State τ κ)
  | .newThread thread =>
    if state.control = .outside ∧ state.status thread = none then
      some { state with
        status := update state.status thread (some .justCreated) }
    else none
  | .fork thread =>
    if state.control = .outside ∧ state.status thread = some .justCreated then
      some (state.fork thread)
    else none
  | .yield => if state.control = .outside then some state.yield else none
  | .p semaphore =>
    if state.control = .outside then
      some { state with control := .testing semaphore false }
    else none
  | .take semaphore =>
    match state.control with
    | .testing tested _ =>
      if tested = semaphore ∧ (state.semaphores semaphore).value ≠ 0#32 then
        some (state.take semaphore)
      else none
    | _ => none
  | .block semaphore =>
    match state.control with
    | .testing tested _ =>
      if tested = semaphore ∧ (state.semaphores semaphore).value = 0#32 then
        some (state.block semaphore)
      else none
    | _ => none
  | .v semaphore =>
    match state.control with
    | .outside => some (state.v semaphore)
    | .idling _ => some (state.v semaphore)
    | _ => none
  | .finish => if state.control = .outside then some state.finish else none
  | .idle =>
    match state.control with
    | .sleeping point =>
      if state.readyList = [] then
        some { state with control := .idling point }
      else none
    | _ => none
  | .wake =>
    match state.control with
    | .idling point => some { state with control := .sleeping point }
    | _ => none
  | .dispatch =>
    match state.control, state.findNextToRun with
    | .sleeping point, some (next, state) => some (state.run next point)
    | _, _ => none

def Step (before : State τ κ) (event : Event τ κ) (after : State τ κ) :
    Prop :=
  before.next event = some after

/-- Where a thread is going to continue; the current one, if it is about to
give up the processor. -/
def point (state : State τ κ) : τ → ResumePoint κ :=
  match state.control with
  | .sleeping point =>
    update state.resume state.currentThread point
  | .idling point => update state.resume state.currentThread point
  | _ => state.resume

/-- The cases of a step. -/
inductive Moves (state : State τ κ) : Event τ κ → State τ κ → Prop where
  | newThread {thread : τ} :
      state.control = .outside → state.status thread = none →
      Moves state (.newThread thread) { state with
          status := update state.status thread (some .justCreated) }
  | fork {thread : τ} :
      state.control = .outside →
      state.status thread = some .justCreated →
      Moves state (.fork thread) (state.fork thread)
  | stay :
      state.control = .outside → state.readyList = [] →
      Moves state .yield state
  | yield {next : τ} {rest : List τ} :
      state.control = .outside → state.readyList = next :: rest →
      Moves state .yield (({ state with readyList := rest }.readyToRun
        state.currentThread).run next .yield)
  | p {semaphore : κ} :
      state.control = .outside →
      Moves state (.p semaphore) { state with control := .testing semaphore false }
  | take {semaphore : κ} {woken : Bool} :
      state.control = .testing semaphore woken →
      (state.semaphores semaphore).value ≠ 0#32 →
      Moves state (.take semaphore) (state.take semaphore)
  | block {semaphore : κ} {woken : Bool} :
      state.control = .testing semaphore woken →
      (state.semaphores semaphore).value = 0#32 →
      Moves state (.block semaphore) (state.block semaphore)
  | v {semaphore : κ} :
      (state.control = .outside ∨ ∃ point, state.control = .idling point) →
      Moves state (.v semaphore) (state.v semaphore)
  | finish :
      state.control = .outside → Moves state .finish state.finish
  | idle {point : ResumePoint κ} :
      state.control = .sleeping point → state.readyList = [] →
      Moves state .idle { state with control := .idling point }
  | wake {point : ResumePoint κ} :
      state.control = .idling point →
      Moves state .wake { state with control := .sleeping point }
  | dispatch {point : ResumePoint κ} {next : τ} {rest : List τ} :
      state.control = .sleeping point → state.readyList = next :: rest →
      Moves state .dispatch ({ state with readyList := rest }.run next point)

theorem Step.moves {before after : State τ κ} {event : Event τ κ}
    (step : Step before event after) : before.Moves event after := by
  cases event with
  | newThread thread =>
    obtain ⟨⟨outside, absent⟩, ⟨⟩⟩ := Option.ite_none_right_eq_some.mp step
    exact .newThread outside absent
  | fork thread =>
    obtain ⟨⟨outside, created⟩, ⟨⟩⟩ :=
      Option.ite_none_right_eq_some.mp step
    exact .fork outside created
  | yield =>
    obtain ⟨outside, ⟨⟩⟩ := Option.ite_none_right_eq_some.mp step
    cases shape : before.readyList with
    | nil =>
      simp only [State.yield, findNextToRun, shape]
      exact .stay outside shape
    | cons next rest =>
      simp only [State.yield, findNextToRun, shape]
      exact .yield outside shape
  | p semaphore =>
    obtain ⟨outside, ⟨⟩⟩ := Option.ite_none_right_eq_some.mp step
    exact .p outside
  | take semaphore =>
    simp only [Step, State.next] at step
    split at step
    · rename_i tested woken place
      obtain ⟨⟨rfl, available⟩, ⟨⟩⟩ :=
        Option.ite_none_right_eq_some.mp step
      exact .take place available
    · cases step
  | block semaphore =>
    simp only [Step, State.next] at step
    split at step
    · rename_i tested woken place
      obtain ⟨⟨rfl, unavailable⟩, ⟨⟩⟩ :=
        Option.ite_none_right_eq_some.mp step
      exact .block place unavailable
    · cases step
  | v semaphore =>
    simp only [Step, State.next] at step
    split at step
    · rename_i place
      cases step
      exact .v (.inl place)
    · rename_i point place
      cases step
      exact .v (.inr ⟨point, place⟩)
    · cases step
  | finish =>
    obtain ⟨outside, ⟨⟩⟩ := Option.ite_none_right_eq_some.mp step
    exact .finish outside
  | idle =>
    simp only [Step, State.next] at step
    split at step
    · rename_i point place
      obtain ⟨empty, ⟨⟩⟩ := Option.ite_none_right_eq_some.mp step
      exact .idle place empty
    · cases step
  | wake =>
    simp only [Step, State.next] at step
    split at step
    · rename_i point place
      cases step
      exact .wake place
    · cases step
  | dispatch =>
    simp only [Step, State.next, findNextToRun] at step
    split at step
    · rename_i point next changed place found
      cases step
      split at found
      · cases found
      · rename_i head rest shape
        cases found
        exact .dispatch place shape
    · cases step

end State

end Threads

end Nachos
