import Nachos.Threads.Destroy
import Nachos.Threads.Synch

/-!
# Taking turns

The processor goes to the head of the ready list, and whoever becomes ready
joins its end.  So a ready thread has its turn after those which were ready
before it, whatever the threads do meanwhile.  The queue of a semaphore gives
no such promise: `V` makes its head ready, but another thread can take the
value before the head has tested it again, and then the head goes back to
sleep.
-/

open Words Transition Function

namespace Nachos

namespace Threads

variable {τ κ : Type}

/-- The current thread gives the processor to the head of the ready list, if
there is one. -/
def Event.Switches : Event τ κ → Bool
  | .yield | .dispatch => true
  | _ => false

namespace State

variable [DecidableEq τ] {state before after final : State τ κ} {event : Event τ κ}
  {events : List (Event τ κ)} {thread : τ}

/-! ## The ready list -/

theorem afterSwitch_currentThread (control : Control κ) (state : State τ κ) :
    (state.afterSwitch control).currentThread = state.currentThread := by
  unfold afterSwitch
  split
  · rfl
  · split <;> rfl

theorem run_currentThread (state : State τ κ) (next : τ) (point : ResumePoint κ) :
    (state.run next point).currentThread = next := by
  unfold run
  split
  · rfl
  all_goals exact afterSwitch_currentThread _ _

variable [DecidableEq κ]

/-- A switch takes the head from the ready list and lets it run, and every
step adds to the end of the list only. -/
theorem Step.readyList (step : Step before event after) :
    (∃ added, after.readyList =
      before.readyList.drop (if event.Switches then 1 else 0) ++ added) ∧
    (event.Switches = true → ∀ next, before.readyList.head? = some next →
      after.currentThread = next) := by
  cases step.moves with
  | newThread | p | take | block | finish | idle | wake =>
    exact ⟨⟨[], (List.append_nil _).symm⟩, nofun⟩
  | @fork thread => exact ⟨⟨[thread], rfl⟩, nofun⟩
  | stay outside empty =>
    rw [empty]
    exact ⟨⟨[], rfl⟩, nofun⟩
  | yield outside shape =>
    rw [shape]
    refine ⟨⟨[before.currentThread], (run_fields _ _ _).1⟩, ?_⟩
    rintro - next ⟨⟩
    exact run_currentThread _ _ _
  | dispatch place shape =>
    rw [shape]
    refine ⟨⟨[], (run_fields _ _ _).1.trans (List.append_nil _).symm⟩, ?_⟩
    rintro - next ⟨⟩
    exact run_currentThread _ _ _
  | @v semaphore place =>
    refine ⟨?_, nofun⟩
    unfold State.v
    split
    · exact ⟨[], (List.append_nil _).symm⟩
    · exact ⟨_, rfl⟩

/-- A run takes as many threads from the ready list as it has switches. -/
theorem readyList_of_run (run : Run Step state events final)
    (within : events.countP Event.Switches ≤ state.readyList.length) :
    ∃ added, final.readyList = state.readyList.drop (events.countP Event.Switches) ++ added := by
  revert within
  refine run.history (fun past final =>
    past.countP Event.Switches ≤ state.readyList.length →
      ∃ added, final.readyList = state.readyList.drop (past.countP Event.Switches) ++ added) ?_ ?_
  · exact fun _ => ⟨[], (List.append_nil _).symm⟩
  · intro past before event after induction step within
    rw [List.countP_append, List.countP_singleton] at within ⊢
    obtain ⟨earlier, shape⟩ := induction (by omega)
    obtain ⟨⟨added, moved⟩, -⟩ := step.readyList
    refine ⟨earlier ++ added, ?_⟩
    rw [moved, shape, List.drop_append_of_le_length (by
      rw [List.length_drop]
      omega), List.drop_drop, List.append_assoc]

/-- The ready list is a queue.  From any state on, a thread on it moves up by
one place with every switch, and it runs after the next switch once it is the
head. -/
theorem ready_thread_has_its_turn {position : Nat}
    (ready : state.readyList[position]? = some thread)
    (run : Run Step state events final) :
    (events.countP Event.Switches ≤ position →
      final.readyList[position - events.countP Event.Switches]? = some thread) ∧
    ∀ past event, events = past ++ [event] → event.Switches = true →
      past.countP Event.Switches = position → final.currentThread = thread := by
  have inside : position < state.readyList.length :=
    (List.getElem?_eq_some_iff.mp ready).1
  constructor
  · intro waiting
    obtain ⟨added, shape⟩ := readyList_of_run run (by omega)
    rw [shape, List.getElem?_append_left (by
      rw [List.length_drop]
      omega), List.getElem?_drop, Nat.add_sub_cancel' waiting]
    exact ready
  · rintro past event rfl switches turn
    obtain ⟨middle, before, step⟩ := run.snoc_inv
    obtain ⟨added, shape⟩ := readyList_of_run before (by omega)
    apply step.readyList.2 switches
    rw [shape, turn, List.head?_append, List.head?_drop, ready]
    rfl

/-- The main thread has forked two threads, and yields twice. -/
theorem ready_thread_has_its_turn_second :
    ∃ final : State Nat Nat, Run Step (((boot 0 fun _ => 0#32).fork 1).fork 2)
      [.yield, .yield] final ∧ final.currentThread = 2 := by
  obtain ⟨final, run, -⟩ := @exists_run_of_replay _ _ next Step
    (((boot 0 fun _ => 0#32).fork 1).fork 2 : State Nat Nat) [.yield, .yield]
    (fun _ => True) _ (fun _ _ _ => id) (by decide +kernel)
  refine ⟨final, run, ?_⟩
  exact (ready_thread_has_its_turn (show _ = some 2 from rfl) run).2 [.yield] .yield rfl rfl rfl

/-! ## The queue of a semaphore -/

/-- A thread waits for a semaphore, and another one runs which is the only
one that can. -/
structure Contended (state : State τ κ) (waiter : τ) (semaphore : κ) : Prop where
  outside : state.control = .outside
  other : state.currentThread ≠ waiter
  alone : state.readyList = []
  unavailable : state.semaphores semaphore = ⟨0#32, [waiter]⟩
  nobody : state.threadToBeDestroyed = none
  waiting : state.resume waiter = .p semaphore

/-- The steps in which the thread does not take the semaphore. -/
def nextWithout (waiter : τ) (semaphore : κ) (state : State τ κ)
    (event : Event τ κ) : Option (State τ κ) :=
  if event = .take semaphore ∧ state.currentThread = waiter then none
  else state.next event

/-- The thread leaves the queue of the semaphore for the ready list. -/
def Wakes (waiter : τ) (semaphore : κ) (before after : State τ κ) : Prop :=
  waiter ∈ (before.semaphores semaphore).queue ∧
    waiter ∉ (after.semaphores semaphore).queue ∧ waiter ∈ after.readyList

/-- A step in which the thread does not take the semaphore, and which wakes
the thread if it is a `V`. -/
def Overtakes (waiter : τ) (semaphore : κ) (before : State τ κ) (event : Event τ κ)
    (after : State τ κ) : Prop :=
  nextWithout waiter semaphore before event = some after ∧
    (event = .v semaphore → Wakes waiter semaphore before after)

/-- `P` of the thread which has called `V`; it yields to the waiter. -/
def overtaking (semaphore : κ) : List (Event τ κ) :=
  [.p semaphore, .take semaphore, .yield, .block semaphore, .dispatch]

variable {waiter : τ} {semaphore : κ}

theorem Contended.run_overtaking (contended : state.Contended waiter semaphore) :
    ∃ after, Run (Overtakes waiter semaphore) state (.v semaphore :: overtaking semaphore) after ∧
      after.Contended waiter semaphore := by
  obtain ⟨woken, after, signalled, wakes, replayed, again⟩ : ∃ woken after,
      nextWithout waiter semaphore state (.v semaphore) = some woken ∧
      Wakes waiter semaphore state woken ∧
      replay (nextWithout waiter semaphore) woken (overtaking semaphore) = some after ∧
      after.Contended waiter semaphore := by
    obtain ⟨currentThread, status, readyList, semaphores, destroyed, resume, control⟩ :=
      state
    obtain ⟨outside, other, alone, unavailable, nobody, waiting⟩ := contended
    dsimp only at outside other alone unavailable nobody waiting
    subst outside alone nobody
    simp only [overtaking, replay, nextWithout, Wakes, reduceCtorEq, other, and_self, ↓reduceIte,
      next, v, unavailable, setSemaphore, readyToRun, List.nil_append,
      BitVec.ofNat_eq_ofNat, BitVec.zero_add, false_and, true_and, ne_eq, take, yield,
      findNextToRun, run, switch, afterSwitch, block, sleep, Option.bind_eq_bind,
      Option.bind_fun_some, Option.bind_some, update_self,
      BitVec.one_eq_zero_iff, OfNat.ofNat_ne_zero, not_false_eq_true, sub_self,
      update_idem, update_of_ne other.symm, waiting,
      update_of_ne, Option.some.injEq, exists_eq_left', exists_and_left, List.mem_singleton,
      List.not_mem_nil]
    exact ⟨rfl, other, rfl, update_self .., rfl, update_self ..⟩
  refine ⟨after, (Run.single ⟨signalled, fun _ => wakes⟩).append
    ((run_of_replay replayed).mono ?_), again⟩
  rintro before event after member taken
  refine ⟨taken, ?_⟩
  rintro rfl
  simp [overtaking] at member

/-- A thread which waits for a semaphore need not get it, however often the
semaphore is signalled: it can be woken every time and find the value
taken. -/
theorem waiter_overtaken_every_time (contended : state.Contended waiter semaphore) (rounds : Nat) :
    ∃ events final, Run (Overtakes waiter semaphore) state events final ∧
      events.count (.v semaphore) = rounds ∧ final.Contended waiter semaphore := by
  induction rounds with
  | zero => exact ⟨[], state, .refl, rfl, contended⟩
  | succ rounds induction =>
    obtain ⟨events, middle, run, signals, again⟩ := induction
    obtain ⟨final, overtaken, contended⟩ := again.run_overtaking
    refine ⟨events ++ .v semaphore :: overtaking semaphore, final, run.append overtaken, ?_,
      contended⟩
    rw [List.count_append, signals]
    simp [overtaking]

/-- The main thread has yielded to another one, which has gone to sleep. -/
theorem waiter_overtaken_three_times : ∃ state : State Nat Nat, Run Step (boot 0 fun _ => 0#32)
        [.newThread 1, .fork 1, .yield, .p 7, .block 7, .dispatch] state ∧
      ∃ events final, Run (Overtakes 1 7) state events final ∧
        events.count (.v 7) = 3 ∧ final.Contended 1 7 := by
  obtain ⟨state, run, outside, other, alone, value, queue, nobody, waiting⟩ :=
    @exists_run_of_replay _ _ next Step (boot 0 fun _ => 0#32 : State Nat Nat)
      [.newThread 1, .fork 1, .yield, .p 7, .block 7, .dispatch]
      (fun state => state.control = .outside ∧ state.currentThread ≠ 1 ∧
        state.readyList = [] ∧ (state.semaphores 7).value = 0#32 ∧
        (state.semaphores 7).queue = [1] ∧ state.threadToBeDestroyed = none ∧
        state.resume 1 = .p 7) _ (fun _ _ _ => id) (by decide +kernel)
  have unavailable : state.semaphores 7 = ⟨0#32, [1]⟩ := by
    rw [← value, ← queue]
  exact ⟨state, run, waiter_overtaken_every_time
    ⟨outside, other, alone, unavailable, nobody, waiting⟩ 3⟩

end State

end Threads

end Nachos
