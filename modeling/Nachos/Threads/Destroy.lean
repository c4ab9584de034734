import Nachos.Threads.Synch

/-!
# Destroying finished threads

A thread which finishes leaves itself in `threadToBeDestroyed`, and the next
thread destroys it behind the call of `SWITCH` in `Scheduler::Run`.  A thread
which runs for the first time does not pass there.  It starts with the
finished thread still waiting to be destroyed, and when it finishes itself,
it overwrites it.  As long as a finishing thread is followed by one which has
run before, every finished thread is destroyed at once.
-/

open Words Transition Function

namespace Nachos

namespace Threads

variable {τ κ : Type} [DecidableEq τ]

/-- The current thread is in the `Sleep` of `Finish`. -/
def Control.isFinishing : Control κ → Bool
  | .sleeping .finish => true
  | .idling .finish => true
  | _ => false

namespace State

/-- There is a finished thread just while it has not given up the
processor. -/
structure Cleared (state : State τ κ) : Prop where
  consistent : state.Consistent
  carcass : state.threadToBeDestroyed =
    if state.control.isFinishing then some state.currentThread else none
  finished : ∀ thread, state.status thread = some .blocked →
    state.point thread = .finish → state.threadToBeDestroyed = some thread

variable {state : State τ κ}

theorem Cleared.none_of_isRunning (cleared : state.Cleared) (isRunning : state.control.IsRunning) :
    state.threadToBeDestroyed = none := by
  rw [cleared.carcass]
  cases place : state.control with
  | outside | testing _ _ | crashed => rfl
  | sleeping _ | idling _ =>
    rw [place] at isRunning
    exact isRunning.elim

theorem Cleared.not_finished (cleared : state.Cleared)
    (isRunning : state.control.IsRunning) (thread : τ)
    (blocked : state.status thread = some .blocked) :
    state.resume thread ≠ .finish := by
  intro finished
  rw [← point_of_isRunning isRunning] at finished
  have held := cleared.finished thread blocked finished
  rw [cleared.none_of_isRunning isRunning] at held
  cases held

theorem Cleared.of_isRunning (consistent : state.Consistent) (isRunning : state.control.IsRunning)
    (nothing : state.threadToBeDestroyed = none)
    (unfinished : ∀ thread, state.status thread = some .blocked →
      state.resume thread ≠ .finish) : state.Cleared where
  consistent := consistent
  carcass := by
    rw [nothing]
    cases place : state.control with
    | outside | testing _ _ | crashed => rfl
    | sleeping _ | idling _ =>
      rw [place] at isRunning
      exact isRunning.elim
  finished thread blocked finished := by
    rw [point_of_isRunning isRunning] at finished
    exact absurd finished (unfinished thread blocked)

theorem cleared_boot (main : τ) (initialValue : κ → Word) : (boot main initialValue).Cleared := by
  refine .of_isRunning (consistent_boot main initialValue) trivial rfl ?_
  exact fun _ _ => nofun

theorem afterSwitch_of_none {control : Control κ} (nothing : state.threadToBeDestroyed = none) :
    state.afterSwitch control = { state with control := control } := by
  unfold afterSwitch
  rw [nothing]

theorem afterSwitch_of_some {control : Control κ} {thread : τ}
    (held : state.threadToBeDestroyed = some thread)
    (other : thread ≠ state.currentThread) :
    state.afterSwitch control = { state with
      status := update state.status thread none
      threadToBeDestroyed := none
      control := control } := by
  unfold afterSwitch
  rw [held]
  exact if_neg other

variable {next : τ} {point : ResumePoint κ}

theorem run_of_none (nothing : state.threadToBeDestroyed = none) :
    state.run next point = { state.switch next point with
      control := controlAt ((state.switch next point).resume next) } := by
  have still : (state.switch next point).threadToBeDestroyed = none :=
    nothing
  unfold run
  cases (state.switch next point).resume next with
  | threadRoot => rfl
  | yield | p _ | finish => exact afterSwitch_of_none still

theorem run_of_some {thread : τ}
    (held : state.threadToBeDestroyed = some thread) (other : thread ≠ next)
    (hasRun : (state.switch next point).resume next ≠ .threadRoot) :
    state.run next point = { state.switch next point with
      status := update (state.switch next point).status thread none
      threadToBeDestroyed := none
      control := controlAt ((state.switch next point).resume next) } := by
  have still : (state.switch next point).threadToBeDestroyed = some thread :=
    held
  unfold run
  cases place : (state.switch next point).resume next with
  | threadRoot => exact absurd place hasRun
  | yield | p _ | finish => exact afterSwitch_of_some still other

theorem controlAt_isRunning (sound : controlAt point ≠ .crashed) : (controlAt point).IsRunning := by
  cases point with
  | threadRoot | yield | p _ => trivial
  | finish => exact absurd rfl sound

theorem Cleared.run_of_none (nothing : state.threadToBeDestroyed = none)
    (consistent : (state.run next point).Consistent)
    (unfinished : ∀ thread, state.status thread = some .blocked →
      update state.resume state.currentThread point thread ≠ .finish) :
    (state.run next point).Cleared := by
  rw [State.run_of_none nothing] at consistent ⊢
  refine .of_isRunning consistent (controlAt_isRunning consistent.sound)
    nothing fun thread blocked => ?_
  exact unfinished thread (of_update_eq blocked nofun).2

theorem Cleared.run_of_some {carcass : τ}
    (held : state.threadToBeDestroyed = some carcass) (other : carcass ≠ next)
    (hasRun : update state.resume state.currentThread point next ≠
      .threadRoot) (consistent : (state.run next point).Consistent)
    (unfinished : ∀ thread, thread ≠ carcass →
      state.status thread = some .blocked →
      update state.resume state.currentThread point thread ≠ .finish) :
    (state.run next point).Cleared := by
  rw [State.run_of_some held other hasRun] at consistent ⊢
  refine .of_isRunning consistent (controlAt_isRunning consistent.sound)
    rfl fun thread blocked => ?_
  obtain ⟨apart, blocked⟩ := of_update_eq blocked nofun
  exact unfinished thread apart (of_update_eq blocked nofun).2

/-- The other threads are not finished when the current one goes to
sleep. -/
theorem Cleared.sleep_unfinished (cleared : state.Cleared)
    (isRunning : state.control.IsRunning) {thread : τ}
    (apart : thread ≠ state.currentThread)
    (blocked : update state.status state.currentThread (some .blocked) thread = some .blocked) :
    update state.resume state.currentThread point thread ≠
      .finish := by
  rw [update_of_ne apart] at blocked ⊢
  exact cleared.not_finished isRunning thread blocked

/-- A finishing thread does not follow itself. -/
theorem Cleared.finishing {rest : List τ} (cleared : state.Cleared)
    (place : state.control = .sleeping .finish)
    (shape : state.readyList = next :: rest) :
    state.threadToBeDestroyed = some state.currentThread ∧ state.currentThread ≠ next := by
  have placed := cleared.consistent.lists.placed
  have held := cleared.carcass
  rw [place] at held
  refine ⟨held, fun same => ?_⟩
  have blocked := ((placed state.currentThread).finished held).1
  have isReady : state.status next = some .ready :=
    (placed next).ready.mp (by
      rw [shape]
      exact List.mem_cons_self)
  rw [same, isReady] at blocked
  cases blocked

variable [DecidableEq κ]

/-- A finishing thread is followed by one which has run before. -/
def GentleStep (before : State τ κ) (event : Event τ κ) (after : State τ κ) : Prop :=
  Step before event after ∧
    (event = .dispatch → before.control = .sleeping .finish →
      ∀ next ∈ before.readyList.head?, before.resume next ≠ .threadRoot)

theorem Cleared.v (cleared : state.Cleared) (semaphore : κ) : (state.v semaphore).Cleared := by
  have consistent := cleared.consistent.v semaphore
  unfold State.v at consistent ⊢
  cases queue : (state.semaphores semaphore).queue with
  | nil =>
    rw [queue] at consistent
    exact ⟨consistent, cleared.carcass, cleared.finished⟩
  | cons thread rest =>
    rw [queue] at consistent
    refine ⟨consistent, cleared.carcass, fun other blocked => ?_⟩
    exact cleared.finished other (of_update_eq blocked nofun).2

/-- A finished thread is destroyed when it gives up the processor. -/
theorem Cleared.dispatch {rest : List τ} (cleared : state.Cleared)
    (place : state.control = .sleeping point)
    (shape : state.readyList = next :: rest)
    (consistent : ({ state with readyList := rest }.run next point).Consistent)
    (gentle : point = .finish → state.resume next ≠ .threadRoot) :
    ({ state with readyList := rest }.run next point).Cleared := by
  have carcass := cleared.carcass
  have finished := cleared.finished
  rw [place] at carcass
  simp only [State.point, place] at finished
  by_cases finishing : point = .finish
  · subst finishing
    obtain ⟨held, apart⟩ := cleared.finishing place shape
    refine .run_of_some held apart ?_ consistent fun thread other stays => ?_
    · rw [update_of_ne apart.symm]
      exact gentle rfl
    · intro ends
      have same := finished thread stays ends
      rw [held] at same
      exact other (Option.some.inj same).symm
  · have nothing : state.threadToBeDestroyed = none := by
      rw [carcass]
      cases point with
      | finish => exact absurd rfl finishing
      | threadRoot | yield | p _ => rfl
    refine .run_of_none nothing consistent fun thread stays ends => ?_
    have same := finished thread stays ends
    rw [nothing] at same
    cases same

theorem Cleared.step {before after : State τ κ} {event : Event τ κ}
    (cleared : before.Cleared) (taken : GentleStep before event after) :
    after.Cleared := by
  obtain ⟨step, gentle⟩ := taken
  have consistent := cleared.consistent.step step
  cases step.moves with
  | @newThread created outside absent =>
    have isRunning := isRunning_of_outside outside
    refine .of_isRunning consistent isRunning
      (cleared.none_of_isRunning isRunning) fun thread blocked => ?_
    exact cleared.not_finished isRunning thread (of_update_eq blocked nofun).2
  | @fork forked outside created =>
    have isRunning := isRunning_of_outside outside
    refine .of_isRunning consistent isRunning
      (cleared.none_of_isRunning isRunning) fun thread blocked => ?_
    obtain ⟨apart, blocked⟩ := of_update_eq blocked nofun
    have unfinished := cleared.not_finished isRunning thread blocked
    rw [← update_of_ne apart .threadRoot before.resume] at unfinished
    exact unfinished
  | stay outside empty => exact cleared
  | yield outside shape =>
    have isRunning := isRunning_of_outside outside
    refine .run_of_none (cleared.none_of_isRunning isRunning) consistent fun thread blocked => ?_
    obtain ⟨apart, blocked⟩ := of_update_eq blocked nofun
    have unfinished := cleared.not_finished isRunning thread blocked
    rw [← update_of_ne apart .yield before.resume] at unfinished
    exact unfinished
  | p outside =>
    have isRunning := isRunning_of_outside outside
    exact .of_isRunning consistent trivial (cleared.none_of_isRunning isRunning)
      (cleared.not_finished isRunning)
  | take place available =>
    have isRunning := isRunning_of_testing place
    exact .of_isRunning consistent trivial (cleared.none_of_isRunning isRunning)
      (cleared.not_finished isRunning)
  | @block semaphore woken place unavailable =>
    have isRunning := isRunning_of_testing place
    refine ⟨consistent, cleared.none_of_isRunning isRunning, fun thread blocked finished => ?_⟩
    by_cases here : thread = before.currentThread
    · subst here
      cases (update_self ..).symm.trans finished
    · exact absurd finished (cleared.sleep_unfinished isRunning here blocked)
  | v place => exact cleared.v _
  | finish outside =>
    have isRunning := isRunning_of_outside outside
    refine ⟨consistent, rfl, fun thread blocked finished => ?_⟩
    by_cases here : thread = before.currentThread
    · exact congrArg some here.symm
    · exact absurd finished (cleared.sleep_unfinished isRunning here blocked)
  | @idle point place empty | @wake point place =>
    have carcass := cleared.carcass
    have finished := cleared.finished
    simp only [State.point, place] at carcass finished
    exact ⟨consistent, by cases point <;> exact carcass, finished⟩
  | @dispatch point next rest place shape =>
    refine cleared.dispatch place shape consistent fun finishing => ?_
    refine gentle rfl (by rw [place, finishing]) next ?_
    rw [shape]
    rfl

/-- In every run in which a finishing thread is followed by one which has
run before, `threadToBeDestroyed` is `NULL` when a thread calls `Finish`, no
finished thread is left when it has given up the processor, and the next
thread destroys it. -/
theorem finished_threads_destroyed {main : τ} {initialValue : κ → Word}
    {events : List (Event τ κ)} {state : State τ κ}
    (run : Run GentleStep (boot main initialValue) events state) :
    (∀ after, Step state .finish after →
      state.threadToBeDestroyed = none) ∧
    (∀ thread, state.Finished thread →
      thread = state.currentThread ∧ state.control.isFinishing = true) ∧
    ∀ after, GentleStep state .dispatch after →
      state.control = .sleeping .finish →
      after.status state.currentThread = none ∧ after.threadToBeDestroyed = none := by
  have cleared := run.history (fun _ => Cleared) (cleared_boot main initialValue)
    fun _ _ _ _ cleared taken => cleared.step taken
  refine ⟨fun after step => ?_, fun thread finished => ?_, fun after taken finishing => ?_⟩
  · cases step.moves with
    | finish outside =>
      refine cleared.none_of_isRunning ?_
      rw [outside]
      trivial
  · have held := cleared.finished thread finished.1 finished.2
    rw [cleared.carcass] at held
    split at held
    · rename_i isFinishing
      exact ⟨(Option.some.inj held).symm, isFinishing⟩
    · cases held
  · obtain ⟨step, gentle⟩ := taken
    cases step.moves with
    | @dispatch point next rest place shape =>
      rw [finishing] at place
      cases place
      obtain ⟨held, apart⟩ := cleared.finishing finishing shape
      have hasRun := gentle rfl finishing next (by
        rw [shape]
        rfl)
      rw [← update_of_ne apart.symm .finish state.resume] at hasRun
      have still : ({ state with readyList := rest } :
          State τ κ).threadToBeDestroyed = some state.currentThread := held
      rw [State.run_of_some still apart hasRun]
      exact ⟨update_self .., rfl⟩

def tryGentle (before : State τ κ) (event : Event τ κ) : Option (State τ κ) :=
  if event = .dispatch → before.control = .sleeping .finish →
      ∀ next ∈ before.readyList.head?, before.resume next ≠ .threadRoot then
    before.next event
  else none

theorem gentleStep_of_tryGentle (before : State τ κ) (event : Event τ κ)
    (after : State τ κ) (tried : tryGentle before event = some after) :
    GentleStep before event after := by
  unfold tryGentle at tried
  split_ifs at tried with gentle
  exact ⟨tried, gentle⟩

/-- A thread finishes when the main thread has yielded to it. -/
theorem finished_threads_destroyed_after_yield :
    ∃ state after : State Nat Nat, Run GentleStep (boot 0 fun _ => 0#32)
        [.newThread 1, .fork 1, .yield, .finish] state ∧
      GentleStep state .dispatch after ∧
      after.status state.currentThread = none := by
  have finished : ∃ state : State Nat Nat, Run GentleStep (boot 0 fun _ => 0#32)
        [.newThread 1, .fork 1, .yield, .finish] state ∧
      state.control = .sleeping .finish ∧
      (tryGentle state .dispatch).isSome :=
    exists_run_of_replay gentleStep_of_tryGentle (by decide +kernel)
  obtain ⟨state, run, control, tried⟩ := finished
  obtain ⟨after, tried⟩ := Option.isSome_iff_exists.mp tried
  have step := gentleStep_of_tryGentle _ _ _ tried
  exact ⟨state, after, run, step, ((finished_threads_destroyed run).2.2 after step control).1⟩

/-- Thread 2 runs for the first time after thread 1 has finished, and
finishes while thread 1 waits to be destroyed. -/
theorem second_finish_overwrites_first :
    ∃ state after : State Nat Nat, Run Step (boot 0 fun _ => 0#32)
        [.newThread 1, .fork 1, .newThread 2, .fork 2, .p 7, .block 7,
          .dispatch, .finish, .dispatch] state ∧
      state.threadToBeDestroyed = some 1 ∧ Step state .finish after ∧
      after.threadToBeDestroyed = some 2 ∧
      after.status 1 = some .blocked := by
  have finished : ∃ state : State Nat Nat, Run Step (boot 0 fun _ => 0#32)
      [.newThread 1, .fork 1, .newThread 2, .fork 2, .p 7, .block 7,
        .dispatch, .finish, .dispatch] state ∧
      state.control = .outside ∧ state.currentThread = 2 ∧
      state.threadToBeDestroyed = some 1 ∧
      state.status 1 = some .blocked :=
    exists_run_of_replay (fun _ _ _ => id) (by decide +kernel)
  obtain ⟨state, run, outside, current, held, blocked⟩ := finished
  refine ⟨state, state.finish, run, held, if_pos outside, ?_, ?_⟩
  · exact congrArg some current
  · change update state.status state.currentThread (some .blocked) 1 = _
    rw [current, update_of_ne (by decide)]
    exact blocked

end State

end Threads

end Nachos
