import Nachos.Threads.Lists

/-!
# Semaphores

`V` wakes the first thread of the queue and increments the value.  The woken
thread tests the value again when it runs, and another thread may have been
faster.  The value counts the operations, and as long as threads are in the
queue it is covered by woken threads which have not tested it yet.  All this
holds up to the largest value of an `int`, which `V` does not stop at.
-/

open Words Transition Function

namespace Nachos

namespace Threads

variable {τ κ : Type} [DecidableEq τ]

namespace State

theorem afterSwitch_fields (control : Control κ) (state : State τ κ) :
    (state.afterSwitch control).readyList = state.readyList ∧
      (state.afterSwitch control).resume = state.resume ∧
      (state.afterSwitch control).semaphores = state.semaphores ∧
      ((state.afterSwitch control).control = .crashed ∨
        (state.afterSwitch control).control = control) := by
  unfold afterSwitch
  split
  · exact ⟨rfl, rfl, rfl, .inr rfl⟩
  · split
    · exact ⟨rfl, rfl, rfl, .inl rfl⟩
    · exact ⟨rfl, rfl, rfl, .inr rfl⟩

/-- Where a thread is after it was dispatched. -/
def controlAt : ResumePoint κ → Control κ
  | .threadRoot => .outside
  | .yield => .outside
  | .p semaphore => .testing semaphore true
  | .finish => .crashed

theorem run_fields (state : State τ κ) (next : τ) (point : ResumePoint κ) :
    (state.run next point).readyList = state.readyList ∧
      (state.run next point).resume =
        update state.resume state.currentThread point ∧
      (state.run next point).semaphores = state.semaphores ∧
      ((state.run next point).control = .crashed ∨ (state.run next point).control = controlAt
          (update state.resume state.currentThread point next)) := by
  have place : (state.switch next point).resume next =
    update state.resume state.currentThread point next := rfl
  unfold run
  rw [← place]
  cases (state.switch next point).resume next with
  | threadRoot => exact ⟨rfl, rfl, rfl, .inr rfl⟩
  | yield | p _ | finish => exact afterSwitch_fields _ _

variable [DecidableEq κ]

/-- The threads of a list which are going to continue in `P`. -/
def heading (point : τ → ResumePoint κ) (semaphore : κ) (list : List τ) :
    Nat :=
  list.countP fun thread => point thread = .p semaphore

section

omit [DecidableEq τ]

theorem heading_cons (point : τ → ResumePoint κ) (semaphore : κ) (thread : τ) (list : List τ) :
    heading point semaphore (thread :: list) =
      heading point semaphore list + if point thread = .p semaphore then 1 else 0 := by
  simp [heading, List.countP_cons]

theorem heading_concat (point : τ → ResumePoint κ) (semaphore : κ) (list : List τ) (thread : τ) :
    heading point semaphore (list ++ [thread]) =
      heading point semaphore list + if point thread = .p semaphore then 1 else 0 := by
  simp [heading, List.countP_append, List.countP_singleton]

end

/-- Where a thread which is not on the list continues does not matter. -/
theorem heading_update {list : List τ} {thread : τ}
    (absent : thread ∉ list) (point : τ → ResumePoint κ)
    (place : ResumePoint κ) (semaphore : κ) :
    heading (update point thread place) semaphore list =
      heading point semaphore list := by
  refine List.countP_congr fun other member => ?_
  have apart : other ≠ thread := by
    rintro rfl
    exact absent member
  rw [update_of_ne apart]

/-- The threads which a `V` has woken and which have not tested the value
again. -/
def inFlight (state : State τ κ) (semaphore : κ) : Nat :=
  heading state.point semaphore state.readyList +
    if state.control = .testing semaphore true then 1 else 0

theorem inFlight_of_isRunning {state : State τ κ}
    (isRunning : state.control.IsRunning) (semaphore : κ) :
    state.inFlight semaphore =
      heading state.resume semaphore state.readyList +
        if state.control = .testing semaphore true then 1 else 0 := by
  unfold inFlight
  rw [point_of_isRunning isRunning]

theorem inFlight_run {state : State τ κ} {next : τ} {point : ResumePoint κ}
    (consistent : (state.run next point).Consistent) (semaphore : κ) :
    (state.run next point).inFlight semaphore =
      heading (update state.resume state.currentThread point)
        semaphore (next :: state.readyList) := by
  obtain ⟨readyList, resume, -, crashed | control⟩ :=
    run_fields state next point
  · exact absurd crashed consistent.sound
  · rw [heading_cons]
    cases place : update state.resume state.currentThread point next with
    | threadRoot | yield | p _ =>
      rw [place] at control
      rw [inFlight_of_isRunning (by rw [control]; trivial), readyList, resume, control]
      simp [controlAt]
    | finish =>
      rw [place] at control
      exact absurd control consistent.sound

/-- What a step does to one semaphore. -/
inductive SemaphoreEffect (semaphore : κ) (before after : State τ κ) :
    Event τ κ → Prop where
  | same {event : Event τ κ} :
      event ≠ .v semaphore → event ≠ .take semaphore →
      (after.semaphores semaphore).value =
        (before.semaphores semaphore).value →
      ((after.semaphores semaphore).queue =
          (before.semaphores semaphore).queue ∧
        before.inFlight semaphore = after.inFlight semaphore ∨
        (before.semaphores semaphore).value = 0#32) →
      SemaphoreEffect semaphore before after event
  | raised :
      (after.semaphores semaphore).value =
        (before.semaphores semaphore).value + 1 →
      ((after.semaphores semaphore).queue ≠ [] →
        (before.semaphores semaphore).queue ≠ [] ∧
        after.inFlight semaphore = before.inFlight semaphore + 1) →
      SemaphoreEffect semaphore before after (.v semaphore)
  | lowered :
      (before.semaphores semaphore).value ≠ 0#32 →
      (after.semaphores semaphore).value =
        (before.semaphores semaphore).value - 1 →
      (after.semaphores semaphore).queue =
        (before.semaphores semaphore).queue →
      before.inFlight semaphore ≤ after.inFlight semaphore + 1 →
      SemaphoreEffect semaphore before after (.take semaphore)

theorem Consistent.effect_v {state : State τ κ}
    (consistent : state.Consistent) (other semaphore : κ) :
    SemaphoreEffect semaphore state (state.v other) (.v other) := by
  unfold State.v
  cases queue : (state.semaphores other).queue with
  | nil =>
    by_cases here : other = semaphore
    · subst here
      refine .raised ?_ ?_
      · simp [setSemaphore]
      · simp [setSemaphore]
    · refine .same (by simp [here]) (by simp) ?_ (.inl ⟨?_, rfl⟩)
      · simp [setSemaphore, Ne.symm here]
      · simp [setSemaphore, Ne.symm here]
  | cons thread rest =>
    have member : thread ∈ (state.semaphores other).queue := by
      rw [queue]
      exact List.mem_cons_self
    have waits := (((consistent.lists.placed thread).queued other).mp member).2
    have flight : (((state.readyToRun thread).setSemaphore other
        ⟨(state.semaphores other).value + 1, rest⟩).inFlight semaphore) =
          state.inFlight semaphore + if other = semaphore then 1 else 0 := by
      change heading state.point semaphore (state.readyList ++ [thread]) + _ = _
      rw [heading_concat, waits, Nat.add_right_comm]
      simp only [ResumePoint.p.injEq]
      rfl
    by_cases here : other = semaphore
    · subst here
      refine .raised ?_ ?_
      · simp [setSemaphore]
      · intro _
        rw [flight, queue, if_pos rfl]
        exact ⟨List.cons_ne_nil _ _, rfl⟩
    · refine .same (by simp [here]) (by simp) ?_ (.inl ⟨?_, ?_⟩)
      · simp [setSemaphore, readyToRun, Ne.symm here]
      · simp [setSemaphore, readyToRun, Ne.symm here]
      · rw [flight, if_neg here]
        rfl

theorem Consistent.effect {before after : State τ κ} {event : Event τ κ}
    (consistent : before.Consistent) (step : Step before event after)
    (semaphore : κ) : SemaphoreEffect semaphore before after event := by
  have lists := consistent.lists
  have consistentAfter := consistent.step step
  cases step.moves with
  | newThread outside absent | stay outside empty =>
    exact .same (by simp) (by simp) rfl (.inl ⟨rfl, rfl⟩)
  | @fork thread outside created =>
    have absent : thread ∉ before.readyList := lists.notMem_ready (by
      rw [created]
      exact ⟨by simp, by simp⟩)
    refine .same (by simp) (by simp) rfl (.inl ⟨rfl, ?_⟩)
    have running : (before.fork thread).control.IsRunning :=
      isRunning_of_outside outside
    rw [inFlight_of_isRunning (isRunning_of_outside outside), inFlight_of_isRunning running]
    change _ = heading (update before.resume thread .threadRoot)
      semaphore (before.readyList ++ [thread]) + _
    rw [heading_concat, heading_update absent, update_self]
    rfl
  | @yield next rest outside shape =>
    have absent := lists.notMem_ready (consistent.free (isRunning_of_outside outside))
    obtain ⟨-, -, semaphores, -⟩ := run_fields
      ({ before with readyList := rest }.readyToRun before.currentThread)
      next .yield
    refine .same (by simp) (by simp) (by rw [semaphores]; rfl) (.inl ⟨by rw [semaphores]; rfl, ?_⟩)
    rw [inFlight_run consistentAfter,
      inFlight_of_isRunning (isRunning_of_outside outside), outside, shape]
    change _ = heading (update before.resume before.currentThread
      .yield) semaphore ((next :: rest) ++ [before.currentThread])
    rw [heading_concat, heading_update (by rw [← shape]; exact absent), update_self]
    rfl
  | @p other outside =>
    have running : ({ before with
        control := .testing other false } : State τ κ).control.IsRunning :=
      trivial
    refine .same (by simp) (by simp) rfl (.inl ⟨rfl, ?_⟩)
    rw [inFlight_of_isRunning (isRunning_of_outside outside), outside,
      inFlight_of_isRunning running]
    simp
  | @take other woken place available =>
    have isRunning := isRunning_of_testing place
    have running : (before.take other).control.IsRunning := trivial
    have flight : before.inFlight semaphore =
        (before.take other).inFlight semaphore +
          if before.control = .testing semaphore true then 1 else 0 := by
      rw [inFlight_of_isRunning isRunning, inFlight_of_isRunning running]
      rfl
    by_cases here : other = semaphore
    · subst here
      refine .lowered available ?_ ?_ ?_
      · simp [State.take, setSemaphore]
      · simp [State.take, setSemaphore]
      · rw [flight]
        split <;> omega
    · refine .same (by simp) (by simp [here]) ?_ (.inl ⟨?_, ?_⟩)
      · simp [State.take, setSemaphore, Ne.symm here]
      · simp [State.take, setSemaphore, Ne.symm here]
      · rw [flight, place]
        simp [here]
  | @block other woken place unavailable =>
    have isRunning := isRunning_of_testing place
    by_cases here : other = semaphore
    · subst here
      refine .same (by simp) (by simp) ?_ (.inr unavailable)
      simp [State.block, State.sleep, setSemaphore]
    · refine .same (by simp) (by simp) ?_ (.inl ⟨?_, ?_⟩)
      · simp [State.block, State.sleep, setSemaphore, Ne.symm here]
      · simp [State.block, State.sleep, setSemaphore, Ne.symm here]
      · rw [inFlight_of_isRunning isRunning, place]
        change _ = heading (update before.resume
          before.currentThread (.p other)) semaphore before.readyList + _
        rw [heading_update (lists.notMem_ready (consistent.free isRunning))]
        simp [here, State.block, State.sleep]
  | @v other place => exact consistent.effect_v other semaphore
  | finish outside =>
    have absent := lists.notMem_ready (consistent.free (isRunning_of_outside outside))
    refine .same (by simp) (by simp) rfl (.inl ⟨rfl, ?_⟩)
    rw [inFlight_of_isRunning (isRunning_of_outside outside), outside]
    change _ = heading (update before.resume before.currentThread
      .finish) semaphore before.readyList + _
    rw [heading_update absent]
    rfl
  | @idle point place empty | @wake point place =>
    refine .same (by simp) (by simp) rfl (.inl ⟨rfl, ?_⟩)
    simp [inFlight, State.point, place]
  | @dispatch point next rest place shape =>
    obtain ⟨-, -, semaphores, -⟩ := run_fields { before with readyList := rest } next point
    refine .same (by simp) (by simp) (by rw [semaphores]) (.inl ⟨by rw [semaphores], ?_⟩)
    rw [inFlight_run consistentAfter]
    simp [inFlight, State.point, place, shape]

/-- A step with no `V` on a semaphore of the largest value. -/
def BoundedStep (semaphore : κ) (before : State τ κ) (event : Event τ κ)
    (after : State τ κ) : Prop :=
  Step before event after ∧
    (event = .v semaphore → (before.semaphores semaphore).value ≠ 2147483647#32)

/-- The value counts the operations, and woken threads cover it. -/
structure Balanced (semaphore : κ) (initialValue : Int)
    (events : List (Event τ κ)) (state : State τ κ) : Prop where
  consistent : state.Consistent
  value : (state.semaphores semaphore).value.toInt =
    initialValue + events.count (.v semaphore) - events.count (.take semaphore)
  nonnegative : 0 ≤ (state.semaphores semaphore).value.toInt
  covered : (state.semaphores semaphore).queue ≠ [] →
    (state.semaphores semaphore).value.toInt ≤ state.inFlight semaphore

theorem Balanced.step {semaphore : κ} {initialValue : Int}
    {events : List (Event τ κ)} {before after : State τ κ}
    {event : Event τ κ}
    (balanced : Balanced semaphore initialValue events before)
    (taken : BoundedStep semaphore before event after) :
    Balanced semaphore initialValue (events ++ [event]) after := by
  obtain ⟨step, bounded⟩ := taken
  have value := balanced.value
  have nonnegative := balanced.nonnegative
  have covered := balanced.covered
  have consistent := balanced.consistent.step step
  cases balanced.consistent.effect step semaphore with
  | same noV noTake sameValue others =>
    refine ⟨consistent, ?_, ?_, fun nonempty => ?_⟩
    · rw [sameValue, List.count_append, List.count_append,
        List.count_singleton, List.count_singleton, if_neg (by simpa),
        if_neg (by simpa)]
      exact value
    · rw [sameValue]
      exact nonnegative
    · rw [sameValue]
      rcases others with ⟨queue, flight⟩ | zero
      · rw [← flight]
        rw [queue] at nonempty
        exact covered nonempty
      · rw [zero]
        exact Int.natCast_nonneg _
  | raised raised woken =>
    have up := toInt_add_one nonnegative (bounded rfl)
    rw [← raised] at up
    refine ⟨consistent, ?_, by omega, fun nonempty => ?_⟩
    · rw [up, value, List.count_append, List.count_append,
        List.count_singleton_self, List.count_singleton,
        if_neg (by simp)]
      omega
    · obtain ⟨waiting, flight⟩ := woken nonempty
      have before := covered waiting
      omega
  | lowered available lowered queue flight =>
    have down := toInt_sub_one nonnegative available
    rw [← lowered] at down
    have positive : (before.semaphores semaphore).value.toInt ≠ 0 :=
      fun zero => available (BitVec.eq_of_toInt_eq zero)
    refine ⟨consistent, ?_, by omega, fun nonempty => ?_⟩
    · rw [down, value, List.count_append, List.count_append,
        List.count_singleton_self, List.count_singleton,
        if_neg (by simp)]
      omega
    · rw [queue] at nonempty
      have before := covered nonempty
      omega

/-- In every run without a `V` on the largest value, the value counts the
operations, it is never negative, and as long as threads wait it is covered
by threads which have been woken and not tested it yet. -/
theorem semaphore_balanced {main : τ} {initialValue : κ → Word}
    {events : List (Event τ κ)} {state : State τ κ} {semaphore : κ}
    (initially : 0 ≤ (initialValue semaphore).toInt)
    (run : Run (BoundedStep semaphore) (boot main initialValue) events state) :
    (state.semaphores semaphore).value.toInt =
        (initialValue semaphore).toInt + events.count (.v semaphore) -
          events.count (.take semaphore) ∧
      0 ≤ (state.semaphores semaphore).value.toInt ∧
      ((state.semaphores semaphore).queue ≠ [] →
        (state.semaphores semaphore).value.toInt ≤ state.inFlight semaphore) := by
  have balanced := run.history (Balanced semaphore (initialValue semaphore).toInt)
    ⟨consistent_boot main initialValue, by simp [boot], initially,
      fun waiting => absurd rfl waiting⟩
    fun _ _ _ _ balanced taken => balanced.step taken
  exact ⟨balanced.value, balanced.nonnegative, balanced.covered⟩

def tryBounded (semaphore : κ) (before : State τ κ) (event : Event τ κ) : Option (State τ κ) :=
  if event = .v semaphore → (before.semaphores semaphore).value ≠ 2147483647#32 then
    before.next event
  else none

theorem boundedStep_of_tryBounded (semaphore : κ) (before : State τ κ)
    (event : Event τ κ) (after : State τ κ)
    (tried : tryBounded semaphore before event = some after) :
    BoundedStep semaphore before event after := by
  unfold tryBounded at tried
  split_ifs at tried with bounded
  exact ⟨tried, bounded⟩

/-- The main thread waits until another one wakes it. -/
theorem semaphore_balanced_after_wake :
    ∃ state : State Nat Nat, Run (BoundedStep 7) (boot 0 fun _ => 0#32)
        [.newThread 1, .fork 1, .p 7, .block 7, .dispatch, .v 7, .yield]
        state ∧
      state.control = .testing 7 true ∧
      (state.semaphores 7).value.toInt = 0 + 1 - 0 := by
  have woken : ∃ state : State Nat Nat, Run (BoundedStep 7) (boot 0 fun _ => 0#32)
        [.newThread 1, .fork 1, .p 7, .block 7, .dispatch, .v 7, .yield]
        state ∧ state.control = .testing 7 true :=
    exists_run_of_replay (boundedStep_of_tryBounded 7) (by decide +kernel)
  obtain ⟨state, run, control⟩ := woken
  exact ⟨state, run, control, (semaphore_balanced (by decide) run).1⟩

/-- A `V` on the largest value makes the value negative. -/
theorem v_overflows_largest_value :
    0 ≤ (2147483647#32 : Word).toInt ∧
    ∃ state : State Nat Nat, Run Step (boot 0 fun _ => 2147483647#32)
        [.v 7] state ∧ (state.semaphores 7).value.toInt = -2147483648 :=
  ⟨by decide, exists_run_of_replay (fun _ _ _ => id) (by decide +kernel)⟩

end State

end Threads

end Nachos
