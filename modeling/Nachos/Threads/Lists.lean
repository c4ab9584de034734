import Nachos.Lib.Update
import Nachos.Threads.Scheduler

/-!
# Every thread on its list

A ready thread is on the ready list once, a blocked thread is in the queue
of the semaphore it waits for once, and a thread of another status is on no
list.  The operations move one thread at a time, so every move is a lemma
about one thread, and what an operation does is a sequence of moves.
-/

open Words Transition Function

namespace Nachos

namespace Threads

variable {τ κ : Type}

/-- One thread is on the lists where its status and the place where it is
going to continue say. -/
structure Placed (status : Option ThreadStatus) (point : ResumePoint κ)
    (inReady : Prop) (inQueue : κ → Prop) (isCarcass : Prop) : Prop where
  ready : inReady ↔ status = some .ready
  queued : ∀ semaphore, inQueue semaphore ↔ status = some .blocked ∧ point = .p semaphore
  readyPoint : status = some .ready → point ≠ .finish
  blockedPoint : status = some .blocked → point = .finish ∨ ∃ semaphore, point = .p semaphore
  finished : isCarcass → status = some .blocked ∧ point = .finish

structure Lists (status : τ → Option ThreadStatus) (readyList : List τ)
    (semaphores : κ → Semaphore τ) (carcass : Option τ)
    (point : τ → ResumePoint κ) : Prop where
  readyNodup : readyList.Nodup
  queueNodup : ∀ semaphore, (semaphores semaphore).queue.Nodup
  placed : ∀ thread, Placed (status thread) (point thread) (thread ∈ readyList)
    (fun semaphore => thread ∈ (semaphores semaphore).queue)
    (carcass = some thread)

/-- Neither ready nor blocked. -/
def Free (status : Option ThreadStatus) : Prop :=
  status ≠ some .ready ∧ status ≠ some .blocked

theorem Placed.of_free {status : Option ThreadStatus}
    {point : ResumePoint κ} {inReady isCarcass : Prop} {inQueue : κ → Prop}
    (free : Free status) (notReady : ¬inReady)
    (notQueued : ∀ semaphore, ¬inQueue semaphore) (alive : ¬isCarcass) :
    Placed status point inReady inQueue isCarcass where
  ready := iff_of_false notReady free.1
  queued semaphore := iff_of_false (notQueued semaphore) fun both =>
    free.2 both.1
  readyPoint ready := absurd ready free.1
  blockedPoint blocked := absurd blocked free.2
  finished carcass := absurd carcass alive

namespace Lists

variable {status : τ → Option ThreadStatus} {readyList : List τ}
  {semaphores : κ → Semaphore τ} {carcass : Option τ}
  {point : τ → ResumePoint κ} {thread : τ}

section

variable (lists : Lists status readyList semaphores carcass point)
include lists

theorem notMem_ready (free : Free (status thread)) : thread ∉ readyList :=
  fun member => free.1 ((lists.placed thread).ready.mp member)

theorem notMem_queue (free : Free (status thread)) (semaphore : κ) :
    thread ∉ (semaphores semaphore).queue :=
  fun member => free.2 (((lists.placed thread).queued semaphore).mp member).1

theorem ne_carcass (free : Free (status thread)) : carcass ≠ some thread :=
  fun held => free.2 ((lists.placed thread).finished held).1

/-- Values of semaphores do not matter. -/
theorem sameQueues {changed : κ → Semaphore τ}
    (same : ∀ semaphore, (changed semaphore).queue = (semaphores semaphore).queue) :
    Lists status readyList changed carcass point := by
  refine ⟨lists.readyNodup, fun semaphore => ?_, fun thread => ?_⟩
  · rw [same]
    exact lists.queueNodup semaphore
  · simp only [same]
    exact lists.placed thread

variable [DecidableEq τ]

theorem move (thread : τ) {now : Option ThreadStatus} {readyList' : List τ}
    {semaphores' : κ → Semaphore τ} {carcass' : Option τ}
    (readyNodup : readyList'.Nodup)
    (queueNodup : ∀ semaphore, (semaphores' semaphore).queue.Nodup)
    (sameReady : ∀ other, other ≠ thread → (other ∈ readyList' ↔ other ∈ readyList))
    (sameQueue : ∀ other, other ≠ thread → ∀ semaphore,
      (other ∈ (semaphores' semaphore).queue ↔ other ∈ (semaphores semaphore).queue))
    (sameCarcass : ∀ other, other ≠ thread → carcass' = some other → carcass = some other)
    (placed : Placed now (point thread) (thread ∈ readyList')
      (fun semaphore => thread ∈ (semaphores' semaphore).queue)
      (carcass' = some thread)) :
    Lists (update status thread now) readyList' semaphores' carcass' point := by
  refine ⟨readyNodup, queueNodup, update_cases placed fun other here => ?_⟩
  have before := lists.placed other
  exact ⟨(sameReady other here).trans before.ready,
    fun semaphore => (sameQueue other here semaphore).trans (before.queued semaphore),
    before.readyPoint, before.blockedPoint,
    fun held => before.finished (sameCarcass other here held)⟩

theorem setFree (free : Free (status thread))
    {changed : Option ThreadStatus} (stillFree : Free changed) :
    Lists (update status thread changed) readyList semaphores
      carcass point :=
  lists.move thread lists.readyNodup lists.queueNodup
    (fun _ _ => Iff.rfl) (fun _ _ _ => Iff.rfl) (fun _ _ => id)
    (.of_free stillFree (lists.notMem_ready free) (lists.notMem_queue free) (lists.ne_carcass free))

theorem setPoint (free : Free (status thread)) (place : ResumePoint κ) :
    Lists status readyList semaphores carcass (update point thread place) :=
  ⟨lists.readyNodup, lists.queueNodup, update_cases
    (.of_free free (lists.notMem_ready free) (lists.notMem_queue free) (lists.ne_carcass free))
    fun other _ => lists.placed other⟩

theorem toReady (free : Free (status thread)) (goesOn : point thread ≠ .finish) :
    Lists (update status thread (some .ready))
      (readyList ++ [thread]) semaphores carcass point := by
  refine lists.move thread ?_ lists.queueNodup (fun _ apart => by simp [apart])
    (fun _ _ _ => Iff.rfl) (fun _ _ => id) ?_
  · rw [← List.concat_eq_append, List.nodup_concat]
    exact ⟨lists.notMem_ready free, lists.readyNodup⟩
  · exact ⟨by simp, fun semaphore =>
      iff_of_false (lists.notMem_queue free semaphore) (by simp),
      fun _ => goesOn, nofun,
      fun held => absurd held (lists.ne_carcass free)⟩

theorem toRunning {next : τ} {rest : List τ} (head : readyList = next :: rest) :
    Lists (update status next (some .running)) rest semaphores
      carcass point := by
  subst head
  have isReady : status next = some .ready :=
    (lists.placed next).ready.mp List.mem_cons_self
  have placed := lists.placed next
  refine lists.move next lists.readyNodup.of_cons lists.queueNodup
    (fun _ apart => by simp [apart]) (fun _ _ _ => Iff.rfl) (fun _ _ => id) ?_
  refine .of_free ⟨nofun, nofun⟩ (List.nodup_cons.mp lists.readyNodup).1
    (fun semaphore member => ?_) (fun held => ?_)
  · have blocked := ((placed.queued semaphore).mp member).1
    rw [isReady] at blocked
    cases blocked
  · have blocked := (placed.finished held).1
    rw [isReady] at blocked
    cases blocked

theorem destroy (held : carcass = some thread) :
    Lists (update status thread none) readyList semaphores none
      point := by
  have placed := lists.placed thread
  obtain ⟨blocked, finished⟩ := placed.finished held
  refine lists.move thread lists.readyNodup lists.queueNodup
    (fun _ _ => Iff.rfl) (fun _ _ _ => Iff.rfl) (fun _ _ => nofun) ?_
  refine .of_free ⟨nofun, nofun⟩ (fun member => ?_) (fun semaphore member => ?_) nofun
  · have ready := placed.ready.mp member
    rw [blocked] at ready
    cases ready
  · have waits := ((placed.queued semaphore).mp member).2
    rw [finished] at waits
    cases waits

theorem toFinished (free : Free (status thread)) (finished : point thread = .finish) :
    Lists (update status thread (some .blocked)) readyList semaphores (some thread) point := by
  refine lists.move thread lists.readyNodup lists.queueNodup
    (fun _ _ => Iff.rfl) (fun _ _ _ => Iff.rfl)
    (fun _ apart held => absurd (Option.some.inj held).symm apart) ?_
  exact ⟨iff_of_false (lists.notMem_ready free) nofun,
    fun semaphore => iff_of_false (lists.notMem_queue free semaphore)
      (by simp [finished]), nofun, fun _ => .inl finished,
    fun _ => ⟨rfl, finished⟩⟩

variable [DecidableEq κ]

theorem toQueue (free : Free (status thread)) {semaphore : κ}
    (waits : point thread = .p semaphore) (value : Word) :
    Lists (update status thread (some .blocked)) readyList (update semaphores semaphore
        ⟨value, (semaphores semaphore).queue ++ [thread]⟩)
      carcass point := by
  refine lists.move thread lists.readyNodup
    (update_cases ?_ fun other _ => lists.queueNodup other) (fun _ _ => Iff.rfl)
    (fun _ apart => update_cases (by simp [apart]) fun _ _ => Iff.rfl) (fun _ _ => id) ?_
  · refine ⟨iff_of_false (lists.notMem_ready free) nofun,
      update_cases (by simp [waits]) fun other here => ?_,
      nofun, fun _ => .inr ⟨semaphore, waits⟩,
      fun held => absurd held (lists.ne_carcass free)⟩
    refine iff_of_false (lists.notMem_queue free other) ?_
    rintro ⟨-, same⟩
    rw [waits] at same
    cases same
    exact here rfl
  · exact (lists.queueNodup semaphore).append (List.nodup_singleton _)
      (List.disjoint_singleton.mpr (lists.notMem_queue free semaphore))

theorem wakeUp {semaphore : κ} {rest : List τ}
    (queue : (semaphores semaphore).queue = thread :: rest)
    (value : Word) :
    Lists (update status thread (some .ready)) (readyList ++ [thread])
      (update semaphores semaphore ⟨value, rest⟩)
      carcass point := by
  have placed := lists.placed thread
  have nodup := lists.queueNodup semaphore
  rw [queue] at nodup
  have member : thread ∈ (semaphores semaphore).queue := by
    rw [queue]
    exact List.mem_cons_self
  obtain ⟨blocked, waits⟩ := (placed.queued semaphore).mp member
  refine lists.move thread ?_ (update_cases nodup.of_cons fun other _ => lists.queueNodup other)
    (fun _ apart => by simp [apart])
    (fun _ apart => update_cases (by simp [queue, apart]) fun _ _ => Iff.rfl) (fun _ _ => id) ?_
  · rw [← List.concat_eq_append, List.nodup_concat]
    refine ⟨fun ready => ?_, lists.readyNodup⟩
    have ready := placed.ready.mp ready
    rw [blocked] at ready
    cases ready
  · refine ⟨by simp, fun other => iff_of_false ?_ (by simp),
      fun _ => by simp [waits], nofun, fun held => ?_⟩
    · refine update_cases (List.nodup_cons.mp nodup).1 (fun other here => ?_) other
      rw [placed.queued]
      rintro ⟨-, same⟩
      rw [waits] at same
      cases same
      exact here rfl
    · have finished := (placed.finished held).2
      rw [waits] at finished
      cases finished

end

end Lists

/-! ## The operations -/

def Control.IsRunning : Control κ → Prop
  | .outside => True
  | .testing _ _ => True
  | _ => False

section

variable {control : Control κ}

theorem Control.ne_crashed (isRunning : control.IsRunning) : control ≠ .crashed := by
  rintro rfl
  exact isRunning

theorem isRunning_of_outside (outside : control = .outside) :
    control.IsRunning := by
  rw [outside]
  trivial

theorem isRunning_of_testing {semaphore : κ} {woken : Bool}
    (place : control = .testing semaphore woken) : control.IsRunning := by
  rw [place]
  trivial

end

namespace State

variable [DecidableEq τ]

/-- The lists are right, the current thread is the one which runs, if any
does, and nothing has crashed. -/
structure Consistent (state : State τ κ) : Prop where
  lists : Lists state.status state.readyList state.semaphores state.threadToBeDestroyed state.point
  running : ∀ thread, state.status thread = some .running ↔
    thread = state.currentThread ∧ state.control.IsRunning
  sound : state.control ≠ .crashed

theorem consistent_boot (main : τ) (initialValue : κ → Word) :
    (boot main initialValue).Consistent where
  lists := by
    refine ⟨List.nodup_nil, fun _ => List.nodup_nil, fun thread => ?_⟩
    refine .of_free ?_ (by simp [boot]) (by simp [boot]) nofun
    simp only [boot]
    exact update_cases ⟨nofun, nofun⟩ (fun _ _ => ⟨nofun, nofun⟩) thread
  running thread := by
    by_cases here : thread = main
    · subst here
      simp [boot, Control.IsRunning]
    · simp [boot, here]
  sound := nofun

variable {state : State τ κ}

theorem point_of_isRunning (isRunning : state.control.IsRunning) : state.point = state.resume := by
  unfold point
  cases place : state.control with
  | outside | testing _ _ | crashed => rfl
  | sleeping _ | idling _ =>
    rw [place] at isRunning
    exact isRunning.elim

theorem Consistent.afterSwitch {control : Control κ}
    (lists : Lists state.status state.readyList state.semaphores
      state.threadToBeDestroyed state.resume)
    (running : ∀ thread, state.status thread = some .running ↔
      thread = state.currentThread) (isRunning : control.IsRunning) :
    (state.afterSwitch control).Consistent := by
  unfold State.afterSwitch
  cases carcass : state.threadToBeDestroyed with
  | none =>
    rw [carcass] at lists
    refine ⟨?_, fun thread => ?_, Control.ne_crashed isRunning⟩
    · rw [point_of_isRunning isRunning]
      exact lists
    · rw [running]
      exact (and_iff_left isRunning).symm
  | some thread =>
    have apart : thread ≠ state.currentThread := by
      intro same
      have blocked := ((lists.placed thread).finished carcass).1
      rw [(running thread).mpr same] at blocked
      cases blocked
    simp only [if_neg apart]
    refine ⟨?_, fun other => ?_, Control.ne_crashed isRunning⟩
    · rw [point_of_isRunning isRunning]
      exact lists.destroy carcass
    · simp only
      refine update_cases (by simp [apart]) (fun other _ => ?_) other
      exact (running other).trans (and_iff_left isRunning).symm

/-- `Run` dispatches a ready thread, which is not the finished one. -/
theorem Consistent.run {next : τ} {point : ResumePoint κ}
    (lists : Lists state.status (next :: state.readyList) state.semaphores state.threadToBeDestroyed
      (update state.resume state.currentThread point))
    (stopped : ∀ thread, state.status thread ≠ some .running) :
    (state.run next point).Consistent := by
  have placed := lists.placed next
  have goesOn := placed.readyPoint (placed.ready.mp List.mem_cons_self)
  have moved := lists.toRunning rfl
  have running : ∀ thread, update state.status next
      (some .running) thread = some .running ↔ thread = next := by
    exact update_cases (by simp) fun thread here => iff_of_false (stopped thread) here
  unfold State.run
  cases place : (state.switch next point).resume next with
  | threadRoot =>
    refine ⟨moved, fun thread => ?_, nofun⟩
    exact (running thread).trans (and_iff_left trivial).symm
  | yield | p semaphore => exact .afterSwitch moved running trivial
  | finish => exact absurd place goesOn

section

variable (consistent : state.Consistent)
include consistent

theorem Consistent.free (isRunning : state.control.IsRunning) :
    Free (state.status state.currentThread) := by
  rw [(consistent.running _).mpr ⟨rfl, isRunning⟩]
  exact ⟨nofun, nofun⟩

theorem Consistent.lists_resume (isRunning : state.control.IsRunning) :
    Lists state.status state.readyList state.semaphores state.threadToBeDestroyed state.resume := by
  have lists := consistent.lists
  rw [point_of_isRunning isRunning] at lists
  exact lists

theorem Consistent.stopped (status : ThreadStatus) (other : status ≠ .running) (thread : τ) :
    update state.status state.currentThread (some status) thread ≠ some .running := by
  by_cases here : thread = state.currentThread
  · subst here
    simp [other]
  · rw [update_of_ne here, Ne, consistent.running]
    exact fun both => here both.1

/-- A change of the status of a thread which does not run. -/
theorem Consistent.running_update {thread : τ} (stands : state.status thread ≠ some .running)
    {status : ThreadStatus} (other : status ≠ .running) (candidate : τ) :
    update state.status thread (some status) candidate =
        some .running ↔
      candidate = state.currentThread ∧ state.control.IsRunning := by
  by_cases here : candidate = thread
  · subst here
    rw [update_self, ← consistent.running]
    exact iff_of_false (by simp [other]) stands
  · rw [update_of_ne here]
    exact consistent.running candidate

end

variable [DecidableEq κ]

theorem Consistent.v (consistent : state.Consistent) (semaphore : κ) :
    (state.v semaphore).Consistent := by
  unfold State.v
  cases queue : (state.semaphores semaphore).queue with
  | nil =>
    refine ⟨consistent.lists.sameQueues fun other => ?_, consistent.running, consistent.sound⟩
    by_cases here : other = semaphore
    · subst here
      simp [setSemaphore, queue]
    · simp [setSemaphore, here]
  | cons thread rest =>
    have member : thread ∈ (state.semaphores semaphore).queue := by
      rw [queue]
      exact List.mem_cons_self
    have blocked := (((consistent.lists.placed thread).queued semaphore).mp member).1
    refine ⟨consistent.lists.wakeUp queue _, consistent.running_update ?_ nofun, consistent.sound⟩
    rw [blocked]
    nofun

theorem Consistent.step {before after : State τ κ} {event : Event τ κ}
    (consistent : before.Consistent) (step : Step before event after) :
    after.Consistent := by
  cases step.moves with
  | newThread outside absent =>
    refine ⟨consistent.lists.setFree ?_ ⟨nofun, nofun⟩,
      consistent.running_update ?_ nofun, consistent.sound⟩
    · rw [absent]
      exact ⟨nofun, nofun⟩
    · rw [absent]
      nofun
  | @fork thread outside created =>
    have isRunning := isRunning_of_outside outside
    have free : Free (before.status thread) := by
      rw [created]
      exact ⟨nofun, nofun⟩
    have lists := ((consistent.lists_resume isRunning).setPoint free
      .threadRoot).toReady free (by simp)
    refine ⟨?_, consistent.running_update ?_ nofun, consistent.sound⟩
    · have same : (before.fork thread).point =
          (before.fork thread).resume := point_of_isRunning isRunning
      rw [same]
      exact lists
    · rw [created]
      nofun
  | stay outside empty => exact consistent
  | @yield next rest outside shape =>
    have isRunning := isRunning_of_outside outside
    have free := consistent.free isRunning
    have lists := ((consistent.lists_resume isRunning).setPoint free .yield).toReady free (by simp)
    rw [shape] at lists
    exact .run lists (consistent.stopped .ready nofun)
  | p outside =>
    have isRunning := isRunning_of_outside outside
    refine ⟨consistent.lists_resume isRunning, fun thread => ?_, nofun⟩
    rw [consistent.running]
    exact and_congr_right fun _ => iff_of_true isRunning trivial
  | @take semaphore woken place available =>
    have isRunning := isRunning_of_testing place
    refine ⟨(consistent.lists_resume isRunning).sameQueues fun other => ?_, fun thread => ?_, nofun⟩
    · by_cases here : other = semaphore
      · subst here
        simp [State.take, setSemaphore]
      · simp [State.take, setSemaphore, here]
    · refine (consistent.running thread).trans ?_
      exact and_congr_right fun _ => iff_of_true isRunning trivial
  | @block semaphore woken place unavailable =>
    have isRunning := isRunning_of_testing place
    have free := consistent.free isRunning
    have lists := ((consistent.lists_resume isRunning).setPoint free
      (.p semaphore)).toQueue free (update_self ..) (before.semaphores semaphore).value
    exact ⟨lists, fun thread => iff_of_false
      (consistent.stopped .blocked nofun thread) And.right, nofun⟩
  | v place => exact consistent.v _
  | finish outside =>
    have isRunning := isRunning_of_outside outside
    have free := consistent.free isRunning
    have lists := ((consistent.lists_resume isRunning).setPoint free
      .finish).toFinished free (by simp)
    exact ⟨lists, fun thread => iff_of_false
      (consistent.stopped .blocked nofun thread) And.right, nofun⟩
  | @idle point place empty | @wake point place =>
    have lists := consistent.lists
    have running := consistent.running
    simp only [State.point, place] at lists running
    exact ⟨lists, running, nofun⟩
  | @dispatch point next rest place shape =>
    have lists := consistent.lists
    have running := consistent.running
    simp only [State.point, place, shape] at lists running
    refine .run lists fun thread runs => ?_
    exact ((running thread).mp runs).2

theorem consistent_of_run {main : τ} {initialValue : κ → Word} {events : List (Event τ κ)}
    (run : Run Step (boot main initialValue) events state) :
    state.Consistent :=
  run.history (fun _ => Consistent) (consistent_boot main initialValue)
    fun _ _ _ _ consistent taken => consistent.step taken

/-- The thread has been forked, or is the main thread, and still exists. -/
def Started (state : State τ κ) (thread : τ) : Prop :=
  state.status thread ≠ none ∧ state.status thread ≠ some .justCreated

/-- The thread has called `Finish` and still exists. -/
def Finished (state : State τ κ) (thread : τ) : Prop :=
  state.status thread = some .blocked ∧ state.point thread = .finish

/-- Whenever the current thread is outside the operations which switch
threads, it is the running one and on no list, and every other thread is on
the list its status names and on no other. -/
theorem threads_on_their_lists {main : τ} {initialValue : κ → Word}
    {events : List (Event τ κ)} {state : State τ κ}
    (run : Run Step (boot main initialValue) events state)
    (outside : state.control = .outside) :
    ((∀ thread, state.status thread = some .running ↔
        thread = state.currentThread) ∧
      state.currentThread ∉ state.readyList ∧
      ∀ semaphore,
        state.currentThread ∉ (state.semaphores semaphore).queue) ∧
    (∀ thread, thread ≠ state.currentThread → state.Started thread →
      ¬state.Finished thread →
      (state.status thread = some .ready ∧
        state.readyList.count thread = 1 ∧
        ∀ semaphore, thread ∉ (state.semaphores semaphore).queue) ∨
      (state.status thread = some .blocked ∧ thread ∉ state.readyList ∧
        ∃ semaphore, (state.semaphores semaphore).queue.count thread = 1 ∧
          ∀ other, other ≠ semaphore →
            thread ∉ (state.semaphores other).queue)) ∧
    ∀ thread, state.Finished thread ∨ state.status thread = none →
      thread ∉ state.readyList ∧
      ∀ semaphore, thread ∉ (state.semaphores semaphore).queue := by
  have consistent := consistent_of_run run
  have lists := consistent.lists
  have isRunning := isRunning_of_outside outside
  have free := consistent.free isRunning
  refine ⟨⟨fun thread => ?_, lists.notMem_ready free, lists.notMem_queue free⟩, ?_, ?_⟩
  · rw [consistent.running]
    exact and_iff_left isRunning
  · intro thread other started unfinished
    have placed := lists.placed thread
    cases status : state.status thread with
    | none => exact absurd status started.1
    | some kind =>
      cases kind with
      | justCreated => exact absurd status started.2
      | running => exact absurd ((consistent.running _).mp status).1 other
      | ready =>
        refine .inl ⟨rfl, List.count_eq_one_of_mem lists.readyNodup
          (placed.ready.mpr status), fun semaphore member => ?_⟩
        rw [placed.queued, status] at member
        cases member.1
      | blocked =>
        rcases placed.blockedPoint status with finished | ⟨semaphore, here⟩
        · exact absurd ⟨status, finished⟩ unfinished
        · refine .inr ⟨rfl, fun member => ?_, semaphore,
            List.count_eq_one_of_mem (lists.queueNodup semaphore)
              ((placed.queued semaphore).mpr ⟨status, here⟩), ?_⟩
          · rw [placed.ready, status] at member
            cases member
          · intro another apart member
            have there := ((placed.queued another).mp member).2
            rw [here] at there
            cases there
            exact apart rfl
  · rintro thread (⟨blocked, finished⟩ | absent)
    · have placed := lists.placed thread
      refine ⟨fun member => ?_, fun semaphore member => ?_⟩
      · rw [placed.ready, blocked] at member
        cases member
      · rw [placed.queued, finished] at member
        cases member.2
    · have free : Free (state.status thread) := by
        rw [absent]
        exact ⟨nofun, nofun⟩
      exact ⟨lists.notMem_ready free, lists.notMem_queue free⟩

/-- The main thread forks another one and waits for a semaphore. -/
theorem threads_on_their_lists_after_wait : ∃ state : State Nat Nat, Run Step (boot 0 fun _ => 0#32)
        [.newThread 1, .fork 1, .p 7, .block 7, .dispatch] state ∧
      state.currentThread ∉ state.readyList := by
  have waited : ∃ state : State Nat Nat, Run Step (boot 0 fun _ => 0#32)
      [.newThread 1, .fork 1, .p 7, .block 7, .dispatch] state ∧
      state.control = .outside :=
    exists_run_of_replay (fun _ _ _ => id) (by decide +kernel)
  obtain ⟨state, run, outside⟩ := waited
  exact ⟨state, run, (threads_on_their_lists run outside).1.2.1⟩

end State

end Threads

end Nachos
