import Nachos.Userprog.JoinExit

/-!
# The process table and its semaphore

The bitmap and the array of PCBs change only between `P` and `V` of `bmsem`.
In every run at most one thread is there, it can always go on, and it leaves
with exactly one `V`.  Whenever nobody is there, bitmap and array agree, and
every process has a slot of its own.

A `Join` reads the table without the semaphore.  On a table in this state
its tests can fail only in `BitMap::Test`, which refuses an index outside
the bitmap, and a parent which joins its child once can wait for it to the
end, whatever the other threads do.
-/

open Words Semaphores Transition Function

namespace Nachos

/-- The thread is between `P` and `V` of `bmsem`. -/
def ProcessPoint.InTable : ProcessPoint → Prop
  | .execChecks _ _ => True
  | .execFork _ _ => True
  | .execForked _ _ => True
  | .execLeave _ => True
  | .exitClear => True
  | _ => False

/-- The PCB in which a thread counts its join. -/
def ProcessPoint.own : ProcessPoint → Option Nat
  | .joinEnter _ _ own => some own
  | .joinCount _ _ own => some own
  | _ => none

theorem ProcessPoint.not_inTable_of_absent {point : ProcessPoint}
    (absent : point.role = .absent) : ¬point.InTable := by
  cases point <;> first | exact id | cases absent

namespace Processes

/-! ## The semaphore -/

/-- One thread at most uses the table, the PCB of a process which is being
started stays in its slot, and a thread counts its joins in its own PCB. -/
structure Guarded (state : Processes) : Prop where
  exclusive : Exclusive state.bmsem ProcessPoint.InTable state.points
  forked : ∀ thread pid child,
    state.points thread = .execForked pid child →
    state.pcb pid = some child
  owned : ∀ thread own, (state.points thread).own = some own → own = thread

variable {state after : Processes} {thread : Nat} {start point : ProcessPoint}

section

variable (guarded : Guarded state)
include guarded

theorem Guarded.own_move (points : after.points = update state.points thread point)
    (own : ∀ number, point.own = some number → number = thread) :
    ∀ other number, (after.points other).own = some number → number = other := by
  rw [points]
  exact update_cases own fun other _ => guarded.owned other

theorem Guarded.move (points : after.points = update state.points thread point)
    (bmsem : after.bmsem = state.bmsem) (pcb : after.pcb = state.pcb)
    (same : point.InTable ↔ (state.points thread).InTable)
    (forked : ∀ pid child, point = .execForked pid child → state.pcb pid = some child)
    (own : ∀ number, point.own = some number → number = thread) : Guarded after := by
  refine ⟨?_, ?_, guarded.own_move points own⟩
  · rw [bmsem, points]
    exact guarded.exclusive.stay same
  · rw [points, pcb]
    exact update_cases forked fun other _ => guarded.forked other

theorem Guarded.not_forked (inside : (state.points thread).InTable) {other : Nat}
    (different : other ≠ thread) (pid : Pid) (child : Nat) :
    state.points other ≠ .execForked pid child := by
  intro found
  apply different
  apply guarded.exclusive.unique inside
  rw [found]
  trivial

/-- The thread which uses the table changes a slot, or leaves with a `V`. -/
theorem Guarded.alone (inside : (state.points thread).InTable)
    (points : after.points = update state.points thread point)
    (forked : ∀ pid child, point ≠ .execForked pid child) (nothing : point.own = none)
    (exclusive : Exclusive after.bmsem ProcessPoint.InTable after.points) : Guarded after := by
  refine ⟨exclusive, ?_, guarded.own_move points (by simp [nothing])⟩
  rw [points]
  exact update_cases (fun pid child found => absurd found (forked pid child))
    fun _ moved pid child found => absurd found (guarded.not_forked inside moved pid child)

theorem Guarded.waitOnBmsem {granted : ProcessPoint}
    (success : state.waitOnBmsem thread granted = .ok after) (inside : granted.InTable)
    (notForked : ∀ pid child, granted ≠ .execForked pid child) (nothing : granted.own = none) :
    Guarded after := by
  unfold Processes.waitOnBmsem at success
  split at success
  · cases success
  · split at success
    · rename_i taken available
      cases success
      refine ⟨guarded.exclusive.enter available inside, ?_,
        guarded.own_move rfl (by simp [nothing])⟩
      simp only [setPoint]
      exact update_cases (fun pid child found => absurd found (notForked pid child))
        fun other _ => guarded.forked other
    · cases success
      exact ⟨guarded.exclusive.of_value_eq rfl, guarded.forked, guarded.owned⟩

theorem Guarded.outside (points : after.points = update state.points thread point)
    (bmsem : after.bmsem = state.bmsem) (pcb : after.pcb = state.pcb)
    (found : state.points thread = start) (before : ¬start.InTable) (later : ¬point.InTable)
    (own : ∀ number, point.own = some number → number = thread) : Guarded after := by
  subst found
  refine guarded.move points bmsem pcb (iff_of_false later before) ?_ own
  rintro pid child rfl
  exact absurd trivial later

theorem Guarded.waitOn {number : Nat} {which : PcbSemaphore} {granted asleep : ProcessPoint}
    (found : state.points thread = start) (before : ¬start.InTable) (first : ¬granted.InTable)
    (second : ¬asleep.InTable)
    (kept : ∀ number, granted.own = some number ∨ asleep.own = some number →
      start.own = some number)
    (success : state.waitOn number which thread granted asleep = .ok after) : Guarded after := by
  subst found
  obtain ⟨pcb, -, -, ⟨taken, -, rfl⟩ | ⟨-, rfl⟩⟩ := waitOn_inv success
  · exact guarded.outside rfl rfl rfl rfl before first
      fun number own => guarded.owned thread number (kept number (.inl own))
  · exact guarded.outside rfl rfl rfl rfl before second
      fun number own => guarded.owned thread number (kept number (.inr own))

end

/-! ## The steps inside -/

theorem Guarded.execChecks (guarded : Guarded state) {opened itself : Bool}
    (inside : (state.points thread).InTable) :
    Guarded (state.execChecks thread opened itself) := by
  have leave : ∀ result, Guarded (state.setPoint thread (.execLeave result)) := by
    intro result
    exact guarded.move rfl rfl rfl (iff_of_true trivial inside) (by simp)
      (by simp [ProcessPoint.own])
  unfold Processes.execChecks
  split
  · exact leave _
  · dsimp only
    split
    · exact guarded.alone inside rfl (by simp) rfl
        (guarded.exclusive.stay (iff_of_true trivial inside))
    · exact leave _

theorem Guarded.execFork (guarded : Guarded state)
    (core : Family.Core state.family) {pid : Pid} {child : Nat}
    (forking : state.points thread = .execFork pid child) :
    Guarded (state.execFork thread pid child) := by
  obtain ⟨listed, absent, -⟩ := core.forking thread pid child (by
    change (state.points thread).role = _
    rw [forking]
    rfl)
  have unborn : ¬(state.points child).InTable :=
    ProcessPoint.not_inTable_of_absent absent
  have different : thread ≠ child := by
    rintro rfl
    rw [forking] at unborn
    exact unborn trivial
  have started : Guarded (state.setPoint child .starting) :=
    guarded.outside rfl rfl rfl rfl unborn id (by simp [ProcessPoint.own])
  refine started.move rfl rfl rfl ?_ ?_ (by simp [ProcessPoint.own])
  · simp only [setPoint, update_of_ne different, forking]
    exact Iff.rfl
  · intro pid' child' same
    cases same
    exact listed

theorem Guarded.run (guarded : Guarded state) (core : Family.Core state.family)
    (success : state.run thread = .ok after) : Guarded after := by
  cases point : state.points thread <;> simp only [Processes.run, point] at success
  case absent | user | finished => cases success
  case starting =>
    obtain ⟨-, -, success⟩ := bind_ok_inv success
    cases success
    exact guarded.outside rfl rfl rfl point id id (by simp [ProcessPoint.own])
  case execEnter | exitRemove =>
    exact guarded.waitOnBmsem success trivial (by simp) rfl
  case execChecks =>
    cases success
    apply guarded.execChecks
    rw [point]
    trivial
  case execFork =>
    cases success
    exact guarded.execFork core point
  case execForked =>
    obtain ⟨released, signalled, success⟩ := bind_ok_inv success
    obtain ⟨pcb, -, rfl⟩ := signalOn_inv signalled
    cases success
    refine guarded.move rfl rfl rfl ?_ (by simp) (by simp [ProcessPoint.own])
    rw [point]
    exact Iff.rfl
  case execLeave | exitClear =>
    cases success
    have inside : (state.points thread).InTable := by
      rw [point]
      trivial
    exact guarded.alone inside rfl (by simp) rfl (guarded.exclusive.leave inside id)
  case joinEnter | joinSleep | exitEnter | exitSleep =>
    exact guarded.waitOn point id id id (by simp [ProcessPoint.own]) success
  case joinCount | exitCount =>
    obtain ⟨counted, added, success⟩ := bind_ok_inv success
    obtain ⟨pcb, -, added⟩ := bind_ok_inv added
    obtain ⟨pcb, -, rfl⟩ := signalOn_inv added
    cases success
    exact guarded.outside rfl rfl rfl point id id (by simp [ProcessPoint.own])
  case joinWait | exitWait =>
    obtain ⟨number, -, success⟩ := bind_ok_inv success
    exact guarded.waitOn point id id id (by simp [ProcessPoint.own]) success
  case joinRead =>
    unfold Processes.joinRead at success
    obtain ⟨number, -, success⟩ := bind_ok_inv success
    obtain ⟨pcb, -, success⟩ := bind_ok_inv success
    obtain ⟨released, signalled, success⟩ := bind_ok_inv success
    obtain ⟨pcb, -, rfl⟩ := signalOn_inv signalled
    cases success
    exact guarded.outside rfl rfl rfl point id id (by simp [ProcessPoint.own])
  case joinReturn =>
    cases success
    exact guarded.outside rfl rfl rfl point id id (by simp [ProcessPoint.own])
  case exitSignal =>
    obtain ⟨number, -, success⟩ := bind_ok_inv success
    obtain ⟨released, signalled, success⟩ := bind_ok_inv success
    obtain ⟨pcb, -, rfl⟩ := signalOn_inv signalled
    cases success
    exact guarded.outside rfl rfl rfl point id id (by simp [ProcessPoint.own])

theorem joinUpdate_inv {word : Word} (success : state.joinUpdate thread word = .ok after) :
    ∃ later : ProcessPoint, after = state.setPoint thread later ∧ ¬later.InTable ∧
      ∀ own, later.own = some own → state.pcb (state.pids thread) = some own := by
  unfold joinUpdate at success
  split at success
  · cases success
  · split at success
    · obtain ⟨child, -, success⟩ := bind_ok_inv success
      obtain ⟨pcb, -, success⟩ := bind_ok_inv success
      split at success
      · rename_i isParent
        obtain ⟨own, found, success⟩ := bind_ok_inv success
        cases success
        refine ⟨_, rfl, id, ?_⟩
        rintro _ ⟨⟩
        obtain ⟨pid, index, listed⟩ := slotAt_inv found
        rw [← isParent, Family.pidOf_pidWord] at index
        cases index
        exact listed
      · cases success
        exact ⟨_, rfl, id, by simp [ProcessPoint.own]⟩
    · cases success
      exact ⟨_, rfl, id, by simp [ProcessPoint.own]⟩

theorem exitUpdate_inv {exitcode : Word} (success : state.exitUpdate thread exitcode = .ok after) :
    ∃ (objects : Nat → Option PCB) (later : ProcessPoint),
      after = { state.setPoint thread later with objects := objects } ∧
      ¬later.InTable ∧ later.own = none := by
  unfold exitUpdate at success
  split at success
  · cases success
  · split at success
    · obtain ⟨own, -, success⟩ := bind_ok_inv success
      obtain ⟨pcb, -, success⟩ := bind_ok_inv success
      obtain ⟨parent, -, success⟩ := bind_ok_inv success
      cases success
      exact ⟨_, _, rfl, id, rfl⟩
    · cases success
      exact ⟨state.objects, _, rfl, id, rfl⟩

theorem Guarded.step (guarded : Guarded state)
    (core : Family.Core state.family) {event : ProcessEvent}
    (taken : Step state event after) : Guarded after := by
  cases event with
  | exec thread opened itself =>
    simp only [Step, next] at taken
    split at taken
    · rename_i point
      cases taken
      exact guarded.outside rfl rfl rfl point id id (by simp [ProcessPoint.own])
    · cases taken
  | join thread word =>
    simp only [Step, next] at taken
    split at taken
    · rename_i point
      obtain ⟨later, rfl, outside, own⟩ := joinUpdate_inv taken
      refine guarded.outside rfl rfl rfl point id outside fun number found => ?_
      have home : state.pcb (state.pids thread) = some thread :=
        core.home thread (by
          change (state.points thread).role.Live
          rw [point]
          trivial)
      rw [own number found] at home
      exact Option.some.inj home
    · cases taken
  | exit thread exitcode =>
    simp only [Step, next] at taken
    split at taken
    · rename_i point
      obtain ⟨objects, later, rfl, outside, nothing⟩ := exitUpdate_inv taken
      exact guarded.outside rfl rfl rfl point id outside (by simp [nothing])
    · cases taken
  | run thread => exact guarded.run core taken

theorem Guarded.progress (guarded : Guarded state) (core : Family.Core state.family)
    (inside : (state.points thread).InTable) :
    ∃ after, Step state (.run thread) after := by
  change ∃ after, state.run thread = .ok after
  cases point : state.points thread with
  | execChecks opened itself | execFork pid child | execLeave result | exitClear =>
    simp only [Processes.run, point, Except.ok.injEq, exists_eq']
  | execForked pid child =>
    obtain ⟨member, present, -⟩ :=
      core.entry pid child (guarded.forked thread pid child point)
    obtain ⟨pcb, found, -⟩ := Option.map_eq_some_iff.mp present
    simp only [Processes.run, point, signalOn, object, found, ok_bind]
    exact ⟨_, rfl⟩
  | _ =>
    rw [point] at inside
    exact inside.elim

/-! ## Every run -/

/-- The invariant of every run, however often processes join and in
whatever order they exit. -/
structure Kept (state : Processes) : Prop where
  bits : state.Bits
  core : Family.Core state.family
  guarded : Guarded state

theorem Kept.step (kept : Kept state) {event : ProcessEvent}
    (taken : Step state event after) : Kept after := by
  have follows := taken.follows kept.bits kept.core
  constructor
  · exact follows.bits
  · exact kept.core.step follows.step
  · exact kept.guarded.step kept.core taken

section Boot

variable (freshWords : Fin (numWords maxProcess) → Word) (freshParentID : Word)

theorem boot_guarded : Guarded (boot freshWords freshParentID) := by
  have outside : ∀ thread, ¬((boot freshWords freshParentID).points thread).InTable := by
    intro thread
    by_cases main : thread = 0
    · rw [main]
      exact id
    · simp only [boot, update_of_ne main]
      exact id
  refine ⟨.initial outside, ?_, ?_⟩
  · intro thread pid child found
    exact absurd (by rw [found]; trivial) (outside thread)
  · intro thread own found
    by_cases main : thread = 0
    · rw [main] at found
      cases found
    · simp only [boot, update_of_ne main] at found
      cases found

variable {freshWords freshParentID} {events : List ProcessEvent}

theorem kept_of_run (run : Run Step (boot freshWords freshParentID) events state) :
    Kept state := by
  induction run with
  | refl =>
    exact ⟨boot_bits _ _, boot_core _ _, boot_guarded _ _⟩
  | snoc _ taken induction => exact induction.step taken

end Boot

/-- The bitmap marks the slots which have a PCB, a PCB has the number of its
slot, the first slot is in use, processes which have not been removed have
different numbers, and `bmsem` is free. -/
structure TableConsistent (state : Processes) : Prop where
  bits : ∀ pid, state.bm.test pid = true ↔ state.pcb pid ≠ none
  numbered : ∀ pid number, state.pcb pid = some number →
    ∃ pcb, state.objects number = some pcb ∧ pcb.pid = pid
  main : state.bm.test ⟨0, by decide⟩ = true
  different : ∀ number other pcb otherPcb,
    state.objects number = some pcb →
    state.objects other = some otherPcb →
    pcb.pid = otherPcb.pid → number = other
  own : ∀ thread, (state.points thread).role.Live →
    ∃ pcb, state.objects thread = some pcb ∧ pcb.pid = state.pids thread
  free : state.bmsem.value = 1

theorem Kept.numbered (kept : Kept state) {pid : Pid} {number : Nat}
    (listed : state.pcb pid = some number) :
    ∃ pcb, state.objects number = some pcb ∧ pcb.pid = pid := by
  obtain ⟨member, present, same⟩ := kept.core.entry pid number listed
  obtain ⟨pcb, found, rfl⟩ := Option.map_eq_some_iff.mp present
  exact ⟨pcb, found, same⟩

theorem Kept.consistent (kept : Kept state) (outside : ∀ thread, ¬(state.points thread).InTable) :
    TableConsistent state := by
  have bits : ∀ pid, state.bm.test pid = true ↔ state.pcb pid ≠ none := by
    intro pid
    rw [kept.bits, Option.isSome_iff_ne_none]
  constructor
  · exact bits
  · intro pid number listed
    exact kept.numbered listed
  · obtain ⟨zero, live, -⟩ := kept.core.main
    have home := kept.core.home 0 live
    rw [zero] at home
    rw [bits]
    exact Option.ne_none_iff_exists'.mpr ⟨0, home⟩
  · intro number other pcb otherPcb found otherFound same
    have first := kept.core.alive number _ (member_of_object found)
    have second := kept.core.alive other _ (member_of_object otherFound)
    change state.pcb pcb.pid = some number at first
    change state.pcb otherPcb.pid = some other at second
    rw [same, second] at first
    exact (Option.some.inj first).symm
  · intro thread live
    exact kept.numbered (kept.core.home thread live)
  · rcases kept.guarded.exclusive with ⟨free, -⟩ | ⟨-, thread, inside, -⟩
    · exact free
    · exact absurd inside (outside thread)

/-- In every run, whenever no thread is between `P` and `V` of `bmsem`, the
table is consistent and `bmsem` is free.  A thread between them is alone,
finds `bmsem` taken, and can go on, up to its `V`. -/
theorem table_consistent_outside_lock
    {freshWords : Fin (numWords maxProcess) → Word} {freshParentID : Word}
    {events : List ProcessEvent}
    (run : Run Step (boot freshWords freshParentID) events state) :
    ((∀ thread, ¬(state.points thread).InTable) →
      TableConsistent state) ∧
    ∀ thread, (state.points thread).InTable →
      state.bmsem.value = 0 ∧
      (∀ other, (state.points other).InTable → other = thread) ∧
      ∃ after, Step state (.run thread) after := by
  have kept := kept_of_run run
  constructor
  · exact kept.consistent
  · intro thread inside
    refine ⟨kept.guarded.exclusive.value_eq_zero inside, ?_, kept.guarded.progress kept.core inside⟩
    intro other otherInside
    exact kept.guarded.exclusive.unique inside otherInside

theorem table_consistent_outside_lock_after_exec :
    ∃ state, Run Step firstBoot (execute 0 1) state ∧
      TableConsistent state ∧ state.pcb ⟨1, by decide⟩ = some 1 := by
  obtain ⟨state, run, free, listed⟩ :=
    @exists_run_of_replay _ _ tryStep Step firstBoot (execute 0 1)
      (fun state => state.bmsem.value = 1 ∧ state.pcb ⟨1, by decide⟩ = some 1) _ step_of_try
      (by decide +kernel)
  obtain ⟨consistent, taken⟩ := table_consistent_outside_lock run
  refine ⟨state, run, consistent ?_, listed⟩
  intro thread inside
  have zero := (taken thread inside).1
  rw [free] at zero
  cases zero

/-! ## Joins with any number -/

/-- A join which is under way can go on: the child has its slot, no step of
the thread fails, the thread passes when the child has signalled, and then it
reads the exit code of the child. -/
structure JoinProceeds (state : Processes) (thread : Nat) (pid : Pid) (child : Nat) : Prop where
  listed : state.pcb pid = some child
  safe : ∀ trouble, state.next (.run thread) = .error trouble → trouble = .disabled
  passes :
    (state.points thread = .joinWait pid child ∨
      ∃ waitedOn, state.points thread = .joinSleep pid child waitedOn) →
    (state.points child).role.Signalled →
    ∃ after, Step state (.run thread) after ∧ after.points thread = .joinRead pid child
  reads : state.points thread = .joinRead pid child →
    ∃ pcb after, state.objects child = some pcb ∧ Step state (.run thread) after ∧
      after.points thread = .joinReturn child pcb.exitcode

/-- A process which its parent has not released from `ExitWait`. -/
def Unreleased (state : Processes) (number : Nat) : Prop :=
  ∃ pcb, state.objects number = some pcb ∧ pcb.exitsem.value = 0 ∧
    (state.points number).role ≠ .leaving

/-- What a join owes its caller.  It returns -1 and changes nothing if the
number is not that of a process which the caller has made.  Otherwise the
caller waits for this process, which it has not joined before, and whatever
the other threads do the join can go on. -/
def JoinContract (state : Processes) (thread : Nat) (word : Word) : Prop :=
  ∃ after, state.next (.join thread word) = .ok after ∧
    (after = state.setPoint thread (.user (-1#32)) ∧
        (∀ pid child, pidOf word = some pid → state.pcb pid = some child →
          state.creator child ≠ some thread) ∨
      ∃ pid child, after = state.setPoint thread (.joinEnter pid child thread) ∧
        pidOf word = some pid ∧ state.pcb pid = some child ∧
        state.creator child = some thread ∧ state.Unreleased child ∧
        ∀ later finish, Run JoinsOnceStep after later finish →
          (finish.points thread).role.joins = some (pid, child) →
          JoinProceeds finish thread pid child)

theorem pidOf_isSome_iff (word : Word) :
    (∃ pid, pidOf word = some pid) ↔ 0 ≤ word.toInt ∧ word.toInt < maxProcess := by
  unfold pidOf
  constructor
  · rintro ⟨pid, found⟩
    split at found
    · rename_i inside
      omega
    · cases found
  · intro inside
    rw [dif_pos (by omega)]
    exact ⟨_, rfl⟩

/-! ### The steps of a join -/

section

variable {number : Nat} {pcb : PCB} {trouble : Trouble}

theorem waitOn_trouble {which : PcbSemaphore} {granted asleep : ProcessPoint}
    (present : state.objects number = some pcb)
    (failed : state.waitOn number which thread granted asleep = .error trouble) :
    trouble = .disabled := by
  simp only [waitOn, object, present, ok_bind] at failed
  split at failed
  · cases failed
    rfl
  · split at failed <;> cases failed

theorem addNumwait_ok (present : state.objects number = some pcb) (amount : Int) :
    ∃ after, state.addNumwait number amount = .ok after := by
  simp only [addNumwait, object, present, ok_bind]
  exact ⟨_, signalOn_ok (update_self ..) _⟩

end

section

variable (sound : Sound state) (guarded : Guarded state) {pid : Pid} {child : Nat}
  (joins : (state.points thread).role.joins = some (pid, child))
include sound guarded joins

theorem Sound.join_trouble {trouble : Trouble}
    (failed : state.next (.run thread) = .error trouble) : trouble = .disabled := by
  have listed := sound.slot_of_join joins
  obtain ⟨pcb, present⟩ := sound.exists_object listed
  obtain ⟨own, ownPresent⟩ := sound.exists_object (sound.home (Role.live_of_joins joins))
  have mine := guarded.owned thread
  cases point : state.points thread <;> simp only [next, Processes.run, point] at failed
  case joinEnter _ _ number =>
    rw [mine number (by rw [point]; rfl)] at failed
    exact waitOn_trouble ownPresent failed
  case joinCount _ _ number =>
    rw [mine number (by rw [point]; rfl)] at failed
    obtain ⟨counted, added⟩ := addNumwait_ok ownPresent 1
    rw [added] at failed
    cases failed
  case joinWait =>
    rw [point] at joins
    cases joins
    simp only [slot, listed, ok_bind] at failed
    exact waitOn_trouble present failed
  case joinSleep _ _ waitedOn =>
    have same := sound.joins.waited thread _ _ waitedOn (congrArg ProcessPoint.role point)
    rw [point] at joins
    cases joins
    rw [same] at failed
    exact waitOn_trouble present failed
  case joinRead =>
    rw [point] at joins
    cases joins
    obtain ⟨pcb, after, -, taken, -⟩ := sound.join_reads point
    simp only [Step, next, Processes.run, point] at taken
    rw [taken] at failed
    cases failed
  all_goals
    rw [point] at joins
    cases joins

theorem Sound.joinProceeds : JoinProceeds state thread pid child where
  listed := sound.slot_of_join joins
  safe _ := sound.join_trouble guarded joins
  passes := sound.released
  reads := sound.join_reads

end

/-! ### The tests of `JoinUpdate` -/

theorem pidOf_isSome_of_join {word r2 : Word} (user : state.points thread = .user r2)
    (success : state.next (.join thread word) = .ok after) : ∃ pid, pidOf word = some pid := by
  simp only [next, user, joinUpdate] at success
  cases index : pidOf word with
  | none =>
    rw [index] at success
    cases success
  | some pid => exact ⟨pid, rfl⟩

/-- `JoinUpdate` takes the thread for the parent of the process in the
slot. -/
def Admits (state : Processes) (thread : Nat) (pid : Pid) (child : Nat) : Prop :=
  state.pcb pid = some child ∧
    ∃ pcb, state.objects child = some pcb ∧ pidWord (state.pids thread) = pcb.parentID

section

variable (kept : Kept state) {word r2 : Word} {pid : Pid}
  (user : state.points thread = .user r2) (index : pidOf word = some pid)
include kept user index

theorem Kept.join_admitted {child : Nat} (admits : state.Admits thread pid child) :
    state.next (.join thread word) = .ok (state.setPoint thread (.joinEnter pid child thread)) := by
  obtain ⟨listed, pcb, found, parent⟩ := admits
  have home : state.pcb (state.pids thread) = some thread :=
    kept.core.home thread (by
      change (state.points thread).role.Live
      rw [user]
      trivial)
  have marked : state.bm.test pid = true := by
    rw [kept.bits, listed]
    rfl
  have own : state.slotAt pcb.parentID = .ok thread := by
    simp only [← parent, slotAt, Family.pidOf_pidWord, slot, home]
  simp only [next, user, Processes.joinUpdate, index, marked, if_true, slot,
    object, listed, found, ok_bind, if_pos parent, own]
  rfl

/-- A process which passes the tests is the one of the contract. -/
theorem Kept.contract_of_admits {child : Nat} (contract : JoinContract state thread word)
    (admits : state.Admits thread pid child) :
    state.creator child = some thread ∧ state.Unreleased child := by
  obtain ⟨after, success, contract⟩ := contract
  rw [kept.join_admitted user index admits] at success
  cases success
  rcases contract with ⟨same, -⟩ | ⟨pid', child', -, index', listed, made, unreleased, -⟩
  · have point := congrFun (congrArg Processes.points same) thread
    simp only [setPoint, update_self] at point
    cases point
  · rw [index] at index'
    cases index'
    rw [admits.1] at listed
    cases listed
    exact ⟨made, unreleased⟩

theorem Kept.join_refused (refused : ∀ child, ¬state.Admits thread pid child) :
    state.next (.join thread word) = .ok (state.setPoint thread (.user (-1#32))) := by
  cases listed : state.pcb pid with
  | none =>
    have clear : state.bm.test pid = false := by
      rw [kept.bits, listed]
      rfl
    simp only [next, user, Processes.joinUpdate, index, clear]
    rfl
  | some child =>
    have marked : state.bm.test pid = true := by
      rw [kept.bits, listed]
      rfl
    obtain ⟨pcb, found, -⟩ := kept.numbered listed
    have stranger : ¬pidWord (state.pids thread) = pcb.parentID :=
      fun parent => refused child ⟨listed, pcb, found, parent⟩
    simp only [next, user, Processes.joinUpdate, index, marked, if_true, slot,
      object, listed, found, ok_bind, if_neg stranger]
    rfl

end

section

variable {events : List ProcessEvent} (orderly : Orderly events state) {pid : Pid} {child : Nat}
include orderly

theorem Orderly.admits_of_creator (listed : state.pcb pid = some child)
    (creator : state.creator child = some thread) : state.Admits thread pid child := by
  obtain ⟨pcb, present⟩ := orderly.toSound.exists_object listed
  refine ⟨listed, pcb, present, ?_⟩
  have notMain : child ≠ 0 := by
    rintro rfl
    have main : state.creator 0 = none := orderly.lineage.main
    rw [main] at creator
    cases creator
  obtain ⟨parent, creator', -, -, named⟩ :=
    orderly.lineage.parent child _ (member_of_object present) notMain
  have same : state.creator child = some parent := creator'
  rw [creator] at same
  cases same
  exact named.symm

theorem Orderly.creator_of_admits (live : (state.points thread).role.Live)
    (admits : state.Admits thread pid child) (notMain : child ≠ 0) :
    state.creator child = some thread := by
  obtain ⟨listed, pcb, present, parent⟩ := admits
  obtain ⟨creator, made, liveCreator, -, named⟩ :=
    orderly.lineage.parent child _ (member_of_object present) notMain
  have same := orderly.core.unique live liveCreator (Family.pidWord_injective (parent.trans named))
  rw [same]
  exact made

end

/-- Only the first process is in the first slot. -/
theorem Sound.child_eq_zero_iff (sound : Sound state) {word : Word} {pid : Pid} {child : Nat}
    (index : pidOf word = some pid) (listed : state.pcb pid = some child) :
    child = 0 ↔ word = 0#32 := by
  obtain ⟨zero, live, -⟩ := sound.core.main
  have home := sound.home live
  have first : state.pids 0 = ⟨0, by decide⟩ := zero
  rw [first] at home
  constructor
  · rintro rfl
    obtain ⟨member, present, same⟩ := sound.core.entry pid 0 listed
    obtain ⟨other, otherPresent, other'⟩ := sound.core.entry _ 0 home
    rw [present] at otherPresent
    cases otherPresent
    rw [same] at other'
    subst other'
    unfold pidOf at index
    split at index
    · rename_i inside
      have value : word.toInt.toNat = 0 := congrArg Fin.val (Option.some.inj index)
      exact BitVec.eq_of_toInt_eq (by rw [BitVec.toInt_zero]; omega)
    · cases index
  · rintro rfl
    cases (show pidOf 0#32 = some ⟨0, by decide⟩ from rfl).symm.trans index
    rw [home] at listed
    exact (Option.some.inj listed).symm

/-- In every state of every run in which a parent joins a child once and
exits after its children, a join keeps its contract exactly if the number is
an index of the table, the caller has not joined the process before, and the
caller of `Join(0)` is not taken for the parent of the first process, whose
`parentID` is never set. -/
theorem join_contract_iff {freshWords : Fin (numWords maxProcess) → Word} {freshParentID : Word}
    {events : List ProcessEvent} {r2 : Word}
    (run : Run OrderlyStep (boot freshWords freshParentID) events state)
    (user : state.points thread = .user r2) (word : Word) :
    JoinContract state thread word ↔
      (0 ≤ word.toInt ∧ word.toInt < maxProcess) ∧
      state.family.JoinsOnce (.join thread word) ∧
      (word = 0#32 → ∀ pcb ∈ state.objects 0, pidWord (state.pids thread) ≠ pcb.parentID) := by
  have orderly := orderly_of_run run
  have kept := kept_of_run (run.mono fun _ _ _ _ taken => taken.1.1)
  have live : (state.points thread).role.Live := by
    rw [user]
    trivial
  rw [← pidOf_isSome_iff]
  constructor
  · intro contract
    have index := pidOf_isSome_of_join user contract.choose_spec.1
    refine ⟨index, ?_⟩
    obtain ⟨pid, index⟩ := index
    constructor
    · intro pid' index' child listed member present parent
      cases index.symm.trans index'
      obtain ⟨pcb, found, rfl⟩ := Option.map_eq_some_iff.mp present
      obtain ⟨-, pcb', found', zero, stays⟩ :=
        kept.contract_of_admits user index contract ⟨listed, pcb, found, parent⟩
      cases found.symm.trans found'
      exact ⟨zero, stays⟩
    · rintro rfl pcb found parent
      obtain ⟨child, listed⟩ : ∃ child, state.pcb pid = some child := by
        cases (show pidOf 0#32 = some ⟨0, by decide⟩ from rfl).symm.trans index
        exact ⟨0, orderly.core.main.1 ▸ orderly.home orderly.core.main.2.1⟩
      have first := (orderly.toSound.child_eq_zero_iff index listed).mpr rfl
      subst first
      have made := (kept.contract_of_admits user index contract ⟨listed, pcb, found, parent⟩).1
      have main : state.creator 0 = none := orderly.lineage.main
      rw [main] at made
      cases made
  · rintro ⟨⟨pid, index⟩, once, notMain⟩
    by_cases admitted : ∃ child, state.Admits thread pid child
    · obtain ⟨child, admits⟩ := admitted
      have ⟨listed, pcb, found, parent⟩ := admits
      have other : child ≠ 0 := by
        intro first
        subst first
        exact notMain ((orderly.toSound.child_eq_zero_iff index listed).mp rfl) pcb found parent
      obtain ⟨zero, stays⟩ := once pid index child listed _ (member_of_object found) parent
      have called := kept.join_admitted user index admits
      have joined : Run JoinsOnceStep (boot freshWords freshParentID)
          (events ++ [.join thread word]) _ :=
        (run.mono fun _ _ _ _ taken => taken.1).snoc ⟨called, once⟩
      refine ⟨_, called, .inr ⟨pid, child, rfl, index, listed,
        orderly.creator_of_admits live admits other, ⟨pcb, found, zero, stays⟩, ?_⟩⟩
      intro later finish rest joins
      have whole := joined.append rest
      exact (sound_of_run whole).joinProceeds
        (kept_of_run (whole.mono fun _ _ _ _ taken => taken.1)).guarded joins
    · have refused := fun child admits => admitted ⟨child, admits⟩
      refine ⟨_, kept.join_refused user index refused, .inl ⟨rfl, ?_⟩⟩
      intro pid' child index' listed creator
      cases index.symm.trans index'
      exact refused child (orderly.admits_of_creator listed creator)

/-- The first process can join its child, but not -1, not itself when its
`parentID` happens to be 0, and not the child again before it has left. -/
theorem join_contract_iff_of_child :
    (∃ state, Run OrderlyStep firstBoot (execute 0 1) state ∧
      JoinContract state 0 1#32 ∧ ¬JoinContract state 0 (-1#32) ∧
      ¬JoinContract state 0 0#32) ∧
    ∃ state, Run OrderlyStep firstBoot
        (execute 0 1 ++ exitUntilAsleep 1 7#32 ++ joinAsleep 0 1#32) state ∧
      ¬JoinContract state 0 1#32 := by
  constructor
  · obtain ⟨state, run, user, once, parent⟩ :=
      @exists_run_of_replay _ _ tryOrderly OrderlyStep firstBoot (execute 0 1)
        (fun state => state.points 0 = .user 1#32 ∧
          state.family.JoinsOnce (.join 0 1#32) ∧
          ∃ pcb ∈ state.objects 0, pidWord (state.pids 0) = pcb.parentID) _ orderlyStep_of_try
        (by decide +kernel)
    refine ⟨state, run, ?_, ?_, ?_⟩
    · rw [join_contract_iff run user]
      exact ⟨by decide, once, by simp⟩
    · rw [join_contract_iff run user]
      exact fun kept => absurd kept.1 (by decide)
    · rw [join_contract_iff run user]
      obtain ⟨pcb, found, same⟩ := parent
      exact fun kept => kept.2.2 rfl pcb found same
  · obtain ⟨state, run, user, twice⟩ :=
      @exists_run_of_replay _ _ tryOrderly OrderlyStep firstBoot
        (execute 0 1 ++ exitUntilAsleep 1 7#32 ++ joinAsleep 0 1#32)
        (fun state => state.points 0 = .user 7#32 ∧
          ¬state.family.JoinsOnce (.join 0 1#32)) _ orderlyStep_of_try
        (by decide +kernel)
    refine ⟨state, run, ?_⟩
    rw [join_contract_iff run user]
    exact fun kept => twice kept.2.1

/-- `Join(Exec(...))` with a name which does not open: `Exec` returns -1, and
the join of -1 fails the `ASSERT` in `BitMap::Test`. -/
theorem join_of_failed_exec_fails_assertion : ∃ state, Run Step firstBoot
        (.exec 0 false false :: List.replicate 3 (.run 0)) state ∧
      state.points 0 = .user (-1#32) ∧
      state.next (.join 0 (-1#32)) = .error .assertion := by
  obtain ⟨state, run, user, failed⟩ :=
    @exists_run_of_replay _ _ tryStep Step firstBoot
      (.exec 0 false false :: List.replicate 3 (.run 0))
      (fun state => state.points 0 = .user (-1#32) ∧
        trouble (state.next (.join 0 (-1#32))) = some .assertion) _
      step_of_try (by decide +kernel)
  exact ⟨state, run, user, eq_error_of_trouble failed⟩

end Processes

end Nachos
