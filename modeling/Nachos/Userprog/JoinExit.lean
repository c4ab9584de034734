import Nachos.Userprog.Protocol

/-!
# Joining and exiting in the process table

The results of the protocol for the runs of the process table.  In a run in
which a parent joins a child at most once, a process is not removed while a
thread uses its semaphores.  If, besides, a process exits after the
processes it has made, `JoinUpdate` and `ExitUpdate` find the PCBs they look
for, and a join returns the exit code of the child.  Neither condition is
checked by the code.
-/

open Words Semaphores Transition Function

namespace Nachos

namespace Processes

/-- A step in which a parent does not join a child which an earlier join has
released. -/
def JoinsOnceStep (before : Processes) (event : ProcessEvent) (after : Processes) : Prop :=
  Step before event after ∧ before.family.JoinsOnce event

/-- A step in which, besides, a process does not exit before its
children. -/
def OrderlyStep (before : Processes) (event : ProcessEvent) (after : Processes) : Prop :=
  JoinsOnceStep before event after ∧ before.family.ExitsLast event

/-! ## Invariants -/

structure Sound (state : Processes) : Prop where
  bits : state.Bits
  core : Family.Core state.family
  joins : Family.Joins state.family

structure Orderly (events : List ProcessEvent) (state : Processes) :
    Prop extends Sound state where
  lineage : Family.Lineage state.family
  told : Family.Told events state.family

theorem Sound.step {state after : Processes} {event : ProcessEvent}
    (sound : Sound state) (taken : JoinsOnceStep state event after) :
    Sound after := by
  obtain ⟨taken, once⟩ := taken
  have follows := taken.follows sound.bits sound.core
  exact ⟨follows.bits, sound.core.step follows.step, sound.joins.step sound.core follows.step once⟩

theorem Orderly.step {events : List ProcessEvent} {state after : Processes} {event : ProcessEvent}
    (orderly : Orderly events state)
    (taken : OrderlyStep state event after) :
    Orderly (events ++ [event]) after := by
  obtain ⟨joinsOnce, last⟩ := taken
  have follows := joinsOnce.1.follows orderly.bits orderly.core
  exact ⟨orderly.toSound.step joinsOnce,
    orderly.lineage.step orderly.core follows.step last,
    orderly.told.step orderly.core orderly.joins orderly.lineage follows.step⟩

section Boot

variable (freshWords : Fin (numWords maxProcess) → Word) (freshParentID : Word)

theorem boot_role (thread : Nat) :
    thread = 0 ∧
        (boot freshWords freshParentID).family.roles thread = .free ∨
      thread ≠ 0 ∧ (boot freshWords freshParentID).family.roles thread = .absent := by
  simp only [boot, family]
  exact update_cases (.inl ⟨rfl, rfl⟩) (fun _ other => .inr ⟨other, rfl⟩) thread

theorem boot_role_elim {thread : Nat} {role : Role}
    (found : (boot freshWords freshParentID).family.roles thread = role)
    (notFree : role ≠ .free) (notAbsent : role ≠ .absent) : False := by
  rcases boot_role freshWords freshParentID thread with
    ⟨-, free⟩ | ⟨-, absent⟩
  · exact notFree (found.symm.trans free)
  · exact notAbsent (found.symm.trans absent)

theorem boot_member {number : Nat} {member : Member}
    (present : (boot freshWords freshParentID).family.members number = some member) :
    number = 0 ∧ member = .new ⟨0, by decide⟩ freshParentID := by
  revert present
  simp only [boot, family]
  refine update_cases ?_ (by rintro _ _ ⟨⟩) number
  rintro ⟨⟩
  exact ⟨rfl, rfl⟩

theorem boot_bits : (boot freshWords freshParentID).Bits := by
  intro pid
  simp only [boot, BitMap.test_mark, BitMap.test_new, Bool.or_false, update_apply]
  split_ifs with same <;> simp only [same, decide_true, decide_false,
    Option.isSome_some, Option.isSome_none]

theorem boot_core : Family.Core (boot freshWords freshParentID).family := by
  have role := boot_role freshWords freshParentID
  refine ⟨⟨rfl, trivial, id⟩, ?_, ?_, ?_, ?_, ?_, ?_, ?_⟩
  · intro thread live
    rcases role thread with ⟨rfl, -⟩ | ⟨-, absent⟩
    · rfl
    · rw [absent] at live
      exact live.elim
  · simp only [boot, family]
    refine update_cases ?_ (by rintro _ _ _ ⟨⟩)
    rintro _ ⟨⟩
    exact ⟨_, rfl, rfl⟩
  · intro number member present
    obtain ⟨rfl, rfl⟩ := boot_member freshWords freshParentID present
    rfl
  · intro number member present
    obtain ⟨rfl, rfl⟩ := boot_member freshWords freshParentID present
    exact Nat.one_pos
  · intro thread unborn
    rcases role thread with ⟨rfl, -⟩ | ⟨-, absent⟩
    · exact absurd unborn Nat.one_pos.not_ge
    · exact absent
  · intro thread pid child forking
    exact (boot_role_elim _ _ forking (by simp) (by simp)).elim
  · intro thread number resting
    exact (boot_role_elim _ _ resting (by simp) (by simp)).elim

theorem boot_joins : Family.Joins (boot freshWords freshParentID).family := by
  refine ⟨?_, ?_, ?_⟩
  · intro thread pid child joins
    rcases boot_role freshWords freshParentID thread with
      ⟨-, free⟩ | ⟨-, absent⟩
    · rw [free] at joins
      cases joins
    · rw [absent] at joins
      cases joins
  · intro thread pid child number waiting
    exact (boot_role_elim _ _ waiting nofun nofun).elim
  · intro child member present
    obtain ⟨rfl, rfl⟩ := boot_member freshWords freshParentID present
    refine ⟨fun _ => ⟨rfl, rfl, ?_⟩, False.elim, nofun, List.nodup_nil, nofun⟩
    intro thread pid passed
    exact boot_role_elim _ _ passed nofun nofun

theorem boot_lineage : Family.Lineage (boot freshWords freshParentID).family := by
  refine ⟨rfl, fun _ _ => rfl, ?_, ?_⟩
  · intro child member present notMain
    exact absurd (boot_member freshWords freshParentID present).1 notMain
  · intro thread parent exiting
    exact (boot_role_elim _ _ exiting nofun nofun).elim

theorem boot_told : Family.Told [] (boot freshWords freshParentID).family := by
  refine ⟨?_, ?_⟩
  · intro thread member exiting
    rcases boot_role freshWords freshParentID thread with
      ⟨-, free⟩ | ⟨-, absent⟩
    · rw [free] at exiting
      exact exiting.elim
    · rw [absent] at exiting
      exact exiting.elim
  · intro thread child exitcode returning
    exact (boot_role_elim _ _ returning nofun nofun).elim

theorem boot_sound : Sound (boot freshWords freshParentID) :=
  ⟨boot_bits _ _, boot_core _ _, boot_joins _ _⟩

theorem boot_orderly : Orderly [] (boot freshWords freshParentID) :=
  ⟨boot_sound _ _, boot_lineage _ _, boot_told _ _⟩

variable {freshWords freshParentID} {events : List ProcessEvent} {state : Processes}

theorem sound_of_run (run : Run JoinsOnceStep (boot freshWords freshParentID) events
      state) : Sound state :=
  run.invariant Sound (fun _ _ => trivial) (boot_sound _ _)
    fun _ _ _ sound _ taken => sound.step taken

theorem orderly_of_run (run : Run OrderlyStep (boot freshWords freshParentID) events state) :
    Orderly events state :=
  run.history Orderly (boot_orderly _ _) fun _ _ _ _ orderly taken => orderly.step taken

end Boot

/-! ## Computed runs -/

def tryStep (state : Processes) (event : ProcessEvent) :
    Option Processes :=
  (state.next event).toOption

def tryOrderly (state : Processes) (event : ProcessEvent) :
    Option Processes :=
  if state.family.JoinsOnce event ∧ state.family.ExitsLast event then
    state.tryStep event
  else none

theorem step_of_try (before : Processes) (event : ProcessEvent)
    (after : Processes) (taken : before.tryStep event = some after) :
    Step before event after :=
  eq_ok_of_toOption taken

theorem orderlyStep_of_try (before : Processes) (event : ProcessEvent)
    (after : Processes) (taken : before.tryOrderly event = some after) :
    OrderlyStep before event after := by
  unfold tryOrderly at taken
  split_ifs at taken with rules
  exact ⟨⟨step_of_try before event after taken, rules.1⟩, rules.2⟩

/-- The whole of `Exec`, and the start of the child. -/
def execute (thread child : Nat) : List ProcessEvent :=
  .exec thread true false :: List.replicate 5 (.run thread) ++ [.run child]

/-- `Exit` until the thread sleeps in `ExitWait`. -/
def exitUntilAsleep (thread : Nat) (exitcode : Word) : List ProcessEvent :=
  .exit thread exitcode :: List.replicate 4 (.run thread)

/-- The whole of `Join` on a child which sleeps in `ExitWait`. -/
def joinAsleep (thread : Nat) (pid : Word) : List ProcessEvent :=
  .join thread pid :: List.replicate 5 (.run thread)

def firstBoot : Processes := boot (fun _ => 0#32) 0#32

def trouble {α : Type} : Except Trouble α → Option Trouble
  | .error trouble => some trouble
  | .ok _ => none

theorem eq_error_of_trouble {α : Type} {result : Except Trouble α}
    {found : Trouble} (same : trouble result = some found) :
    result = .error found := by
  cases result with
  | error _ =>
    cases same
    rfl
  | ok _ => cases same

/-! ## Slots which are dereferenced -/

/-- The computation does not dereference a `NULL` slot. -/
def NonNull {α : Type} (result : Except Trouble α) : Prop :=
  result ≠ .error .nullPointer

theorem NonNull.bind {α β : Type} {first : Except Trouble α}
    {rest : α → Except Trouble β} (safe : NonNull first)
    (safe' : ∀ value, first = .ok value → NonNull (rest value)) :
    NonNull (first >>= rest) := by
  cases first with
  | error trouble =>
    intro null
    cases null
    exact safe rfl
  | ok value => exact safe' value rfl

theorem nonNull_ok {α : Type} (value : α) : NonNull (.ok value : Except Trouble α) := nofun

section Primitives

variable {state : Processes} {thread number : Nat} {pid : Pid}

theorem nonNull_object (state : Processes) (number : Nat) : NonNull (state.object number) := by
  unfold object
  split <;> nofun

theorem nonNull_slot (listed : state.pcb pid = some number) : NonNull (state.slot pid) := by
  rw [slot, listed]
  nofun

theorem nonNull_slotAt {index : Word} (inside : pidOf index = some pid)
    (listed : state.pcb pid = some number) :
    NonNull (state.slotAt index) := by
  simp only [slotAt, inside]
  exact nonNull_slot listed

theorem nonNull_signalOn (state : Processes) (number : Nat)
    (which : PcbSemaphore) : NonNull (state.signalOn number which) :=
  .bind (nonNull_object _ _) fun _ _ => nonNull_ok _

theorem nonNull_addNumwait (state : Processes) (number : Nat)
    (amount : Int) : NonNull (state.addNumwait number amount) :=
  .bind (nonNull_object _ _) fun _ _ => nonNull_signalOn _ _ _

theorem nonNull_waitOn (state : Processes) (number : Nat) (which : PcbSemaphore) (thread : Nat)
    (granted asleep : ProcessPoint) :
    NonNull (state.waitOn number which thread granted asleep) := by
  refine .bind (nonNull_object _ _) fun pcb _ => ?_
  split
  · nofun
  · split <;> nofun

theorem nonNull_waitOnBmsem (state : Processes) (thread : Nat) (granted : ProcessPoint) :
    NonNull (state.waitOnBmsem thread granted) := by
  unfold waitOnBmsem
  split
  · nofun
  · split <;> nofun

end Primitives

section Orderly

variable {events : List ProcessEvent} {state : Processes} {thread : Nat}

theorem Sound.home (sound : Sound state) (live : (state.points thread).role.Live) :
    state.pcb (state.pids thread) = some thread :=
  sound.core.home thread live

theorem Sound.slot_of_join (sound : Sound state) {pid : Pid} {child : Nat}
    (joins : (state.points thread).role.joins = some (pid, child)) :
    state.pcb pid = some child :=
  (sound.joins.target thread pid child joins).1

theorem Sound.nonNull_joinUpdate (sound : Sound state)
    (live : (state.points thread).role.Live) (word : Word) :
    NonNull (state.joinUpdate thread word) := by
  unfold joinUpdate
  split
  · nofun
  · rename_i pid index
    split
    · rename_i marked
      rw [sound.bits, Option.isSome_iff_exists] at marked
      obtain ⟨child, listed⟩ := marked
      refine .bind (nonNull_slot listed) fun _ _ => ?_
      refine .bind (nonNull_object _ _) fun pcb _ => ?_
      split
      · rename_i isParent
        refine .bind ?_ fun _ _ => nonNull_ok _
        rw [← isParent]
        exact nonNull_slotAt (Family.pidOf_pidWord _) (sound.home live)
      · nofun
    · nofun

theorem Orderly.parent (orderly : Orderly events state)
    (live : (state.points thread).role.Live) (notMain : thread ≠ 0) :
    ∃ own parent parentPcb, state.objects thread = some own ∧
      state.creator thread = some parent ∧
      pidOf own.parentID = some (state.pids parent) ∧
      state.pcb (state.pids parent) = some parent ∧
      state.objects parent = some parentPcb := by
  obtain ⟨member, present, -⟩ :=
    orderly.core.entry _ thread (orderly.home live)
  obtain ⟨own, found, rfl⟩ := Option.map_eq_some_iff.mp present
  obtain ⟨parent, creator, -, named, listed⟩ :=
    orderly.lineage.parent_slot orderly.core present notMain
  obtain ⟨parentMember, parentPresent, -⟩ :=
    orderly.core.entry _ parent listed
  obtain ⟨parentPcb, parentFound, -⟩ :=
    Option.map_eq_some_iff.mp parentPresent
  exact ⟨own, parent, parentPcb, found, creator, named, listed, parentFound⟩

theorem Orderly.nonNull_exitUpdate (orderly : Orderly events state)
    (live : (state.points thread).role.Live) (exitcode : Word) :
    NonNull (state.exitUpdate thread exitcode) := by
  have home := orderly.home live
  unfold exitUpdate
  split
  · nofun
  · rename_i notZero
    have notMain : thread ≠ 0 := by
      rintro rfl
      exact notZero (congrArg Fin.val orderly.core.main.1)
    obtain ⟨own, parent, -, found, -, named, listed, -⟩ :=
      orderly.parent live notMain
    split
    · refine .bind (nonNull_slot home) fun number slot => ?_
      rw [slot_inv slot] at home
      cases home
      refine .bind (nonNull_object _ _) fun pcb object => ?_
      rw [object_inv object] at found
      cases found
      exact .bind (nonNull_slotAt named listed) fun _ _ => nonNull_ok _
    · nofun

theorem Sound.nonNull_run (sound : Sound state) (thread : Nat) : NonNull (state.run thread) := by
  cases point : state.points thread with
  | absent | user _ | finished | execChecks _ _ | execFork _ _
  | execLeave _ | joinReturn _ _ | exitClear =>
    simp only [run, point]
    rintro ⟨⟩
  | starting =>
    have home := sound.home (by rw [point]; trivial)
    simp only [run, point]
    exact .bind (nonNull_slot home) fun _ _ => nonNull_ok _
  | execEnter _ _ | exitRemove =>
    simp only [run, point]
    exact nonNull_waitOnBmsem _ _ _
  | execForked _ _ =>
    simp only [run, point]
    exact .bind (nonNull_signalOn _ _ _) fun _ _ => nonNull_ok _
  | joinEnter _ _ _ | joinSleep _ _ _ | exitEnter _ | exitSleep _ =>
    simp only [run, point]
    exact nonNull_waitOn _ _ _ _ _ _
  | joinCount _ _ _ | exitCount _ =>
    simp only [run, point]
    exact .bind (nonNull_addNumwait _ _ _) fun _ _ => nonNull_ok _
  | joinWait pid child =>
    have listed := sound.slot_of_join (by rw [point]; rfl)
    simp only [run, point]
    exact .bind (nonNull_slot listed) fun _ _ =>
      nonNull_waitOn _ _ _ _ _ _
  | joinRead pid child =>
    have listed := sound.slot_of_join (by rw [point]; rfl)
    simp only [run, point]
    exact .bind (nonNull_slot listed) fun _ _ =>
      .bind (nonNull_object _ _) fun _ _ =>
        .bind (nonNull_signalOn _ _ _) fun _ _ => nonNull_ok _
  | exitSignal =>
    have home := sound.home (by rw [point]; trivial)
    simp only [run, point]
    exact .bind (nonNull_slot home) fun _ _ =>
      .bind (nonNull_signalOn _ _ _) fun _ _ => nonNull_ok _
  | exitWait =>
    have home := sound.home (by rw [point]; trivial)
    simp only [run, point]
    exact .bind (nonNull_slot home) fun _ _ =>
      nonNull_waitOn _ _ _ _ _ _

theorem Orderly.nonNull_next (orderly : Orderly events state)
    (event : ProcessEvent) : NonNull (state.next event) := by
  cases event with
  | exec thread opened itself =>
    simp only [next]
    split <;> rintro ⟨⟩
  | join thread pid =>
    simp only [next]
    split
    · rename_i point
      exact orderly.nonNull_joinUpdate (by rw [point]; trivial) pid
    · rintro ⟨⟩
  | exit thread exitcode =>
    simp only [next]
    split
    · rename_i point
      exact orderly.nonNull_exitUpdate (by rw [point]; trivial) exitcode
    · rintro ⟨⟩
  | run thread => exact orderly.nonNull_run thread

/-- In every run in which a parent joins a child once and exits after its
children, no `NULL` slot is dereferenced, and a process whose exit counts
down at its parent does so at the PCB of the process which made it. -/
theorem join_and_exit_find_pcbs
    {freshWords : Fin (numWords maxProcess) → Word} {freshParentID : Word}
    (run : Run OrderlyStep (boot freshWords freshParentID) events state) :
    (∀ event, state.next event ≠ .error .nullPointer) ∧
      ∀ thread parent,
        (state.points thread = .exitEnter parent ∨
          state.points thread = .exitCount parent) →
        state.creator thread = some parent ∧
          ∃ own parentPcb, state.objects thread = some own ∧
            pidOf own.parentID = some (state.pids parent) ∧
            state.pcb (state.pids parent) = some parent ∧
            state.objects parent = some parentPcb := by
  have orderly := orderly_of_run run
  refine ⟨orderly.nonNull_next, ?_⟩
  intro thread parent at_
  have exiting : state.family.roles thread = .exiting parent := by
    rcases at_ with point | point <;> exact congrArg ProcessPoint.role point
  have notMain : thread ≠ 0 := by
    rintro rfl
    apply orderly.core.main.2.2
    rw [exiting]
    trivial
  have live : (state.points thread).role.Live := by
    have role : (state.points thread).role = .exiting parent := exiting
    rw [role]
    trivial
  have made := orderly.lineage.exiting thread parent exiting
  obtain ⟨own, parent', parentPcb, found, creator, named, listed,
    parentFound⟩ := orderly.parent live notMain
  have same : state.creator thread = some parent := made
  rw [creator] at same
  cases same
  exact ⟨creator, own, parentPcb, found, named, listed, parentFound⟩

theorem join_and_exit_find_pcbs_of_child :
    ∃ state, Run OrderlyStep firstBoot (execute 0 1 ++ [.exit 1 7#32])
        state ∧
      state.points 1 = .exitEnter 0 ∧ state.creator 1 = some 0 := by
  obtain ⟨state, run, point⟩ : ∃ state, Run OrderlyStep firstBoot (execute 0 1 ++ [.exit 1 7#32])
        state ∧ state.points 1 = .exitEnter 0 :=
    exists_run_of_replay orderlyStep_of_try (by decide +kernel)
  exact ⟨state, run, point, ((join_and_exit_find_pcbs run).2 1 0 (.inl point)).1⟩

/-- The first process makes a second one, which makes a third one and exits;
the first process joins the second one, which leaves the table.  The exit of
the third process finds no parent. -/
theorem orphan_exit_dereferences_null : ∃ state, Run Step firstBoot
        (execute 0 1 ++ execute 1 2 ++ exitUntilAsleep 1 0#32 ++
          joinAsleep 0 1#32 ++ List.replicate 3 (.run 1)) state ∧
      state.next (.exit 2 0#32) = .error .nullPointer := by
  obtain ⟨state, run, found⟩ : ∃ state, Run Step firstBoot
        (execute 0 1 ++ execute 1 2 ++ exitUntilAsleep 1 0#32 ++
          joinAsleep 0 1#32 ++ List.replicate 3 (.run 1)) state ∧
      trouble (state.next (.exit 2 0#32)) = some .nullPointer :=
    exists_run_of_replay step_of_try (by decide +kernel)
  exact ⟨state, run, eq_error_of_trouble found⟩

/-! ## Removal -/

/-- A thread is queued on a semaphore of the PCB, or about to wait on its
`joinsem` or `exitsem`. -/
def WaitsOn (state : Processes) (thread number : Nat) : Prop :=
  (∃ pcb ∈ state.objects number,
      thread ∈ pcb.joinsem.queue ∨ thread ∈ pcb.exitsem.queue) ∨
    (∃ pid child, state.family.AtJoin thread pid child number) ∨
    state.family.AtExit thread number

/-- A thread which is about to wait on the `joinsem` of a process can still
join it. -/
theorem Sound.joinable (sound : Sound state) {pid : Pid} {child number : Nat}
    (join : state.family.AtJoin thread pid child number) :
    state.family.Joinable thread pid number := by
  obtain ⟨rfl, joins, -⟩ := sound.joins.atJoin join
  exact sound.joins.target thread pid number joins

theorem Sound.not_waitsOn (sound : Sound state) {number : Nat}
    (leaving : state.family.roles number = .leaving) :
    ¬state.WaitsOn thread number := by
  rintro (⟨pcb, present, queued⟩ | ⟨pid, child, join⟩ | exit)
  · have joins := sound.joins.members number _ (member_of_object present)
    rcases queued with queued | queued
    · obtain ⟨pid, waiting⟩ := joins.queue thread queued
      obtain ⟨-, -, -, -, -, stays⟩ := sound.joinable (.inr waiting)
      exact stays leaving
    · have resting := joins.exitQueue thread queued
      have same := sound.core.resting thread number resting
      subst same
      rw [leaving] at resting
      cases resting
  · obtain ⟨-, -, -, -, -, stays⟩ := sound.joinable join
    exact stays leaving
  · obtain ⟨rfl, -, -, stays⟩ := sound.core.atExit exit
    exact stays leaving

theorem waitOn_ok {number : Nat} {which : PcbSemaphore} {pcb : PCB}
    {taken : Semaphore Nat} {granted asleep : ProcessPoint}
    (present : state.objects number = some pcb)
    (awake : thread ∉ (pcb.semaphore which).queue)
    (available : (pcb.semaphore which).take = some taken) :
    state.waitOn number which thread granted asleep = .ok ((state.setObject number
        (pcb.setSemaphore taken which)).setPoint thread granted) := by
  simp only [waitOn, object, present, ok_bind, if_neg awake, available]

/-- A thread in `JoinWait` on a child which has called `JoinRelease` passes
at its next step. -/
theorem Sound.released (sound : Sound state) {pid : Pid} {child : Nat}
    (waiting : state.points thread = .joinWait pid child ∨
      ∃ waitedOn, state.points thread = .joinSleep pid child waitedOn)
    (signalled : (state.points child).role.Signalled) :
    ∃ after, Step state (.run thread) after ∧ after.points thread = .joinRead pid child := by
  have passes : ∀ number, state.family.AtJoin thread pid child number →
      ∃ after, state.waitOn number .joinsem thread (.joinRead pid child)
          (.joinSleep pid child number) = .ok after ∧
        after.points thread = .joinRead pid child := by
    intro number join
    obtain ⟨member, taken, present, awake, available⟩ :=
      sound.joins.released sound.core join signalled
    obtain ⟨pcb, found, rfl⟩ := Option.map_eq_some_iff.mp present
    exact ⟨_, waitOn_ok found awake available, update_self ..⟩
  rcases waiting with point | ⟨waitedOn, point⟩
  · have listed : state.pcb pid = some child :=
      sound.slot_of_join (by rw [point]; rfl)
    have join : state.family.AtJoin thread pid child child :=
      .inl ⟨congrArg ProcessPoint.role point, listed⟩
    simp only [Step, next, run, point, slot, listed, ok_bind]
    exact passes child join
  · have join : state.family.AtJoin thread pid child waitedOn :=
      .inr (congrArg ProcessPoint.role point)
    simp only [Step, next, run, point]
    exact passes waitedOn join

theorem signalOn_ok {number : Nat} {pcb : PCB} (present : state.objects number = some pcb)
    (which : PcbSemaphore) :
    state.signalOn number which = .ok (state.setObject number
      (pcb.setSemaphore (pcb.semaphore which).release which)) := by
  simp only [signalOn, object, present, ok_bind]
  rfl

theorem Sound.exists_object (sound : Sound state) {pid : Pid} {number : Nat}
    (listed : state.pcb pid = some number) : ∃ pcb, state.objects number = some pcb := by
  obtain ⟨member, present, -⟩ := sound.core.entry pid number listed
  obtain ⟨pcb, found, -⟩ := Option.map_eq_some_iff.mp present
  exact ⟨pcb, found⟩

/-- A thread which has passed reads the exit code of the child. -/
theorem Sound.join_reads (sound : Sound state) {pid : Pid} {child : Nat}
    (point : state.points thread = .joinRead pid child) :
    ∃ pcb after, state.objects child = some pcb ∧ Step state (.run thread) after ∧
      after.points thread = .joinReturn child pcb.exitcode := by
  have listed := sound.slot_of_join (by rw [point]; rfl)
  obtain ⟨pcb, present⟩ := sound.exists_object listed
  have taken : Step state (.run thread) ((state.setObject child
      (pcb.setSemaphore (pcb.semaphore .exitsem).release .exitsem)).setPoint thread
        (.joinReturn child pcb.exitcode)) := by
    simp only [Step, next, run, point, joinRead, slot, listed, object,
      present, ok_bind, signalOn_ok present]
    rfl
  exact ⟨pcb, _, present, taken, update_self ..⟩

/-- In every run in which a parent joins a child once, a PCB is not deleted
while a thread waits on its semaphores, and a thread which waits for a child
is released by the child. -/
theorem removed_pcb_has_no_waiters
    {freshWords : Fin (numWords maxProcess) → Word} {freshParentID : Word}
    (run : Run JoinsOnceStep (boot freshWords freshParentID) events state) :
    (∀ remover number thread, state.points remover = .exitClear →
      state.pcb (state.pids remover) = some number →
      ¬state.WaitsOn thread number) ∧
    ∀ thread pid child,
      (state.points thread = .joinWait pid child ∨
        ∃ waitedOn, state.points thread = .joinSleep pid child waitedOn) →
      (state.points child).role.Signalled →
      ∃ after, Step state (.run thread) after ∧ after.points thread = .joinRead pid child := by
  have sound := sound_of_run run
  refine ⟨?_, fun _ _ _ => sound.released⟩
  intro remover number thread point listed
  rw [sound.home (by rw [point]; trivial)] at listed
  cases listed
  exact sound.not_waitsOn (congrArg ProcessPoint.role point)

theorem removed_pcb_has_no_waiters_after_join : ∃ state, Run JoinsOnceStep firstBoot
        (execute 0 1 ++ exitUntilAsleep 1 7#32 ++ joinAsleep 0 1#32 ++
          List.replicate 2 (.run 1)) state ∧
      state.points 1 = .exitClear ∧ ¬state.WaitsOn 0 1 := by
  obtain ⟨state, run, point, listed⟩ : ∃ state, Run OrderlyStep firstBoot
        (execute 0 1 ++ exitUntilAsleep 1 7#32 ++ joinAsleep 0 1#32 ++
          List.replicate 2 (.run 1)) state ∧
      state.points 1 = .exitClear ∧
      state.pcb (state.pids 1) = some 1 :=
    exists_run_of_replay orderlyStep_of_try (by decide +kernel)
  have once := run.mono fun _ _ _ _ taken => taken.1
  exact ⟨state, once, point, (removed_pcb_has_no_waiters once).1 1 1 0 point listed⟩

/-- A process joins its child a second time after it has released the child,
and before the child has removed itself: it sleeps on a semaphore which is
about to be deleted. -/
theorem second_join_sleeps_on_removed_pcb : ∃ state, Run Step firstBoot
        (execute 0 1 ++ exitUntilAsleep 1 0#32 ++ joinAsleep 0 1#32 ++
          .join 0 1#32 :: List.replicate 3 (.run 0) ++
          List.replicate 2 (.run 1)) state ∧
      state.points 1 = .exitClear ∧
      state.pcb (state.pids 1) = some 1 ∧ state.WaitsOn 0 1 := by
  obtain ⟨state, run, point, listed, queued⟩ : ∃ state, Run Step firstBoot
        (execute 0 1 ++ exitUntilAsleep 1 0#32 ++ joinAsleep 0 1#32 ++
          .join 0 1#32 :: List.replicate 3 (.run 0) ++
          List.replicate 2 (.run 1)) state ∧
      state.points 1 = .exitClear ∧
      state.pcb (state.pids 1) = some 1 ∧
      ∃ pcb ∈ state.objects 1, 0 ∈ pcb.joinsem.queue ∨ 0 ∈ pcb.exitsem.queue :=
    exists_run_of_replay step_of_try (by decide +kernel)
  exact ⟨state, run, point, listed, .inl queued⟩

/-! ## Exit codes -/

/-- In every run in which a parent joins a child once and exits after its
children, a join returns the exit code of the child which had the slot at
its start, and the slot belongs to this child until the code has been
read. -/
theorem join_returns_exit_code
    {freshWords : Fin (numWords maxProcess) → Word} {freshParentID : Word}
    (run : Run OrderlyStep (boot freshWords freshParentID) events state) :
    (∀ thread child exitcode,
      state.points thread = .joinReturn child exitcode →
      state.creator child = some thread ∧
        .exit child exitcode ∈ events) ∧
    ∀ thread pid child,
      (state.points thread).role.joins = some (pid, child) →
      state.pcb pid = some child := by
  have orderly := orderly_of_run run
  refine ⟨?_, fun _ _ _ => orderly.slot_of_join⟩
  intro thread child exitcode point
  exact orderly.told.returned thread child exitcode (congrArg ProcessPoint.role point)

theorem join_returns_exit_code_seven : ∃ state, Run OrderlyStep firstBoot
        (execute 0 1 ++ exitUntilAsleep 1 7#32 ++ .join 0 1#32 ::
          List.replicate 4 (.run 0)) state ∧
      state.points 0 = .joinReturn 1 7#32 ∧ state.creator 1 = some 0 := by
  obtain ⟨state, run, point⟩ : ∃ state, Run OrderlyStep firstBoot
        (execute 0 1 ++ exitUntilAsleep 1 7#32 ++ .join 0 1#32 ::
          List.replicate 4 (.run 0)) state ∧
      state.points 0 = .joinReturn 1 7#32 :=
    exists_run_of_replay orderlyStep_of_try (by decide +kernel)
  exact ⟨state, run, point, ((join_returns_exit_code run).1 0 1 7#32 point).1⟩

/-- A process joins its child a second time, and before it waits the child
removes itself and its slot is given to a grandchild, which exits: the join
returns the exit code of the grandchild. -/
theorem second_join_returns_code_of_grandchild :
    ∃ events state, Run Step firstBoot events state ∧
      state.points 0 = .joinReturn 1 9#32 ∧
      state.pcb ⟨1, by decide⟩ = some 3 ∧
      .exit 1 9#32 ∉ events := by
  obtain ⟨state, run, point, listed⟩ : ∃ state, Run Step firstBoot
        (execute 0 1 ++ execute 0 2 ++ exitUntilAsleep 1 7#32 ++
          joinAsleep 0 1#32 ++ [.join 0 1#32] ++
          List.replicate 3 (.run 1) ++ execute 2 3 ++
          exitUntilAsleep 3 9#32 ++ List.replicate 4 (.run 0)) state ∧
      state.points 0 = .joinReturn 1 9#32 ∧
      state.pcb ⟨1, by decide⟩ = some 3 :=
    exists_run_of_replay step_of_try (by decide +kernel)
  exact ⟨_, state, run, point, listed, by decide⟩

end Orderly

end Processes

end Nachos
