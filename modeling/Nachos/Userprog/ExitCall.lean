import Nachos.Userprog.Exception
import Nachos.Userprog.JoinExit

/-!
# The system call `Exit`

`SC_Exit` calls `ExitUpdate` only for the exit status 0.  With any other
status it is an empty system call: the thread goes on in the user program,
and nobody learns the status.  With the status 0 the thread is gone, and a
parent which joins it passes when it has signalled and finds 0 in `r2`.
-/

open Words Semaphores Transition Calls Function

namespace Nachos

open Handler

/-- How the kernel answers a handler up to its first call which does not
only use registers. -/
def firstCall : Program.Interpreter KernelCall KernelCall.Reply Registers (Option HostCall)
  | .readRegister num, registers => .ok (registers num, registers)
  | .writeRegister num value, registers =>
    .ok ((), update registers num value)
  | .host call, _ => .error (some call)
  | _, _ => .error none

/-- A thread executes an instruction of its program, makes a system call, or
goes on in the kernel. -/
inductive UserEvent where
  | instruction (thread : Nat)
  | exec (thread : Nat) (opened itself : Bool)
  | join (thread : Nat) (pid : Word)
  | exit (thread : Nat) (registers : Registers)
  | run (thread : Nat)

/-- The event is an instruction of the program of the thread. -/
def UserEvent.IsUserOf (thread : Nat) : UserEvent → Prop
  | .instruction actor => actor = thread
  | .exec actor _ _ => actor = thread
  | .join actor _ => actor = thread
  | .exit actor _ => actor = thread
  | .run _ => False

/-- The event is not a join of a child which an earlier join has released. -/
def UserEvent.JoinsOnce (family : Family) : UserEvent → Prop
  | .join thread pid => family.JoinsOnce (.join thread pid)
  | _ => True

instance (family : Family) : DecidablePred (UserEvent.JoinsOnce family)
  | .join thread pid => inferInstanceAs (Decidable (family.JoinsOnce (.join thread pid)))
  | .instruction _ => inferInstanceAs (Decidable True)
  | .exec _ _ _ => inferInstanceAs (Decidable True)
  | .exit _ _ => inferInstanceAs (Decidable True)
  | .run _ => inferInstanceAs (Decidable True)

namespace Processes

/-- What `SC_Exit` does with the process table. -/
def exitCall (state : Processes) (thread : Nat) (registers : Registers) :
    Except Trouble Processes :=
  match scExit.run firstCall registers with
  | .ok _ => .ok state
  | .error (some (.exitUpdate exitcode)) => state.exitUpdate thread exitcode
  | .error _ => .error .disabled

def userNext (state : Processes) : UserEvent → Except Trouble Processes
  | .instruction thread =>
    match state.points thread with
    | .user _ => .ok state
    | _ => .error .disabled
  | .exec thread opened itself => state.next (.exec thread opened itself)
  | .join thread pid => state.next (.join thread pid)
  | .exit thread registers =>
    match state.points thread with
    | .user _ => state.exitCall thread registers
    | _ => .error .disabled
  | .run thread => state.next (.run thread)

def UserStep (before : Processes) (event : UserEvent) (after : Processes) : Prop :=
  before.userNext event = .ok after

/-- A step in which a parent joins a child at most once. -/
def OnceUserStep (before : Processes) (event : UserEvent) (after : Processes) : Prop :=
  UserStep before event after ∧ event.JoinsOnce before.family

theorem scExit_run (registers : Registers) :
    scExit.run firstCall registers = if registers r4 ≠ 0#32 then .ok ((), registers)
      else .error (some (.exitUpdate (registers r4))) := by
  change Program.run firstCall (if registers r4 ≠ 0#32 then pure () else _) registers = _
  split_ifs <;> rfl

theorem exitCall_of_ne_zero {registers : Registers}
    (notZero : registers r4 ≠ 0#32) (state : Processes) (thread : Nat) :
    state.exitCall thread registers = .ok state := by
  simp only [exitCall, scExit_run, if_pos notZero]

theorem exitCall_of_zero {registers : Registers}
    (zero : registers r4 = 0#32) (state : Processes) (thread : Nat) :
    state.exitCall thread registers = state.exitUpdate thread 0#32 := by
  simp only [exitCall, scExit_run, zero, ne_eq, not_true_eq_false, if_false]

/-- A step of the user programs leaves the table as it is, or is a step of
the table in which a thread can exit only with the code 0. -/
theorem UserStep.inv {state after : Processes} {event : UserEvent}
    (taken : UserStep state event after) :
    after = state ∨ ∃ event', Step state event' after ∧
      (∀ thread exitcode, event' = .exit thread exitcode → exitcode = 0#32) ∧
      (event.JoinsOnce state.family → state.family.JoinsOnce event') := by
  cases event with
  | instruction thread =>
    simp only [UserStep, userNext] at taken
    split at taken
    · cases taken
      exact .inl rfl
    · cases taken
  | exec thread opened itself =>
    exact .inr ⟨.exec thread opened itself, taken, nofun, id⟩
  | join thread pid => exact .inr ⟨.join thread pid, taken, nofun, id⟩
  | run thread => exact .inr ⟨.run thread, taken, nofun, id⟩
  | exit thread registers =>
    simp only [UserStep, userNext] at taken
    split at taken
    · rename_i point
      by_cases zero : registers r4 = 0#32
      · rw [exitCall_of_zero zero] at taken
        refine .inr ⟨.exit thread 0#32, ?_, ?_, id⟩
        · simp only [Step, next, point]
          exact taken
        · intro _ _ same
          cases same
          rfl
      · rw [exitCall_of_ne_zero zero] at taken
        cases taken
        exact .inl rfl
    · cases taken

end Processes

/-! ## Exit codes which are all zero -/

namespace Family

/-- Every exit code is 0. -/
structure Zero (family : Family) : Prop where
  members : ∀ number member, family.members number = some member → member.exitcode = 0#32
  returned : ∀ thread child exitcode,
    family.roles thread = .returning child exitcode → exitcode = 0#32

variable {family : Family}

theorem Zero.setRole (zero : Zero family) (thread : Nat) {role : Role}
    (returned : ∀ child exitcode, role = .returning child exitcode → exitcode = 0#32) :
    Zero (family.setRole thread role) := by
  refine ⟨zero.members, ?_⟩
  simp only [Family.setRole]
  exact update_cases returned fun other _ => zero.returned other

theorem Zero.setMember (zero : Zero family) {number : Nat} {changed : Member}
    (exitcode : changed.exitcode = 0#32) :
    Zero (family.setMember number changed) := by
  refine ⟨?_, zero.returned⟩
  simp only [Family.setMember]
  refine update_cases ?_ fun other _ => zero.members other
  rintro _ ⟨⟩
  exact exitcode

variable {thread : Nat}

section

variable (zero : Zero family)
include zero

theorem Zero.update {number : Nat} {member changed : Member} {role : Role}
    (present : family.members number = some member) (same : changed.exitcode = member.exitcode)
    (returned : ∀ child exitcode, role = .returning child exitcode → exitcode = 0#32) :
    Zero ((family.setMember number changed).setRole thread role) :=
  (zero.setMember (same.trans (zero.members number member present))).setRole thread returned

theorem Zero.createMember {pid : Pid} : Zero (family.createMember thread pid) := by
  have made : Zero (family.setMember family.created
      (.new pid (pidWord (family.pids thread)))) := zero.setMember rfl
  have forking : ∀ child exitcode,
      Role.forking pid family.created = .returning child exitcode →
      exitcode = 0#32 := nofun
  have both := made.setRole thread forking
  exact ⟨both.members, both.returned⟩

theorem Zero.forkMember {child : Nat} {pid : Pid} : Zero (family.forkMember thread pid child) := by
  have free : ∀ child exitcode, Role.free = .returning child exitcode → exitcode = 0#32 := nofun
  have both := (zero.setRole child free).setRole thread free
  exact ⟨both.members, both.returned⟩

theorem Zero.removeMember {number : Nat} : Zero (family.removeMember thread number) := by
  have gone : ∀ child exitcode, Role.gone = .returning child exitcode → exitcode = 0#32 := nofun
  refine ⟨?_, (zero.setRole thread gone).returned⟩
  intro other member present
  obtain ⟨-, present⟩ := of_update_eq present (by simp)
  exact zero.members other member present

theorem Zero.step {after : Family} {event : ProcessEvent} (taken : Step family event after)
    (exits : ∀ thread exitcode, event = .exit thread exitcode → exitcode = 0#32) :
    Zero after := by
  cases taken with
  | stay _ => exact zero
  | create _ _ => exact zero.createMember
  | fork _ => exact zero.forkMember
  | joinStart _ _ _ _ _ | joinReturn _ | exitCounted _ => exact zero.setRole _ nofun
  | joinSleep _ present _ _ | joinPass _ present _ _ | exitSignal _ _ present
  | exitSleep _ present _ _ | exitPass _ present _ _ => exact zero.update present rfl nofun
  | joinRead _ _ present =>
    refine zero.update present rfl ?_
    intro child exitcode same
    cases same
    exact zero.members _ _ present
  | exitStart _ _ _ _ _ _ =>
    exact (zero.setMember (exits _ _ rfl)).setRole _ nofun
  | clear _ _ => exact zero.removeMember

end

/-! ## Threads which have left their programs -/

/-- The thread is in `ExitUpdate` or has finished. -/
def Departed (family : Family) (thread : Nat) : Prop :=
  (family.roles thread).Exiting ∨ family.roles thread = .gone

theorem Departed.setRole {actor : Nat} {role : Role} (departed : family.Departed thread)
    (stays : family.Departed actor → role.Exiting ∨ role = .gone) :
    (family.setRole actor role).Departed thread := by
  revert departed
  simp only [Departed, Family.setRole]
  exact update_cases stays (fun _ _ => id) thread

theorem Departed.step {after : Family} (departed : family.Departed thread)
    (core : Core family) {event : ProcessEvent}
    (taken : Step family event after) :
    after.Departed thread := by
  have other : ∀ {actor : Nat} {role : Role}, ¬family.Departed actor →
      (family.setRole actor role).Departed thread :=
    fun busy => departed.setRole fun leaving => absurd leaving busy
  have leaves : ∀ {actor : Nat} {role : Role}, role.Exiting →
      (family.setRole actor role).Departed thread :=
    fun exiting => departed.setRole fun _ => .inl exiting
  have busy : ∀ {actor : Nat} {role : Role}, family.roles actor = role →
      ¬role.Exiting → role ≠ .gone → ¬family.Departed actor := by
    rintro actor role rfl stays here (exiting | gone)
    · exact stays exiting
    · exact here gone
  have joining : ∀ {actor pid child number},
      family.AtJoin actor pid child number → ¬family.Departed actor := by
    rintro actor pid child number (⟨joining, -⟩ | waiting)
    · exact busy joining id (by simp)
    · exact busy waiting id (by simp)
  cases taken with
  | stay _ => exact departed
  | create role _ | joinStart role _ _ _ _ | joinRead role _ _ | joinReturn role =>
    exact other (busy role id (by simp))
  | @fork actor pid child forking =>
    obtain ⟨-, absent, -⟩ := core.forking actor pid child forking
    have notActor : thread ≠ actor := by
      rintro rfl
      exact busy forking id (by simp) departed
    have notChild : thread ≠ child := by
      rintro rfl
      exact busy absent id (by simp) departed
    simp only [Departed, forkMember, update_of_ne notActor, update_of_ne notChild]
    exact departed
  | joinSleep join _ _ _ | joinPass join _ _ _ => exact other (joining join)
  | exitStart _ _ _ _ _ _ | exitCounted _ | exitSignal _ _ _ | exitSleep _ _ _ _
  | exitPass _ _ _ _ => exact leaves trivial
  | clear _ _ => exact departed.setRole fun _ => .inr rfl

end Family

namespace Processes

/-! ## The contract of `Exit` -/

/-- A thread which waits for the child passes when the child has signalled,
and then the join returns the status. -/
structure JoinGives (state : Processes) (parent child : Nat) (exitstatus : Word) : Prop where
  passes : ∀ pid,
    (state.points parent = .joinWait pid child ∨
      ∃ waitedOn, state.points parent = .joinSleep pid child waitedOn) →
    (state.points child).role.Signalled →
    ∃ after, UserStep state (.run parent) after ∧ after.points parent = .joinRead pid child
  reads : ∀ pid, state.points parent = .joinRead pid child →
    ∃ after, UserStep state (.run parent) after ∧ after.points parent = .joinReturn child exitstatus
  returns : ∀ exitcode, state.points parent = .joinReturn child exitcode →
    ∃ after, UserStep state (.run parent) after ∧ after.points parent = .user exitstatus

/-- After a process other than the first one has called `Exit` with this
status, its thread executes no instruction of its program, and a parent which
joins the process gets the status in `r2`, as long as parents join their
children once. -/
def ExitContract (exitstatus : Word) : Prop :=
  ∀ freshWords freshParentID before start thread registers middle later
      finish,
    Run OnceUserStep (boot freshWords freshParentID) before start →
    (start.pids thread).val ≠ 0 →
    registers r4 = exitstatus →
    UserStep start (.exit thread registers) middle →
    Run OnceUserStep middle later finish →
    (∀ event ∈ later, ¬event.IsUserOf thread) ∧ ∀ parent, JoinGives finish parent thread exitstatus

/-- What user steps preserve. -/
structure Silent (state : Processes) : Prop extends Sound state where
  zero : Family.Zero state.family

theorem boot_silent (freshWords : Fin (numWords maxProcess) → Word)
    (freshParentID : Word) : Silent (boot freshWords freshParentID) := by
  refine ⟨boot_sound _ _, ?_, ?_⟩
  · intro number member present
    obtain ⟨rfl, rfl⟩ := boot_member freshWords freshParentID present
    rfl
  · intro thread child exitcode returning
    exact (boot_role_elim _ _ returning nofun nofun).elim

variable {after state : Processes}

theorem Silent.step {event : UserEvent} (silent : Silent state)
    (taken : OnceUserStep state event after) :
    Silent after := by
  rcases taken.1.inv with rfl | ⟨event', step, zero, once⟩
  · exact silent
  · have follows := step.follows silent.bits silent.core
    exact ⟨silent.toSound.step ⟨step, once taken.2⟩, silent.zero.step follows.step zero⟩

/-- The semaphores of the process table carry a join to its end, and every
code it reads is 0. -/
theorem Silent.joinGives (silent : Silent state) (parent child : Nat) :
    JoinGives state parent child 0#32 where
  passes _ := silent.toSound.released
  reads pid point := by
    obtain ⟨pcb, after, present, taken, returns⟩ := silent.toSound.join_reads point
    refine ⟨after, taken, ?_⟩
    rw [returns, show pcb.exitcode = 0#32 from
      silent.zero.members child _ (member_of_object present)]
  returns exitcode point := by
    refine ⟨state.setPoint parent (.user exitcode), ?_, ?_⟩
    · simp only [UserStep, userNext, next, run, point]
    · rw [silent.zero.returned parent child exitcode (congrArg ProcessPoint.role point)]
      exact update_self ..

theorem UserStep.in_user_mode {event : UserEvent} {thread : Nat}
    (taken : UserStep state event after) (user : event.IsUserOf thread) :
    (state.points thread).role = .free := by
  cases event with
  | run actor => exact user.elim
  | instruction actor | exec actor _ _ | join actor _ | exit actor _ =>
    cases user
    simp only [UserStep, userNext, next] at taken
    split at taken
    · rename_i point
      rw [point]
      rfl
    · cases taken

theorem departed_step {event : UserEvent} {thread : Nat}
    (silent : Silent state) (departed : state.family.Departed thread)
    (taken : UserStep state event after) :
    ¬event.IsUserOf thread ∧ after.family.Departed thread := by
  refine ⟨?_, ?_⟩
  · intro user
    have free : state.family.roles thread = .free :=
      taken.in_user_mode user
    rw [Family.Departed, free] at departed
    rcases departed with exiting | gone
    · exact exiting
    · cases gone
  · rcases taken.inv with rfl | ⟨event', step, -, -⟩
    · exact departed
    · exact departed.step silent.core (step.follows silent.bits silent.core).step

/-- A thread which has left its program does not come back. -/
theorem departed_run {middle finish : Processes} {later : List UserEvent}
    {thread : Nat} (run : Run OnceUserStep middle later finish)
    (silent : Silent middle) (departed : middle.family.Departed thread) :
    (∀ event ∈ later, ¬event.IsUserOf thread) ∧ Silent finish := by
  have all := run.history (fun past state =>
      (∀ event ∈ past, ¬event.IsUserOf thread) ∧ Silent state ∧ state.family.Departed thread)
    ⟨nofun, silent, departed⟩ (by
      rintro past before event after ⟨earlier, silent, departed⟩ taken
      obtain ⟨notUser, departed'⟩ := departed_step silent departed taken.1
      refine ⟨?_, silent.step taken, departed'⟩
      intro other member
      rcases List.mem_append.mp member with old | new
      · exact earlier other old
      · rw [List.mem_singleton.mp new]
        exact notUser)
  exact ⟨all.1, all.2.1⟩

theorem exitUpdate_departs {thread : Nat} {exitcode : Word}
    (success : state.exitUpdate thread exitcode = .ok after) :
    after.family.Departed thread := by
  have departs : ∀ {state : Processes} {point : ProcessPoint},
      point.role.Exiting ∨ point.role = .gone →
      (state.setPoint thread point).family.Departed thread := by
    intro state point leaves
    rw [family_setPoint]
    simp only [Family.Departed, Family.setRole, update_self]
    exact leaves
  unfold exitUpdate at success
  split_ifs at success
  · obtain ⟨own, -, success⟩ := bind_ok_inv success
    obtain ⟨pcb, -, success⟩ := bind_ok_inv success
    obtain ⟨parent, -, success⟩ := bind_ok_inv success
    cases success
    exact departs (.inl trivial)
  · cases success
    exact departs (.inr rfl)

theorem exitContract_zero : ExitContract 0#32 := by
  intro freshWords freshParentID before start thread registers middle
    later finish reached _ zero taken rest
  have silent : Silent start :=
    reached.invariant Silent (fun _ _ => trivial) (boot_silent _ _)
      fun _ _ _ silent _ taken => silent.step taken
  have departed : middle.family.Departed thread := by
    simp only [UserStep, userNext] at taken
    split at taken
    · rw [exitCall_of_zero zero] at taken
      exact exitUpdate_departs taken
    · cases taken
  obtain ⟨quiet, silent'⟩ :=
    departed_run rest (silent.step ⟨taken, trivial⟩) departed
  exact ⟨quiet, fun parent => silent'.joinGives parent thread⟩

/-- The first process makes a second one. -/
def firstChild : List UserEvent :=
  .exec 0 true false :: List.replicate 5 (.run 0) ++ [.run 1]

def tryUserStep (state : Processes) (event : UserEvent) :
    Option Processes :=
  if event.JoinsOnce state.family then (state.userNext event).toOption else none

theorem onceUserStep_of_try (before : Processes) (event : UserEvent)
    (after : Processes) (taken : before.tryUserStep event = some after) :
    OnceUserStep before event after := by
  unfold tryUserStep at taken
  split_ifs at taken with once
  exact ⟨eq_ok_of_toOption taken, once⟩

theorem firstChild_runs :
    ∃ state, Run OnceUserStep firstBoot firstChild state ∧
      (state.pids 1).val ≠ 0 ∧ state.points 1 = .user 0#32 :=
  exists_run_of_replay onceUserStep_of_try (by decide +kernel)

/-- With another status than 0 the thread goes on. -/
theorem instruction_after_exit (registers : Registers) (notZero : registers r4 ≠ 0#32) :
    ∃ state, Run OnceUserStep firstBoot firstChild state ∧
      (state.pids 1).val ≠ 0 ∧
      UserStep state (.exit 1 registers) state ∧
      UserStep state (.instruction 1) state := by
  obtain ⟨state, run, notMain, point⟩ := firstChild_runs
  refine ⟨state, run, notMain, ?_, ?_⟩
  · simp only [UserStep, userNext, point]
    exact exitCall_of_ne_zero notZero state 1
  · simp only [UserStep, userNext, point]

/-- `Exit` keeps its contract for the status 0 and for no other one. -/
theorem exit_contract_iff (exitstatus : Word) : ExitContract exitstatus ↔ exitstatus = 0#32 := by
  constructor
  · intro contract
    by_contra notZero
    obtain ⟨state, run, notMain, exit, instruction⟩ :=
      instruction_after_exit (fun _ => exitstatus) notZero
    exact (contract _ _ _ _ _ _ _ _ _ run notMain rfl exit
      (.single ⟨instruction, trivial⟩)).1 _ (List.mem_singleton_self _) rfl
  · rintro rfl
    exact exitContract_zero

/-- The child exits with the status 0 while its parent waits for it.  The
parent, which has the number of the child in `r2`, gets 0. -/
theorem exit_contract_iff_join_returns :
    ∃ start middle finish after,
      Run OnceUserStep firstBoot (firstChild ++ .join 0 1#32 :: List.replicate 3 (.run 0)) start ∧
      start.points 0 = .joinSleep ⟨1, by decide⟩ 1 1 ∧
      UserStep start (.exit 1 fun _ => 0#32) middle ∧
      Run OnceUserStep middle (List.replicate 4 (.run 1) ++ List.replicate 2 (.run 0)) finish ∧
      UserStep finish (.run 0) after ∧ after.points 0 = .user 0#32 := by
  obtain ⟨start, reached, asleep, notMain, middle, exit, finish, replayed, point⟩ :
      ∃ start, Run OnceUserStep firstBoot
          (firstChild ++ .join 0 1#32 :: List.replicate 3 (.run 0)) start ∧
        start.points 0 = .joinSleep ⟨1, by decide⟩ 1 1 ∧ (start.pids 1).val ≠ 0 ∧
        ∃ middle ∈ start.tryUserStep (.exit 1 fun _ => 0#32),
        ∃ finish ∈ replay tryUserStep middle
            (List.replicate 4 (UserEvent.run 1) ++ List.replicate 2 (UserEvent.run 0)),
          finish.points 0 = .joinReturn 1 0#32 :=
    exists_run_of_replay onceUserStep_of_try (by decide +kernel)
  have exited := (onceUserStep_of_try _ _ _ exit).1
  have rest := (run_of_replay replayed).mono fun _ _ _ _ => onceUserStep_of_try _ _ _
  have contract := (exit_contract_iff 0#32).mpr rfl
  obtain ⟨after, returned, result⟩ := ((contract _ _ _ _ _ _ _ _ _ reached notMain rfl exited
    rest).2 0).returns 0#32 point
  exact ⟨start, middle, finish, after, reached, asleep, exited, rest, returned, result⟩

theorem exit_one_returns_to_program :
    ∃ state, Run OnceUserStep firstBoot firstChild state ∧
      (state.pids 1).val ≠ 0 ∧
      Run OnceUserStep state [.exit 1 fun _ => 1#32, .instruction 1] state := by
  obtain ⟨state, run, notMain, exit, instruction⟩ :=
    instruction_after_exit (fun _ => 1#32) (by decide)
  exact ⟨state, run, notMain, (Run.single ⟨exit, trivial⟩).snoc ⟨instruction, trivial⟩⟩

end Processes

end Nachos
