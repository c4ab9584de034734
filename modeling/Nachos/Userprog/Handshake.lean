import Nachos.Userprog.Family

/-!
# The handshake between parent and child

As long as a parent joins a child at most once, at most one thread takes
part in a join on a child, the child cannot leave before that thread has
read its exit code, and the signal of the child reaches it.
-/

open Words Semaphores Transition Function

namespace Nachos

namespace Role

variable {role : Role}

section

variable (plain : role.Plain)
include plain

theorem Plain.not_signalled : ¬role.Signalled := by
  cases role <;> first | exact id | exact plain.elim

theorem Plain.ne_leaving : role ≠ .leaving := by
  rintro rfl
  exact plain

theorem Plain.ne_passed (pid : Pid) (child : Nat) : role ≠ .passed pid child := by
  rintro rfl
  exact plain

theorem Plain.ne_waiting (pid : Pid) (child number : Nat) : role ≠ .waiting pid child number := by
  rintro rfl
  exact plain

theorem Plain.ne_resting (number : Nat) : role ≠ .resting number := by
  rintro rfl
  exact plain

end

theorem live_of_joins {target : Pid × Nat} (joins : role.joins = some target) :
    role.Live := by
  cases role <;> trivial

theorem not_signalled_of_joins {target : Pid × Nat}
    (joins : role.joins = some target) : ¬role.Signalled := by
  cases role <;> first | exact id | cases joins

theorem ne_resting_of_joins {target : Pid × Nat} (joins : role.joins = some target) (number : Nat) :
    role ≠ .resting number := by
  rintro rfl
  cases joins

theorem joins_of_signalled (signalled : role.Signalled) : role.joins = none := by
  cases role <;> first | rfl | exact signalled.elim

end Role

namespace Family

/-- A member which a thread can still join. -/
def Joinable (family : Family) (thread : Nat) (pid : Pid) (child : Nat) : Prop :=
  family.table pid = some child ∧
    ∃ member, family.members child = some member ∧
      pidWord (family.pids thread) = member.parentID ∧
      member.exitsem.value = 0 ∧ family.roles child ≠ .leaving

/-- The state of the two semaphores of a member, by what the child and the
thread which joins it have done. -/
structure MemberJoins (family : Family) (child : Nat)
    (member : Member) : Prop where
  quiet : ¬(family.roles child).Signalled →
    member.joinsem.value = 0 ∧ member.exitsem.value = 0 ∧
      ∀ thread pid, family.roles thread ≠ .passed pid child
  ready : (family.roles child).Signalled → member.exitsem.value = 0 →
    family.roles child ≠ .leaving →
    (∀ thread pid, family.roles thread ≠ .passed pid child) →
    member.joinsem.value ≠ 0 ∧ member.joinsem.queue = []
  queue : ∀ thread ∈ member.joinsem.queue, ∃ pid, family.roles thread = .waiting pid child child
  nodup : member.joinsem.queue.Nodup
  exitQueue : ∀ thread ∈ member.exitsem.queue, family.roles thread = .resting child

structure Joins (family : Family) : Prop where
  target : ∀ thread pid child,
    (family.roles thread).joins = some (pid, child) →
    family.Joinable thread pid child
  waited : ∀ thread pid child number,
    family.roles thread = .waiting pid child number → number = child
  members : ∀ child member, family.members child = some member → family.MemberJoins child member

variable {child : Nat} {family : Family} {pid : Pid} {thread : Nat}

theorem Joins.unique (joins : Joins family) (core : Core family) {other : Nat}
    {otherPid : Pid} (first : (family.roles thread).joins = some (pid, child))
    (second : (family.roles other).joins = some (otherPid, child)) :
    thread = other := by
  obtain ⟨-, member, present, parent, -⟩ :=
    joins.target thread pid child first
  obtain ⟨-, member', present', parent', -⟩ :=
    joins.target other otherPid child second
  rw [present] at present'
  cases present'
  apply core.unique (Role.live_of_joins first) (Role.live_of_joins second)
  exact pidWord_injective (parent.trans parent'.symm)

variable {number : Nat}

theorem Joins.atJoin (joins : Joins family) (join : family.AtJoin thread pid child number) :
    number = child ∧
      (family.roles thread).joins = some (pid, child) ∧
      (∀ pid' child', family.roles thread ≠ .passed pid' child') := by
  rcases join with ⟨joining, listed⟩ | waiting
  · have target := joins.target thread pid child (by rw [joining]; rfl)
    rw [target.1] at listed
    refine ⟨(Option.some.inj listed).symm, by rw [joining]; rfl, ?_⟩
    rw [joining]
    nofun
  · refine ⟨joins.waited thread pid child number waiting, by rw [waiting]; rfl, ?_⟩
    rw [waiting]
    nofun

variable {after : Family} {member : Member}

theorem Joins.exit_zero (joins : Joins family) {joiner : Nat}
    (present : family.members child = some member)
    (found : (family.roles joiner).joins = some (pid, child)) :
    member.exitsem.value = 0 := by
  obtain ⟨-, other, present', -, zero, -⟩ :=
    joins.target joiner pid child found
  rw [present] at present'
  cases present'
  exact zero

theorem MemberJoins.congr (before : family.MemberJoins child member)
    (roles : after.roles = family.roles) :
    after.MemberJoins child member := by
  refine ⟨?_, ?_, ?_, before.nodup, ?_⟩
  · rw [roles]
    exact before.quiet
  · rw [roles]
    exact before.ready
  · rw [roles]
    exact before.queue
  · rw [roles]
    exact before.exitQueue

variable {role : Role}

section

variable (before : family.MemberJoins child member)
include before

section

variable (roles : after.roles = update family.roles thread role)
include roles

/-- The threads in the queues of a member keep their roles when another
thread changes its own. -/
theorem MemberJoins.queue_of_roles (awake : thread ∉ member.joinsem.queue) :
    ∀ joiner ∈ member.joinsem.queue, ∃ pid, after.roles joiner = .waiting pid child child := by
  intro joiner queued
  obtain ⟨pid, found⟩ := before.queue joiner queued
  refine ⟨pid, ?_⟩
  rw [roles, update_of_ne (ne_of_mem_of_not_mem queued awake)]
  exact found

theorem MemberJoins.exitQueue_of_roles (awake : thread ∉ member.exitsem.queue) :
    ∀ leaver ∈ member.exitsem.queue, after.roles leaver = .resting child := by
  intro leaver queued
  rw [roles, update_of_ne (ne_of_mem_of_not_mem queued awake)]
  exact before.exitQueue leaver queued

/-- A member stays as it is if another thread changes to a role which has
nothing to do with it. -/
theorem MemberJoins.frame
    (own : child = thread → ¬(family.roles thread).Signalled ∧ ¬role.Signalled)
    (passed : ∀ pid, family.roles thread ≠ .passed pid child ∧ role ≠ .passed pid child)
    (joinAwake : thread ∉ member.joinsem.queue) (exitAwake : thread ∉ member.exitsem.queue) :
    after.MemberJoins child member := by
  have other : ∀ other, other ≠ thread → after.roles other = family.roles other := by
    intro other different
    rw [roles, update_of_ne different]
  have new : after.roles thread = role := by
    rw [roles, update_self]
  have passed' : ∀ joiner pid, after.roles joiner ≠ .passed pid child ↔
      family.roles joiner ≠ .passed pid child := by
    rw [roles]
    exact update_cases (fun pid => iff_of_true (passed pid).2 (passed pid).1) fun _ _ _ => Iff.rfl
  refine ⟨?_, ?_, before.queue_of_roles roles joinAwake, before.nodup,
    before.exitQueue_of_roles roles exitAwake⟩
  · intro unsignalled
    have wasUnsignalled : ¬(family.roles child).Signalled := by
      by_cases same : child = thread
      · rw [same]
        exact (own same).1
      · rw [other child same] at unsignalled
        exact unsignalled
    obtain ⟨joinZero, exitZero, nobody⟩ := before.quiet wasUnsignalled
    exact ⟨joinZero, exitZero, fun joiner pid => (passed' joiner pid).mpr (nobody joiner pid)⟩
  · intro signalled zero stays nobody
    have different : child ≠ thread := by
      intro same
      rw [same, new] at signalled
      exact (own same).2 signalled
    rw [other child different] at signalled stays
    exact before.ready signalled zero stays
      fun joiner pid => (passed' joiner pid).mp (nobody joiner pid)

end

theorem MemberJoins.not_queued (waiting : ∀ pid, family.roles thread ≠ .waiting pid child child) :
    thread ∉ member.joinsem.queue := by
  intro queued
  obtain ⟨pid, found⟩ := before.queue thread queued
  exact waiting pid found

theorem MemberJoins.not_queued_of_none (nothing : (family.roles thread).joins = none) :
    thread ∉ member.joinsem.queue := by
  apply before.not_queued
  intro pid waiting
  rw [waiting] at nothing
  cases nothing

theorem MemberJoins.not_exitQueued (resting : family.roles thread ≠ .resting child) :
    thread ∉ member.exitsem.queue :=
  fun queued => resting (before.exitQueue thread queued)

end

theorem Joins.plain (joins : Joins family) (old : (family.roles thread).Plain) (new : role.Plain)
    (target : ∀ pid child, role.joins = some (pid, child) → family.Joinable thread pid child) :
    Joins (family.setRole thread role) := by
  have joinable : ∀ joiner pid child, (update family.roles thread role joiner).joins =
      some (pid, child) → family.Joinable joiner pid child :=
    update_cases target fun joiner _ => joins.target joiner
  refine ⟨?_, ?_, ?_⟩
  · intro joiner pid child found
    obtain ⟨listed, member, present, parent, zero, stays⟩ := joinable joiner pid child found
    refine ⟨listed, member, present, parent, zero, ?_⟩
    revert stays
    simp only [Family.setRole]
    exact update_cases (fun _ => new.ne_leaving) (fun _ _ => id) child
  · simp only [Family.setRole]
    exact update_cases (fun pid child number found => (new.ne_waiting pid child number found).elim)
      fun joiner _ => joins.waited joiner
  · intro child member present
    have before := joins.members child member present
    exact before.frame rfl (fun _ => ⟨old.not_signalled, new.not_signalled⟩)
      (fun pid => ⟨old.ne_passed pid child, new.ne_passed pid child⟩)
      (before.not_queued fun pid => old.ne_waiting pid child child)
      (before.not_exitQueued (old.ne_resting child))

variable {changed : Member}

theorem Joins.update (joins : Joins family) (present : family.members number = some member)
    (parent : changed.parentID = member.parentID)
    (joinable : ∀ joiner pid child,
      (Function.update family.roles thread role joiner).joins =
        some (pid, child) →
      family.Joinable joiner pid child ∧
        (child = number → changed.exitsem.value = 0) ∧
        (child = thread → role ≠ .leaving))
    (waited : ∀ pid child waitedOn, role = .waiting pid child waitedOn → waitedOn = child)
    (touched : ((family.setMember number changed).setRole thread role).MemberJoins number changed)
    (others : ∀ child found, child ≠ number →
      family.MemberJoins child found →
      ((family.setMember number changed).setRole thread role).MemberJoins child found) :
    Joins ((family.setMember number changed).setRole thread role) := by
  refine ⟨?_, ?_, ?_⟩
  · intro joiner pid child found
    obtain ⟨⟨listed, old, oldPresent, oldParent, oldZero, oldStays⟩, zero,
      stays⟩ := joinable joiner pid child found
    have notLeaving : Function.update family.roles thread role child ≠
        .leaving := by
      revert stays oldStays
      exact update_cases (fun _ stays => stays rfl) (fun _ _ oldStays _ => oldStays) child
    by_cases same : child = number
    · subst same
      rw [present] at oldPresent
      cases oldPresent
      exact ⟨listed, changed, update_self .., oldParent.trans parent.symm, zero rfl, notLeaving⟩
    · refine ⟨listed, old, ?_, oldParent, oldZero, notLeaving⟩
      exact (update_of_ne same ..).trans oldPresent
  · simp only [Family.setRole]
    exact update_cases waited fun joiner _ => joins.waited joiner
  · intro child found lookup
    by_cases same : child = number
    · subst same
      simp only [Family.setRole, Family.setMember, update_self] at lookup
      cases lookup
      exact touched
    · exact others child found same (joins.members child found
        ((update_of_ne same ..).symm.trans lookup))

section

variable (joins : Joins family) (core : Core family)
  (mine : (family.roles thread).joins = some (pid, child))
include joins core mine

theorem Joins.other_child {joiner other : Nat} {otherPid : Pid} (different : joiner ≠ thread)
    (found : (family.roles joiner).joins = some (otherPid, other)) :
    other ≠ child := by
  rintro rfl
  exact different (joins.unique core found mine)

/-- The conditions on the joins under way, for a step of a thread which is
joining `child` itself. -/
theorem Joins.joinable_of_joins
    (next : role.joins = some (pid, child) ∧ changed.exitsem.value = 0 ∨ role.joins = none)
    (stays : role ≠ .leaving) (joiner : Nat) (otherPid : Pid) (other : Nat)
    (found : (Function.update family.roles thread role joiner).joins = some (otherPid, other)) :
    family.Joinable joiner otherPid other ∧
      (other = child → changed.exitsem.value = 0) ∧
      (other = thread → role ≠ .leaving) := by
  by_cases same : joiner = thread
  · subst same
    rw [update_self] at found
    rcases next with ⟨joining, zero⟩ | nothing
    · rw [joining] at found
      cases found
      exact ⟨joins.target joiner pid child mine, fun _ => zero, fun _ => stays⟩
    · rw [nothing] at found
      cases found
  · rw [update_of_ne same] at found
    exact ⟨joins.target joiner otherPid other found,
      fun equal => absurd equal (joins.other_child core mine same found),
      fun _ => stays⟩

end

theorem MemberJoins.of_other_join {other : Nat} (before : family.MemberJoins other member)
    (mine : (family.roles thread).joins = some (pid, child))
    (roles : after.roles = update family.roles thread role)
    (next : role.joins = some (pid, child) ∨ role.Plain)
    (different : other ≠ child) :
    after.MemberJoins other member := by
  have elsewhere : ∀ role : Role, role.joins = some (pid, child) →
      ∀ otherPid, role ≠ .passed otherPid other := by
    rintro role joining otherPid rfl
    cases joining
    exact different rfl
  refine before.frame roles ?_ ?_ ?_ ?_
  · intro same
    rcases next with joining | plain
    · exact ⟨Role.not_signalled_of_joins mine, Role.not_signalled_of_joins joining⟩
    · exact ⟨Role.not_signalled_of_joins mine, plain.not_signalled⟩
  · intro otherPid
    rcases next with joining | plain
    · exact ⟨elsewhere _ mine otherPid, elsewhere _ joining otherPid⟩
    · exact ⟨elsewhere _ mine otherPid, plain.ne_passed otherPid other⟩
  · apply before.not_queued
    intro otherPid waiting
    rw [waiting] at mine
    cases mine
    exact different rfl
  · exact before.not_exitQueued (Role.ne_resting_of_joins mine other)

theorem MemberJoins.sleep (before : family.MemberJoins child member)
    (waiting : family.roles thread = .waiting pid child child)
    (awake : thread ∉ member.joinsem.queue) (zero : member.joinsem.value = 0) :
    family.MemberJoins child { member with joinsem := member.joinsem.sleep thread } := by
  refine ⟨before.quiet, ?_, ?_, ?_, before.exitQueue⟩
  · intro signalled exitZero stays nobody
    exact absurd zero (before.ready signalled exitZero stays nobody).1
  · intro joiner queued
    rcases List.mem_append.mp queued with old | new
    · exact before.queue joiner old
    · rw [List.mem_singleton.mp new]
      exact ⟨pid, waiting⟩
  · exact before.nodup.append (List.nodup_singleton _) (List.disjoint_singleton.mpr awake)

theorem Joins.joinSleep (joins : Joins family) (core : Core family)
    (join : family.AtJoin thread pid child number)
    (present : family.members number = some member)
    (awake : thread ∉ member.joinsem.queue)
    (unavailable : member.joinsem.take = none) :
    Joins ((family.setMember number { member with joinsem := member.joinsem.sleep thread }).setRole
        thread (.waiting pid child number)) := by
  obtain ⟨rfl, mine, notPassed⟩ := joins.atJoin join
  have before := joins.members number member present
  have exitZero := joins.exit_zero present mine
  refine joins.update present rfl
    (joins.joinable_of_joins core mine (.inl ⟨rfl, exitZero⟩) nofun) ?_ ?_
    fun other found different old =>
      old.of_other_join mine rfl (.inl rfl) different
  · intro pid' child' waitedOn same
    cases same
    rfl
  · refine MemberJoins.sleep ?_ (update_self ..) awake (Semaphore.take_eq_none_iff.mp unavailable)
    refine before.frame rfl ?_ (fun pid' => ⟨notPassed pid' number, nofun⟩) awake ?_
    · exact fun _ => ⟨Role.not_signalled_of_joins mine, id⟩
    · exact before.not_exitQueued (Role.ne_resting_of_joins mine number)

theorem roles_of_ne {other : Nat} (different : other ≠ thread) :
    ((family.setMember number changed).setRole thread role).roles other =
      family.roles other :=
  update_of_ne different ..

theorem roles_self :
    ((family.setMember number changed).setRole thread role).roles thread =
      role :=
  update_self ..

theorem Joins.joinPass (joins : Joins family) (core : Core family)
    {taken : Semaphore Nat} (join : family.AtJoin thread pid child number)
    (present : family.members number = some member)
    (awake : thread ∉ member.joinsem.queue)
    (available : member.joinsem.take = some taken) :
    Joins ((family.setMember number { member with joinsem := taken }).setRole
      thread (.passed pid child)) := by
  obtain ⟨rfl, mine, -⟩ := joins.atJoin join
  have before := joins.members number member present
  obtain ⟨value, queue⟩ := Semaphore.take_inv available
  have exitZero := joins.exit_zero present mine
  have signalled : (family.roles number).Signalled := by
    by_contra unsignalled
    have zero := (before.quiet unsignalled).1
    omega
  have different : number ≠ thread := by
    rintro rfl
    exact Role.not_signalled_of_joins mine signalled
  refine joins.update present rfl
    (joins.joinable_of_joins core mine (.inl ⟨rfl, exitZero⟩) nofun) nofun ?_
    fun other found different old =>
      old.of_other_join mine rfl (.inl rfl) different
  refine ⟨?_, ?_, ?_, ?_, before.exitQueue_of_roles rfl
    (before.not_exitQueued (Role.ne_resting_of_joins mine number))⟩
  · rw [roles_of_ne different]
    exact fun unsignalled => absurd signalled unsignalled
  · intro _ _ _ nobody
    exact absurd roles_self (nobody thread pid)
  · rw [queue]
    exact before.queue_of_roles rfl awake
  · rw [queue]
    exact before.nodup

theorem Joins.joinRead (joins : Joins family) (core : Core family)
    {exitcode : Word} (passed : family.roles thread = .passed pid child)
    (listed : family.table pid = some number)
    (present : family.members number = some member) :
    Joins ((family.setMember number
      { member with exitsem := member.exitsem.release }).setRole thread
        (.returning child exitcode)) := by
  have mine : (family.roles thread).joins = some (pid, child) := by
    rw [passed]
    rfl
  obtain ⟨listed', -⟩ := joins.target thread pid child mine
  rw [listed] at listed'
  cases listed'
  have before := joins.members child member present
  have signalled : (family.roles child).Signalled := by
    by_contra unsignalled
    exact (before.quiet unsignalled).2.2 thread pid passed
  have different : child ≠ thread := by
    rintro rfl
    exact Role.not_signalled_of_joins mine signalled
  refine joins.update present rfl (joins.joinable_of_joins core mine (.inr rfl) nofun) nofun ?_
    fun other found different old =>
      old.of_other_join mine rfl (.inr trivial) different
  have awake : thread ∉ member.joinsem.queue := by
    apply before.not_queued
    rw [passed]
    nofun
  refine ⟨?_, ?_, before.queue_of_roles rfl awake, before.nodup, ?_⟩
  · rw [roles_of_ne different]
    exact fun unsignalled => absurd signalled unsignalled
  · intro _ zero
    cases zero
  · intro leaver queued
    exact before.exitQueue_of_roles rfl
      (before.not_exitQueued (Role.ne_resting_of_joins mine child)) leaver
      (Semaphore.mem_of_mem_release queued)

/-- The conditions on the joins under way, for a step of a thread in
`ExitUpdate`. -/
theorem Joins.joinable_of_exit (joins : Joins family) (nothing : role.joins = none)
    (stays : ∀ joiner pid,
      (family.roles joiner).joins = some (pid, thread) →
      changed.exitsem.value = 0 ∧ role ≠ .leaving) (joiner : Nat) (pid : Pid)
    (child : Nat)
    (found : (Function.update family.roles thread role joiner).joins = some (pid, child)) :
    family.Joinable joiner pid child ∧
      (child = thread → changed.exitsem.value = 0) ∧
      (child = thread → role ≠ .leaving) := by
  have different : joiner ≠ thread := by
    rintro rfl
    rw [update_self, nothing] at found
    cases found
  rw [update_of_ne different] at found
  refine ⟨joins.target joiner pid child found, ?_, ?_⟩
  · rintro rfl
    exact (stays joiner pid found).1
  · rintro rfl
    exact (stays joiner pid found).2

theorem MemberJoins.of_other_exit {other : Nat} (before : family.MemberJoins other member)
    (roles : after.roles = update family.roles thread role)
    (old : (family.roles thread).joins = none)
    (resting : ∀ number, family.roles thread = .resting number →
      number = thread) (new : role.joins = none) (different : other ≠ thread) :
    after.MemberJoins other member := by
  have notPassed : ∀ role : Role, role.joins = none → ∀ pid, role ≠ .passed pid other := by
    rintro role nothing pid rfl
    cases nothing
  refine before.frame roles (fun same => absurd same different)
    (fun pid => ⟨notPassed _ old pid, notPassed _ new pid⟩)
    (before.not_queued_of_none old) ?_
  apply before.not_exitQueued
  intro found
  exact different (resting other found)

variable (joins : Joins family)
include joins

/-- The signal of the child wakes the only thread which can be asleep. -/
theorem Joins.exitSignal (core : Core family) (signalling : family.roles thread = .signalling)
    (present : family.members thread = some member) :
    Joins ((family.setMember thread
      { member with joinsem := member.joinsem.release }).setRole thread .signalled) := by
  have before := joins.members thread member present
  have nobodyLeft : member.joinsem.queue.tail = [] := by
    cases queue : member.joinsem.queue with
    | nil => rfl
    | cons first rest =>
      cases rest with
      | nil => rfl
      | cons second rest =>
        obtain ⟨pid, found⟩ := before.queue first (by simp [queue])
        obtain ⟨pid', found'⟩ := before.queue second (by simp [queue])
        have same : first = second := by
          apply joins.unique core
          · rw [found]
            rfl
          · rw [found']
            rfl
        have distinct := before.nodup
        rw [queue, same] at distinct
        simp at distinct
  refine joins.update present rfl
    (joins.joinable_of_exit rfl fun joiner pid found =>
      ⟨(joins.exit_zero present found :), nofun⟩) nofun ?_
    fun other found different old => old.of_other_exit rfl
      (by rw [signalling]; rfl) (by rw [signalling]; nofun) rfl different
  have awake : thread ∉ member.exitsem.queue := by
    apply before.not_exitQueued
    rw [signalling]
    nofun
  refine ⟨?_, ?_, ?_, before.nodup.tail, before.exitQueue_of_roles rfl awake⟩
  · rw [roles_self]
    exact fun unsignalled => absurd trivial unsignalled
  · exact fun _ _ _ _ => ⟨Nat.succ_ne_zero _, nobodyLeft⟩
  · intro joiner queued
    have empty : joiner ∈ member.joinsem.queue.tail := queued
    rw [nobodyLeft] at empty
    cases empty

section

variable (core : Core family) (exit : family.AtExit thread number)
  (present : family.members number = some member) (awake : thread ∉ member.exitsem.queue)
include core exit present awake

theorem Joins.exitSleep :
    Joins ((family.setMember number { member with exitsem := member.exitsem.sleep thread }).setRole
        thread (.resting number)) := by
  obtain ⟨rfl, -, signalled, stays⟩ := core.atExit exit
  have before := joins.members number member present
  have nothing := Role.joins_of_signalled signalled
  refine joins.update present rfl
    (joins.joinable_of_exit rfl fun joiner pid found =>
      ⟨(joins.exit_zero present found :), nofun⟩) nofun ?_
    fun other found different old => old.of_other_exit rfl nothing
      (core.resting number) rfl different
  refine ⟨?_, ?_, before.queue_of_roles rfl (before.not_queued_of_none nothing), before.nodup, ?_⟩
  · rw [roles_self]
    exact fun unsignalled => absurd trivial unsignalled
  · intro _ zero _ nobody
    refine before.ready signalled zero stays ?_
    intro joiner pid found
    have elsewhere : joiner ≠ number := by
      rintro rfl
      rw [found] at nothing
      cases nothing
    exact nobody joiner pid ((roles_of_ne elsewhere).trans found)
  · intro leaver queued
    rcases List.mem_append.mp queued with old | new
    · exact before.exitQueue_of_roles rfl awake leaver old
    · rw [List.mem_singleton.mp new]
      exact roles_self

theorem Joins.exitPass {taken : Semaphore Nat} (available : member.exitsem.take = some taken) :
    Joins ((family.setMember number { member with exitsem := taken }).setRole thread .leaving) := by
  obtain ⟨rfl, -, signalled, -⟩ := core.atExit exit
  have before := joins.members number member present
  have nothing := Role.joins_of_signalled signalled
  obtain ⟨value, queue⟩ := Semaphore.take_inv available
  refine joins.update present rfl (joins.joinable_of_exit rfl fun joiner pid found => ?_) nofun ?_
    fun other found different old => old.of_other_exit rfl nothing
      (core.resting number) rfl different
  · have zero := joins.exit_zero present found
    omega
  · refine ⟨?_, ?_,
      before.queue_of_roles rfl (before.not_queued_of_none nothing),
      before.nodup, ?_⟩
    · rw [roles_self]
      exact fun unsignalled => absurd trivial unsignalled
    · intro _ _ stays
      exact absurd roles_self stays
    · rw [queue]
      exact before.exitQueue_of_roles rfl awake

end

theorem Joins.setExitcode {exitcode : Word} (present : family.members number = some member) :
    Joins (family.setMember number { member with exitcode := exitcode }) := by
  refine ⟨?_, joins.waited, ?_⟩
  · intro joiner pid child found
    obtain ⟨listed, old, oldPresent, parent, zero, stays⟩ :=
      joins.target joiner pid child found
    by_cases same : child = number
    · subst same
      rw [present] at oldPresent
      cases oldPresent
      exact ⟨listed, _, update_self .., parent, zero, stays⟩
    · exact ⟨listed, old, (update_of_ne same ..).trans oldPresent, parent, zero, stays⟩
  · intro child found lookup
    by_cases same : child = number
    · subst same
      simp only [Family.setMember, update_self] at lookup
      cases lookup
      have before := joins.members child member present
      exact ⟨before.quiet, before.ready, before.queue, before.nodup, before.exitQueue⟩
    · have before := joins.members child found ((update_of_ne same ..).symm.trans lookup)
      exact before.congr rfl

variable (core : Core family)
include core

theorem Joins.createMember (free : family.roles thread = .free) (empty : family.table pid = none) :
    Joins (family.createMember thread pid) := by
  have moved : Joins (family.setRole thread (.forking pid family.created)) := by
    refine joins.plain ?_ trivial (by rintro _ _ ⟨⟩)
    rw [free]
    trivial
  have unstarted : family.roles family.created = .absent :=
    core.unborn _ (Nat.le_refl _)
  have notThread : family.created ≠ thread := by
    intro same
    rw [same, free] at unstarted
    cases unstarted
  have known : ∀ child member, family.members child = some member → child ≠ family.created :=
    fun child member present => (core.born child member present).ne
  refine ⟨?_, moved.waited, ?_⟩
  · intro joiner joinerPid child found
    obtain ⟨listed, member, present, parent, zero, stays⟩ :=
      moved.target joiner joinerPid child found
    have occupied : joinerPid ≠ pid := by
      rintro rfl
      cases empty.symm.trans listed
    exact ⟨(update_of_ne occupied ..).trans listed, member,
      (update_of_ne (known child member present) ..).trans present,
      parent, zero, stays⟩
  · intro child member present
    by_cases same : child = family.created
    · subst same
      simp only [Family.createMember, update_self] at present
      cases present
      refine ⟨?_, ?_, by rintro _ ⟨⟩, List.nodup_nil, by rintro _ ⟨⟩⟩
      · refine fun _ => ⟨rfl, rfl, ?_⟩
        intro joiner joinerPid found
        have joining : ((family.setRole thread
            (.forking pid family.created)).roles joiner).joins = some (joinerPid, family.created) :=
          congrArg Role.joins found
        obtain ⟨-, member, present, -⟩ := moved.target _ _ _ joining
        exact known _ member present rfl
      · simp only [Family.createMember, update_of_ne notThread, unstarted]
        exact fun signalled => signalled.elim
    · exact (moved.members child member ((update_of_ne same ..).symm.trans present)).congr rfl

theorem Joins.forkMember (forking : family.roles thread = .forking pid child) :
    Joins (family.forkMember thread pid child) := by
  obtain ⟨-, absent, -⟩ := core.forking thread pid child forking
  have started : Joins (family.setRole child .free) := by
    refine joins.plain ?_ trivial nofun
    rw [absent]
    trivial
  have different : thread ≠ child := by
    rintro rfl
    rw [absent] at forking
    cases forking
  have moved : Joins ((family.setRole child .free).setRole thread .free) := by
    refine started.plain ?_ trivial nofun
    simp only [Family.setRole, update_of_ne different, forking]
    trivial
  refine ⟨?_, moved.waited, ?_⟩
  · intro joiner joinerPid target found
    obtain ⟨listed, member, present, parent, zero, stays⟩ :=
      moved.target joiner joinerPid target found
    have notChild : joiner ≠ child := by
      rintro rfl
      simp only [Family.forkMember, update_of_ne different.symm, update_self] at found
      cases found
    refine ⟨listed, member, present, ?_, zero, stays⟩
    simp only [Family.forkMember, update_of_ne notChild]
    exact parent
  · intro other member present
    exact (moved.members other member present).congr rfl

theorem Joins.removeMember (leaving : family.roles thread = .leaving) :
    Joins (family.removeMember thread thread) := by
  have live : (family.roles thread).Live := by
    rw [leaving]
    trivial
  have listed := core.home thread live
  have nothing : (family.roles thread).joins = none := by
    rw [leaving]
    rfl
  have joinerRole : ∀ joiner, joiner ≠ thread →
      (family.removeMember thread thread).roles joiner =
        family.roles joiner :=
    fun joiner different => update_of_ne different ..
  have threadRole : (family.removeMember thread thread).roles thread =
      .gone := update_self ..
  refine ⟨?_, ?_, ?_⟩
  · intro joiner pid child found
    have different : joiner ≠ thread := by
      rintro rfl
      rw [threadRole] at found
      cases found
    rw [joinerRole joiner different] at found
    obtain ⟨childListed, member, present, parent, zero, stays⟩ :=
      joins.target joiner pid child found
    have notThread : child ≠ thread := by
      rintro rfl
      exact stays leaving
    have otherPid : pid ≠ family.pids thread := by
      rintro rfl
      rw [listed] at childListed
      exact notThread (Option.some.inj childListed).symm
    exact ⟨(update_of_ne otherPid ..).trans childListed, member,
      (update_of_ne notThread ..).trans present, parent, zero,
      by rw [joinerRole child notThread]; exact stays⟩
  · intro joiner pid child number found
    have different : joiner ≠ thread := by
      rintro rfl
      rw [threadRole] at found
      cases found
    rw [joinerRole joiner different] at found
    exact joins.waited joiner pid child number found
  · intro child member present
    obtain ⟨different, present⟩ := of_update_eq present (by simp)
    have before := joins.members child member present
    exact before.of_other_exit rfl nothing (by rw [leaving]; rintro _ ⟨⟩) rfl different

/-- Every step of the protocol in which a parent joins a child only once
keeps the handshake in order. -/
theorem Joins.step {event : ProcessEvent} (taken : Step family event after)
    (once : family.JoinsOnce event) :
    Joins after := by
  cases taken with
  | stay _ => exact joins
  | create free empty => exact joins.createMember core free empty
  | fork forking => exact joins.forkMember core forking
  | joinStart free pid listed present parent =>
    obtain ⟨zero, stays⟩ := once _ pid _ listed _ present parent
    refine joins.plain (by rw [free]; trivial) trivial ?_
    intro pid' child' same
    cases same
    exact ⟨listed, _, present, parent, zero, stays⟩
  | joinSleep join present awake unavailable =>
    exact joins.joinSleep core join present awake unavailable
  | joinPass join present awake available =>
    exact joins.joinPass core join present awake available
  | joinRead passed listed present =>
    exact joins.joinRead core passed listed present
  | joinReturn role | exitCounted role =>
    exact joins.plain (by rw [role]; trivial) trivial (by rintro _ _ ⟨⟩)
  | exitStart free _ _ present _ _ =>
    refine (joins.setExitcode present).plain ?_ trivial (by rintro _ _ ⟨⟩)
    simp only [Family.setMember, free]
    trivial
  | exitSignal signalling listed present =>
    rw [core.home _ (by rw [signalling]; trivial)] at listed
    cases listed
    exact joins.exitSignal core signalling present
  | exitSleep exit present awake _ =>
    exact joins.exitSleep core exit present awake
  | exitPass exit present awake available =>
    exact joins.exitPass core exit present awake available
  | clear leaving listed =>
    rw [core.home _ (by rw [leaving]; trivial)] at listed
    cases listed
    exact joins.removeMember core leaving

/-- A thread which waits for a child that has signalled its `joinsem` is
awake and passes. -/
theorem Joins.released (join : family.AtJoin thread pid child number)
    (signalled : (family.roles child).Signalled) :
    ∃ member taken, family.members number = some member ∧
      thread ∉ member.joinsem.queue ∧
      member.joinsem.take = some taken := by
  obtain ⟨rfl, joining, notPassed⟩ := joins.atJoin join
  obtain ⟨-, member, present, -, zero, stays⟩ :=
    joins.target thread pid number joining
  have alone : ∀ other pid', family.roles other ≠ .passed pid' number := by
    intro other pid' passed
    have same := joins.unique core joining (show (family.roles other).joins = some (pid', number) by
        rw [passed]
        rfl)
    subst same
    exact notPassed pid' number passed
  obtain ⟨available, empty⟩ :=
    (joins.members number member present).ready signalled zero stays alone
  have passes : member.joinsem.take ≠ none := by
    rw [ne_eq, Semaphore.take_eq_none_iff]
    exact available
  obtain ⟨taken, passes⟩ := Option.ne_none_iff_exists'.mp passes
  refine ⟨member, taken, present, ?_, passes⟩
  rw [empty]
  exact List.not_mem_nil

end Family

end Nachos
