import Nachos.Userprog.PTable

/-!
# The protocol of joining and exiting

Seen from outside, the process table is a protocol between parents and
children.  A child which exits signals `joinsem` and waits on `exitsem`; a
parent which joins waits on `joinsem`, reads the exit code and signals
`exitsem`; then the child removes itself from the table.  This module has
the protocol without bitmaps, mutexes and counters, and says when it works:
if a parent joins a child at most once, and if it does not exit before its
children have left the table.
-/

open Words Semaphores Transition Function

namespace Nachos

/-- What a thread is doing. -/
inductive Role where
  | absent
  | free
  | forking (pid : Pid) (child : Nat)
  | joining (pid : Pid) (child : Nat)
  | waiting (pid : Pid) (child waitedOn : Nat)
  | passed (pid : Pid) (child : Nat)
  | returning (child : Nat) (exitcode : Word)
  | exiting (parent : Nat)
  | signalling
  | signalled
  | resting (waitedOn : Nat)
  | leaving
  | gone
  deriving DecidableEq

namespace Role

/-- The thread uses the table, and has an entry there. -/
def Live : Role → Prop
  | .absent => False
  | .gone => False
  | _ => True

/-- The thread is in `ExitUpdate`. -/
def Exiting : Role → Prop
  | .exiting _ => True
  | .signalling => True
  | .signalled => True
  | .resting _ => True
  | .leaving => True
  | _ => False

/-- The thread has signalled its `joinsem`. -/
def Signalled : Role → Prop
  | .signalled => True
  | .resting _ => True
  | .leaving => True
  | _ => False

theorem exiting_of_signalled {role : Role} (signalled : role.Signalled) :
    role.Exiting := by
  cases role <;> first | exact signalled | trivial

/-- The slot and the child of a join under way, up to the read of the exit
code. -/
def joins : Role → Option (Pid × Nat)
  | .joining pid child => some (pid, child)
  | .waiting pid child _ => some (pid, child)
  | .passed pid child => some (pid, child)
  | _ => none

/-- Roles which have no part in the handshake yet. -/
def Plain : Role → Prop
  | .waiting _ _ _ => False
  | .passed _ _ => False
  | .signalled => False
  | .resting _ => False
  | .leaving => False
  | _ => True

end Role

/-- The part of a PCB which parent and child use. -/
structure Member where
  joinsem : Semaphore Nat
  exitsem : Semaphore Nat
  exitcode : Word
  pid : Pid
  parentID : Word

def Member.new (pid : Pid) (parentID : Word) : Member :=
  ⟨.new 0, .new 0, 0#32, pid, parentID⟩

structure Family where
  table : Pid → Option Nat
  members : Nat → Option Member
  created : Nat
  creator : Nat → Option Nat
  pids : Nat → Pid
  roles : Nat → Role

namespace Family

def setRole (family : Family) (thread : Nat) (role : Role) : Family :=
  { family with roles := update family.roles thread role }

def setMember (family : Family) (number : Nat) (member : Member) : Family :=
  { family with
    members := update family.members number (some member) }

/-- A new member with an entry in the table, whose thread is still to be
forked. -/
def createMember (family : Family) (thread : Nat) (pid : Pid) : Family :=
  { family with
    table := update family.table pid (some family.created)
    members := update family.members family.created (some (.new pid (pidWord (family.pids thread))))
    created := family.created + 1
    creator := update family.creator family.created (some thread)
    roles := update family.roles thread (.forking pid family.created) }

def forkMember (family : Family) (thread : Nat) (pid : Pid) (child : Nat) : Family :=
  { family with
    pids := update family.pids child pid
    roles := update (update family.roles child .free) thread .free }

def removeMember (family : Family) (thread number : Nat) : Family :=
  { family with
    table := update family.table (family.pids thread) none
    members := update family.members number none
    roles := update family.roles thread .gone }

/-- A thread is about to wait, or has been waiting, on the `joinsem` of
`number`. -/
def AtJoin (family : Family) (thread : Nat) (pid : Pid) (child number : Nat) : Prop :=
  family.roles thread = .joining pid child ∧
      family.table pid = some number ∨
    family.roles thread = .waiting pid child number

/-- The same for the `exitsem`. -/
def AtExit (family : Family) (thread number : Nat) : Prop :=
  family.roles thread = .signalled ∧
      family.table (family.pids thread) = some number ∨
    family.roles thread = .resting number

/-- The steps of the protocol, with the events of the process table. -/
inductive Step (family : Family) : ProcessEvent → Family → Prop where
  | stay {event : ProcessEvent} :
      (∀ thread exitcode, event ≠ .exit thread exitcode) →
      Step family event family
  | create {thread : Nat} {pid : Pid} :
      family.roles thread = .free →
      family.table pid = none →
      Step family (.run thread) (family.createMember thread pid)
  | fork {thread : Nat} {pid : Pid} {child : Nat} :
      family.roles thread = .forking pid child →
      Step family (.run thread) (family.forkMember thread pid child)
  | joinStart {thread child : Nat} {word : Word} {pid : Pid}
      {member : Member} :
      family.roles thread = .free →
      Processes.pidOf word = some pid →
      family.table pid = some child →
      family.members child = some member →
      pidWord (family.pids thread) = member.parentID →
      Step family (.join thread word) (family.setRole thread (.joining pid child))
  | joinSleep {thread child number : Nat} {pid : Pid} {member : Member} :
      family.AtJoin thread pid child number →
      family.members number = some member →
      thread ∉ member.joinsem.queue →
      member.joinsem.take = none →
      Step family (.run thread) ((family.setMember number
          { member with joinsem := member.joinsem.sleep thread }).setRole
            thread (.waiting pid child number))
  | joinPass {thread child number : Nat} {pid : Pid} {member : Member}
      {taken : Semaphore Nat} :
      family.AtJoin thread pid child number →
      family.members number = some member →
      thread ∉ member.joinsem.queue →
      member.joinsem.take = some taken →
      Step family (.run thread) ((family.setMember number { member with joinsem := taken }).setRole
          thread (.passed pid child))
  | joinRead {thread child number : Nat} {pid : Pid} {member : Member} :
      family.roles thread = .passed pid child →
      family.table pid = some number →
      family.members number = some member →
      Step family (.run thread) ((family.setMember number
          { member with exitsem := member.exitsem.release }).setRole thread
            (.returning child member.exitcode))
  | joinReturn {thread child : Nat} {exitcode : Word} :
      family.roles thread = .returning child exitcode →
      Step family (.run thread) (family.setRole thread .free)
  | exitStart {thread own parent : Nat} {parentPid : Pid}
      {member : Member} {exitcode : Word} :
      family.roles thread = .free →
      (family.pids thread).val ≠ 0 →
      family.table (family.pids thread) = some own →
      family.members own = some member →
      Processes.pidOf member.parentID = some parentPid →
      family.table parentPid = some parent →
      Step family (.exit thread exitcode) ((family.setMember own
          { member with exitcode := exitcode }).setRole thread (.exiting parent))
  | exitCounted {thread parent : Nat} :
      family.roles thread = .exiting parent →
      Step family (.run thread) (family.setRole thread .signalling)
  | exitSignal {thread number : Nat} {member : Member} :
      family.roles thread = .signalling →
      family.table (family.pids thread) = some number →
      family.members number = some member →
      Step family (.run thread) ((family.setMember number
          { member with joinsem := member.joinsem.release }).setRole thread .signalled)
  | exitSleep {thread number : Nat} {member : Member} :
      family.AtExit thread number →
      family.members number = some member →
      thread ∉ member.exitsem.queue →
      member.exitsem.take = none →
      Step family (.run thread) ((family.setMember number
          { member with exitsem := member.exitsem.sleep thread }).setRole thread (.resting number))
  | exitPass {thread number : Nat} {member : Member}
      {taken : Semaphore Nat} :
      family.AtExit thread number →
      family.members number = some member →
      thread ∉ member.exitsem.queue →
      member.exitsem.take = some taken →
      Step family (.run thread) ((family.setMember number { member with exitsem := taken }).setRole
          thread .leaving)
  | clear {thread number : Nat} :
      family.roles thread = .leaving →
      family.table (family.pids thread) = some number →
      Step family (.run thread) (family.removeMember thread number)

/-- A parent starts to join a child only if the child has not been released
by an earlier join. -/
def JoinsOnce (family : Family) : ProcessEvent → Prop
  | .join thread word =>
    ∀ pid ∈ Processes.pidOf word, ∀ child ∈ family.table pid,
      ∀ member ∈ family.members child,
        pidWord (family.pids thread) = member.parentID →
        member.exitsem.value = 0 ∧ family.roles child ≠ .leaving
  | _ => True

/-- A process starts to exit only if no process which it has made is in the
table. -/
def ExitsLast (family : Family) : ProcessEvent → Prop
  | .exit thread _ => ∀ child < family.created,
      family.creator child = some thread → family.members child = none
  | _ => True

instance (family : Family) : DecidablePred family.JoinsOnce
  | .exec _ _ _ => inferInstanceAs (Decidable True)
  | .join thread word => inferInstanceAs (Decidable
      (∀ pid ∈ Processes.pidOf word, ∀ child ∈ family.table pid,
        ∀ member ∈ family.members child,
          pidWord (family.pids thread) = member.parentID →
          member.exitsem.value = 0 ∧ family.roles child ≠ .leaving))
  | .exit _ _ => inferInstanceAs (Decidable True)
  | .run _ => inferInstanceAs (Decidable True)

instance (family : Family) : DecidablePred family.ExitsLast
  | .exec _ _ _ => inferInstanceAs (Decidable True)
  | .join _ _ => inferInstanceAs (Decidable True)
  | .exit thread _ => inferInstanceAs (Decidable
      (∀ child < family.created,
        family.creator child = some thread →
        family.members child = none))
  | .run _ => inferInstanceAs (Decidable True)

/-! ## Entries of the table -/

/-- The table has an entry for every live thread, and only entries which
belong to it. -/
structure Core (family : Family) : Prop where
  main : family.pids 0 = ⟨0, by decide⟩ ∧ (family.roles 0).Live ∧ ¬(family.roles 0).Exiting
  home : ∀ thread, (family.roles thread).Live → family.table (family.pids thread) = some thread
  entry : ∀ pid number, family.table pid = some number →
    ∃ member, family.members number = some member ∧ member.pid = pid
  alive : ∀ number member, family.members number = some member →
    family.table member.pid = some number
  born : ∀ number member, family.members number = some member → number < family.created
  unborn : ∀ thread, family.created ≤ thread → family.roles thread = .absent
  forking : ∀ thread pid child,
    family.roles thread = .forking pid child →
    family.table pid = some child ∧ family.roles child = .absent ∧
      family.creator child = some thread
  resting : ∀ thread number, family.roles thread = .resting number → number = thread

variable {family : Family} {thread : Nat}

theorem ne_of_absent {other : Nat} (absent : family.roles other = .absent)
    (live : (family.roles thread).Live) : other ≠ thread := by
  rintro rfl
  rw [absent] at live
  exact live

theorem Core.unique (core : Core family) {other : Nat}
    (live : (family.roles thread).Live) (live' : (family.roles other).Live)
    (same : family.pids thread = family.pids other) : thread = other := by
  have first := core.home thread live
  have second := core.home other live'
  rw [same, second] at first
  exact (Option.some.inj first).symm

theorem pidWord_toNat (pid : Pid) : (pidWord pid).toNat = pid.val :=
  toNat_ofNat_index (by decide) pid

theorem pidWord_injective : Function.Injective pidWord :=
  ofNat_index_injective (by decide)

theorem pidOf_pidWord (pid : Pid) : Processes.pidOf (pidWord pid) = some pid := by
  have small : pid.val < 10 := pid.isLt
  have value := pidWord_toNat pid
  have signed : (pidWord pid).toInt = pid.val := by
    rw [BitVec.toInt_eq_toNat_of_lt (by omega), value]
  have inside : 0 ≤ (pidWord pid).toInt ∧ (pidWord pid).toInt.toNat < maxProcess := by
    rw [signed]
    exact ⟨Int.natCast_nonneg _, pid.isLt⟩
  rw [Processes.pidOf, dif_pos inside]
  congr 1
  apply Fin.ext
  simp only [signed, Int.toNat_natCast]

variable (core : Core family)
include core

theorem Core.setRole {role : Role} (live : (family.roles thread).Live) (live' : role.Live)
    (main : thread = 0 → ¬role.Exiting) (forking : ∀ pid child, role ≠ .forking pid child)
    (resting : ∀ number, role = .resting number → number = thread) :
    Core (family.setRole thread role) := by
  refine ⟨⟨core.main.1, ?_⟩, ?_, core.entry, core.alive, core.born, ?_, ?_, ?_⟩ <;>
    simp only [Family.setRole]
  · by_cases same : 0 = thread
    · subst same
      rw [update_self]
      exact ⟨live', main rfl⟩
    · rw [update_of_ne same]
      exact core.main.2
  · exact update_cases (fun _ => core.home thread live) fun other _ => core.home other
  · intro other unborn
    rw [update_of_ne (ne_of_absent (core.unborn other unborn) live)]
    exact core.unborn other unborn
  · refine update_cases (fun pid child found => absurd found (forking pid child)) ?_
    intro other _ pid child found
    obtain ⟨entry, absent, creator⟩ := core.forking other pid child found
    rw [update_of_ne (ne_of_absent absent live)]
    exact ⟨entry, absent, creator⟩
  · exact update_cases resting fun other _ => core.resting other

theorem Core.setMember {number : Nat} {member changed : Member}
    (present : family.members number = some member) (samePid : changed.pid = member.pid) :
    Core (family.setMember number changed) := by
  have look : ∀ other found,
      Function.update family.members number (some changed) other =
        some found →
      ∃ before, family.members other = some before ∧ found.pid = before.pid := by
    refine update_cases ?_ fun _ _ found lookup => ⟨found, lookup, rfl⟩
    rintro _ ⟨⟩
    exact ⟨member, present, samePid⟩
  refine ⟨core.main, core.home, ?_, ?_, ?_, core.unborn, core.forking, core.resting⟩
  · intro pid other listed
    obtain ⟨before, lookup, beforePid⟩ := core.entry pid other listed
    revert lookup
    simp only [Family.setMember]
    refine update_cases (fun lookup => ?_) (fun _ _ lookup => ⟨before, lookup, beforePid⟩) other
    cases present.symm.trans lookup
    exact ⟨changed, rfl, samePid.trans beforePid⟩
  · intro other found lookup
    obtain ⟨before, lookup', same⟩ := look other found lookup
    rw [same]
    exact core.alive other before lookup'
  · intro other found lookup
    obtain ⟨before, lookup', -⟩ := look other found lookup
    exact core.born other before lookup'

/-- Most steps change one member and one role. -/
theorem Core.update {number : Nat} {member changed : Member} {role : Role}
    (present : family.members number = some member) (samePid : changed.pid = member.pid)
    (live : (family.roles thread).Live) (live' : role.Live) (main : thread = 0 → ¬role.Exiting)
    (forking : ∀ pid child, role ≠ .forking pid child)
    (resting : ∀ number, role = .resting number → number = thread) :
    Core ((family.setMember number changed).setRole thread role) :=
  (core.setMember present samePid).setRole live live' main forking resting

theorem Core.entry_ne_created {pid : Pid} {number : Nat} (listed : family.table pid = some number) :
    number ≠ family.created := by
  obtain ⟨member, present, -⟩ := core.entry pid number listed
  exact (core.born number member present).ne

theorem Core.createMember {pid : Pid} (free : family.roles thread = .free)
    (empty : family.table pid = none) :
    Core (family.createMember thread pid) := by
  have unstarted : family.roles family.created = .absent :=
    core.unborn _ (Nat.le_refl _)
  have live : (family.roles thread).Live := by
    rw [free]
    trivial
  have different : family.created ≠ thread := ne_of_absent unstarted live
  have occupied : ∀ other number, family.table other = some number → other ≠ pid := by
    rintro other number listed rfl
    rw [empty] at listed
    cases listed
  have liveOf : ∀ other, (Function.update family.roles thread
        (.forking pid family.created) other).Live →
      (family.roles other).Live :=
    update_cases (fun _ => live) fun _ _ => id
  refine ⟨⟨core.main.1, ?_⟩, ?_, ?_, ?_, ?_, ?_, ?_, ?_⟩ <;> simp only [Family.createMember]
  · by_cases same : 0 = thread
    · subst same
      rw [update_self]
      exact ⟨trivial, id⟩
    · rw [update_of_ne same]
      exact core.main.2
  · intro other otherLive
    have listed := core.home other (liveOf other otherLive)
    rw [update_of_ne (occupied _ _ listed)]
    exact listed
  · refine update_cases ?_ ?_
    · rintro _ ⟨⟩
      exact ⟨_, update_self .., rfl⟩
    · intro other _ number listed
      rw [update_of_ne (core.entry_ne_created listed)]
      exact core.entry other number listed
  · refine update_cases ?_ ?_
    · rintro _ ⟨⟩
      exact update_self ..
    · intro number _ member present
      have listed := core.alive number member present
      rw [update_of_ne (occupied _ _ listed)]
      exact listed
  · exact update_cases (fun _ _ => Nat.lt_succ_self _) fun number _ member present =>
      Nat.lt_succ_of_lt (core.born number member present)
  · intro other unborn
    have absent := core.unborn other (Nat.le_of_succ_le unborn)
    rw [update_of_ne (ne_of_absent absent live)]
    exact absent
  · refine update_cases ?_ ?_
    · rintro _ _ ⟨⟩
      rw [update_self, update_self, update_of_ne different]
      exact ⟨rfl, unstarted, rfl⟩
    · intro other _ otherPid child found
      obtain ⟨listed, absent, creator⟩ := core.forking other otherPid child found
      rw [update_of_ne (core.entry_ne_created listed), update_of_ne (ne_of_absent absent live),
        update_of_ne (occupied _ _ listed)]
      exact ⟨listed, absent, creator⟩
  · exact update_cases (by rintro _ ⟨⟩) fun other _ => core.resting other

theorem Core.forkMember {child : Nat} {pid : Pid}
    (forking : family.roles thread = .forking pid child) :
    Core (family.forkMember thread pid child) := by
  obtain ⟨listed, absent, creator⟩ := core.forking thread pid child forking
  have live : (family.roles thread).Live := by
    rw [forking]
    trivial
  have different : child ≠ thread := ne_of_absent absent live
  have childRole : (family.forkMember thread pid child).roles child =
      .free := by
    simp only [Family.forkMember, update_of_ne different, update_self]
  have threadRole : (family.forkMember thread pid child).roles thread =
      .free := update_self ..
  have otherRole : ∀ other, other ≠ thread → other ≠ child →
      (family.forkMember thread pid child).roles other =
        family.roles other := by
    intro other notThread notChild
    simp only [Family.forkMember, update_of_ne notThread, update_of_ne notChild]
  have mainStarted : 0 ≠ child := (ne_of_absent absent core.main.2.1).symm
  refine ⟨⟨?_, ?_⟩, ?_, core.entry, core.alive, core.born, ?_, ?_, ?_⟩
  · simp only [Family.forkMember, update_of_ne mainStarted]
    exact core.main.1
  · by_cases same : 0 = thread
    · rw [same, threadRole]
      exact ⟨trivial, id⟩
    · rw [otherRole 0 same mainStarted]
      exact core.main.2
  · intro other otherLive
    by_cases isChild : other = child
    · subst isChild
      simp only [Family.forkMember, update_self]
      exact listed
    · simp only [Family.forkMember, update_of_ne isChild]
      apply core.home
      by_cases same : other = thread
      · rw [same]
        exact live
      · rw [otherRole other same isChild] at otherLive
        exact otherLive
  · intro other unborn
    have notThread : other ≠ thread :=
      ne_of_absent (core.unborn other unborn) live
    have notChild : other ≠ child := by
      rintro rfl
      obtain ⟨member, present, -⟩ := core.entry pid other listed
      exact (core.born other member present).not_ge unborn
    rw [otherRole other notThread notChild]
    exact core.unborn other unborn
  · intro other otherPid otherChild found
    have notThread : other ≠ thread := by
      rintro rfl
      rw [threadRole] at found
      cases found
    have notChild : other ≠ child := by
      rintro rfl
      rw [childRole] at found
      cases found
    rw [otherRole other notThread notChild] at found
    obtain ⟨listed', absent', creator'⟩ :=
      core.forking other otherPid otherChild found
    have unlike : otherChild ≠ child := by
      rintro rfl
      rw [creator] at creator'
      exact notThread (Option.some.inj creator').symm
    have unlike' : otherChild ≠ thread := ne_of_absent absent' live
    rw [otherRole otherChild unlike' unlike]
    exact ⟨listed', absent', creator'⟩
  · intro other number found
    have notThread : other ≠ thread := by
      rintro rfl
      rw [threadRole] at found
      cases found
    have notChild : other ≠ child := by
      rintro rfl
      rw [childRole] at found
      cases found
    rw [otherRole other notThread notChild] at found
    exact core.resting other number found

theorem Core.removeMember (leaving : family.roles thread = .leaving) :
    Core (family.removeMember thread thread) := by
  have live : (family.roles thread).Live := by
    rw [leaving]
    trivial
  have listed := core.home thread live
  have otherEntry : ∀ pid number, family.table pid = some number →
      number ≠ thread → pid ≠ family.pids thread := by
    rintro pid number found different rfl
    rw [listed] at found
    exact different (Option.some.inj found).symm
  have notMain : thread ≠ 0 := by
    rintro rfl
    apply core.main.2.2
    rw [leaving]
    trivial
  refine ⟨⟨core.main.1, ?_⟩, ?_, ?_, ?_, ?_, ?_, ?_, ?_⟩ <;> simp only [Family.removeMember]
  · rw [update_of_ne notMain.symm]
    exact core.main.2
  · refine update_cases False.elim fun other different otherLive => ?_
    have found := core.home other otherLive
    rw [update_of_ne (otherEntry _ _ found different)]
    exact found
  · refine update_cases (by rintro _ ⟨⟩) fun pid same number found => ?_
    obtain ⟨member, present, memberPid⟩ := core.entry pid number found
    have different : number ≠ thread := by
      rintro rfl
      obtain ⟨own, present', ownPid⟩ := core.entry _ _ listed
      rw [present] at present'
      cases present'
      exact same (memberPid.symm.trans ownPid)
    rw [update_of_ne different]
    exact ⟨member, present, memberPid⟩
  · refine update_cases (by rintro _ ⟨⟩) fun number different member present => ?_
    have found := core.alive number member present
    rw [update_of_ne (otherEntry _ _ found different)]
    exact found
  · exact update_cases (by rintro _ ⟨⟩) fun number _ => core.born number
  · intro other unborn
    rw [update_of_ne (ne_of_absent (core.unborn other unborn) live)]
    exact core.unborn other unborn
  · refine update_cases (by rintro _ _ ⟨⟩) fun other _ pid child found => ?_
    obtain ⟨found', absent, creator⟩ := core.forking other pid child found
    have unlike : child ≠ thread := ne_of_absent absent live
    rw [update_of_ne unlike, update_of_ne (otherEntry _ _ found' unlike)]
    exact ⟨found', absent, creator⟩
  · exact update_cases (by rintro _ ⟨⟩) fun other _ => core.resting other

theorem Core.atExit {number : Nat} (exit : family.AtExit thread number) :
    number = thread ∧ (family.roles thread).Live ∧
      (family.roles thread).Signalled ∧
      family.roles thread ≠ .leaving := by
  rcases exit with ⟨signalled, listed⟩ | resting
  · have live : (family.roles thread).Live := by
      rw [signalled]
      trivial
    rw [core.home thread live] at listed
    refine ⟨(Option.some.inj listed).symm, live, ?_, ?_⟩
    · rw [signalled]
      trivial
    · rw [signalled]
      nofun
  · refine ⟨core.resting thread number resting, ?_, ?_, ?_⟩
    · rw [resting]
      trivial
    · rw [resting]
      trivial
    · rw [resting]
      nofun

theorem Core.not_main (exiting : (family.roles thread).Exiting) : thread ≠ 0 := by
  rintro rfl
  exact core.main.2.2 exiting

theorem Core.step {after : Family} {event : ProcessEvent} (taken : Step family event after) :
    Core after := by
  cases taken with
  | stay _ => exact core
  | create free empty => exact core.createMember free empty
  | fork forking => exact core.forkMember forking
  | joinStart role _ _ _ _ | joinReturn role =>
    exact core.setRole (by rw [role]; trivial) trivial (fun _ => id) nofun nofun
  | joinSleep join present _ _ | joinPass join present _ _ =>
    refine core.update present rfl ?_ trivial (fun _ => id) nofun nofun
    rcases join with ⟨joining, -⟩ | waiting
    · rw [joining]
      trivial
    · rw [waiting]
      trivial
  | joinRead passed _ present =>
    refine core.update present rfl ?_ trivial (fun _ => id) nofun nofun
    rw [passed]
    trivial
  | @exitStart thread _ _ _ _ _ free notZero _ present _ _ =>
    refine core.update present rfl ?_ trivial ?_ nofun nofun
    · rw [free]
      trivial
    · rintro rfl
      exact absurd (congrArg Fin.val core.main.1) notZero
  | exitCounted exiting =>
    refine core.setRole (by rw [exiting]; trivial) trivial ?_ nofun nofun
    intro zero
    exact absurd zero (core.not_main (by rw [exiting]; trivial))
  | exitSignal signalling _ present =>
    refine core.update present rfl ?_ trivial ?_ nofun nofun
    · rw [signalling]
      trivial
    · intro zero
      exact absurd zero (core.not_main (by rw [signalling]; trivial))
  | exitSleep exit present _ _ =>
    obtain ⟨rfl, live, signalled, -⟩ := core.atExit exit
    refine core.update present rfl live trivial ?_ nofun ?_
    · intro zero
      exact absurd zero (core.not_main (Role.exiting_of_signalled signalled))
    · intro number same
      cases same
      rfl
  | exitPass exit present _ _ =>
    obtain ⟨rfl, live, signalled, -⟩ := core.atExit exit
    refine core.update present rfl live trivial ?_ nofun nofun
    intro zero
    exact absurd zero (core.not_main (Role.exiting_of_signalled signalled))
  | clear leaving listed =>
    rw [core.home _ (by rw [leaving]; trivial)] at listed
    cases listed
    exact core.removeMember leaving

end Family

end Nachos
