import Nachos.Userprog.Lineage

/-!
# The process table follows the protocol

Without bitmap, mutexes and counters, the process table is a family, and
every step of a thread is a step of the protocol of the family or leaves the
family as it is.
-/

open Words Semaphores Transition Function

namespace Nachos

/-- What a thread at a point is doing in the protocol. -/
def ProcessPoint.role : ProcessPoint → Role
  | .absent => .absent
  | .starting => .free
  | .user _ => .free
  | .execEnter _ _ => .free
  | .execChecks _ _ => .free
  | .execFork pid child => .forking pid child
  | .execForked _ _ => .free
  | .execLeave _ => .free
  | .joinEnter pid child _ => .joining pid child
  | .joinCount pid child _ => .joining pid child
  | .joinWait pid child => .joining pid child
  | .joinSleep pid child waitedOn => .waiting pid child waitedOn
  | .joinRead pid child => .passed pid child
  | .joinReturn child exitcode => .returning child exitcode
  | .exitEnter parent => .exiting parent
  | .exitCount parent => .exiting parent
  | .exitSignal => .signalling
  | .exitWait => .signalled
  | .exitSleep waitedOn => .resting waitedOn
  | .exitRemove => .leaving
  | .exitClear => .leaving
  | .finished => .gone

def PCB.member (pcb : PCB) : Member :=
  ⟨pcb.joinsem, pcb.exitsem, pcb.exitcode, pcb.pid, pcb.parentID⟩

theorem Family.setRole_self (family : Family) (thread : Nat) :
    family.setRole thread (family.roles thread) = family := by
  simp only [Family.setRole, update_eq_self]

theorem Family.setMember_self {family : Family} {number : Nat}
    {member : Member} (present : family.members number = some member) :
    family.setMember number member = family := by
  simp only [Family.setMember, ← present, update_eq_self]

namespace Processes

/-- The state of the protocol. -/
def family (state : Processes) : Family where
  table := state.pcb
  members number := (state.objects number).map PCB.member
  created := state.created
  creator := state.creator
  pids := state.pids
  roles thread := (state.points thread).role

/-- The bitmap marks the slots which are not `NULL`. -/
def Bits (state : Processes) : Prop :=
  ∀ pid, state.bm.test pid = (state.pcb pid).isSome

/-- What a step of the table is in the protocol. -/
structure Follows (before : Processes) (event : ProcessEvent)
    (after : Processes) : Prop where
  step : Family.Step before.family event after.family
  bits : after.Bits

variable {state after : Processes} {thread number : Nat}

/-! ## The parts of a state -/

theorem map_update {α β : Type} (function : α → β)
    (entries : Nat → Option α) (number : Nat) (entry : Option α) :
    (fun index => (update entries number entry index).map
      function) = update (fun index => (entries index).map function) number (entry.map function) :=
  comp_update (Option.map function) entries number entry

theorem role_update (points : Nat → ProcessPoint) (thread : Nat) (point : ProcessPoint) :
    (fun index => (update points thread point index).role) =
      update (fun index => (points index).role) thread
        point.role :=
  comp_update ProcessPoint.role points thread point

theorem family_setPoint (point : ProcessPoint) :
    (state.setPoint thread point).family = state.family.setRole thread point.role := by
  simp only [family, setPoint, Family.setRole, role_update]

theorem family_setObject (pcb : PCB) :
    (state.setObject number pcb).family = state.family.setMember number pcb.member := by
  simp only [family, setObject, Family.setMember, map_update, Option.map_some]

variable {pcb : PCB}

theorem member_of_object (present : state.objects number = some pcb) :
    state.family.members number = some pcb.member := by
  simp only [family, present, Option.map_some]

variable {point : ProcessPoint}

theorem family_setPoint_same (same : point.role = (state.points thread).role) :
    (state.setPoint thread point).family = state.family := by
  rw [family_setPoint, same]
  exact Family.setRole_self state.family thread

theorem family_setObject_same {changed : PCB} (present : state.objects number = some pcb)
    (same : changed.member = pcb.member) :
    (state.setObject number changed).family = state.family := by
  rw [family_setObject, same]
  exact Family.setMember_self (member_of_object present)

theorem family_update (pcb : PCB) (point : ProcessPoint) :
    ((state.setObject number pcb).setPoint thread point).family =
      (state.family.setMember number pcb.member).setRole thread
        point.role := by
  rw [family_setPoint, family_setObject]

theorem family_update_same {changed : PCB} (present : state.objects number = some pcb)
    (sameMember : changed.member = pcb.member)
    (sameRole : point.role = (state.points thread).role) :
    ((state.setObject number changed).setPoint thread point).family =
      state.family := by
  rw [family_setPoint, family_setObject_same present sameMember, sameRole]
  exact Family.setRole_self state.family thread

variable {event : ProcessEvent}

theorem Follows.stay (bits : state.Bits) (silent : ∀ thread exitcode, event ≠ .exit thread exitcode)
    (same : after.family = state.family) (bm : after.bm = state.bm) :
    Follows state event after where
  step := by
    rw [same]
    exact .stay silent
  bits pid := by
    have pcb : after.pcb = state.pcb := congrArg Family.table same
    rw [bm, pcb]
    exact bits pid

/-! ## Primitives -/

theorem object_inv (success : state.object number = .ok pcb) : state.objects number = some pcb := by
  unfold object at success
  split at success
  · rename_i found present
    cases success
    exact present
  · cases success

variable {pid : Pid}

theorem slot_inv (success : state.slot pid = .ok number) : state.pcb pid = some number := by
  unfold slot at success
  split at success
  · rename_i found listed
    cases success
    exact listed
  · cases success

theorem slotAt_inv {index : Word} (success : state.slotAt index = .ok number) :
    ∃ pid, pidOf index = some pid ∧ state.pcb pid = some number := by
  unfold slotAt at success
  split at success
  · rename_i pid inside
    exact ⟨pid, inside, slot_inv success⟩
  · cases success

theorem signalOn_inv {which : PcbSemaphore} (success : state.signalOn number which = .ok after) :
    ∃ pcb, state.objects number = some pcb ∧ after = state.setObject number
        (pcb.setSemaphore (pcb.semaphore which).release which) := by
  obtain ⟨pcb, found, success⟩ := bind_ok_inv success
  cases success
  exact ⟨pcb, object_inv found, rfl⟩

theorem waitOn_inv {which : PcbSemaphore} {granted asleep : ProcessPoint}
    (success : state.waitOn number which thread granted asleep = .ok after) :
    ∃ pcb, state.objects number = some pcb ∧
      thread ∉ (pcb.semaphore which).queue ∧
      ((∃ taken, (pcb.semaphore which).take = some taken ∧ after = (state.setObject number
          (pcb.setSemaphore taken which)).setPoint thread granted) ∨
      (pcb.semaphore which).take = none ∧ after = (state.setObject number (pcb.setSemaphore
          ((pcb.semaphore which).sleep thread) which)).setPoint thread asleep) := by
  obtain ⟨pcb, found, success⟩ := bind_ok_inv success
  refine ⟨pcb, object_inv found, ?_⟩
  split at success
  · cases success
  · rename_i awake
    refine ⟨awake, ?_⟩
    split at success
    · rename_i taken available
      cases success
      exact .inl ⟨taken, available, rfl⟩
    · rename_i unavailable
      cases success
      exact .inr ⟨unavailable, rfl⟩

theorem member_setMultex (pcb : PCB) (semaphore : Semaphore Nat) :
    (pcb.setSemaphore semaphore .multex).member = pcb.member := rfl

theorem addNumwait_family {amount : Int} (success : state.addNumwait number amount = .ok after) :
    after.family = state.family ∧ after.bm = state.bm ∧ after.points = state.points := by
  obtain ⟨pcb, found, success⟩ := bind_ok_inv success
  obtain ⟨counted, present, rfl⟩ := signalOn_inv success
  have sum : (state.setObject number
      { pcb with numwait := pcb.numwait + amount }).family =
        state.family :=
    family_setObject_same (object_inv found) rfl
  refine ⟨?_, rfl, rfl⟩
  rw [family_setObject_same present (member_setMultex ..), sum]

theorem find_inv {bits after : BitMap maxProcess} {found : Int}
    (result : bits.find = (found, after))
    (inside : 0 ≤ found ∧ found.toNat < maxProcess) :
    bits.test ⟨found.toNat, inside.2⟩ = false ∧ after = bits.mark ⟨found.toNat, inside.2⟩ := by
  by_cases room : 0 < bits.numClear
  · obtain ⟨which, unset, found'⟩ := BitMap.find_of_clear room
    rw [result] at found'
    cases found'
    exact ⟨unset, rfl⟩
  · rw [BitMap.find_of_full (Nat.eq_zero_of_not_pos room)] at result
    cases result
    exact absurd inside.1 (by decide)

/-! ## Steps which the protocol does not see -/

variable {granted asleep : ProcessPoint} (bits : state.Bits)
include bits

theorem waitOn_multex_follows (sameGranted : granted.role = (state.points thread).role)
    (sameAsleep : asleep.role = (state.points thread).role)
    (success : state.waitOn number .multex thread granted asleep = .ok after) :
    Follows state (.run thread) after := by
  obtain ⟨pcb, present, -, ⟨taken, -, rfl⟩ | ⟨-, rfl⟩⟩ :=
    waitOn_inv success
  · exact .stay bits nofun (family_update_same present (member_setMultex ..) sameGranted) rfl
  · exact .stay bits nofun (family_update_same present (member_setMultex ..) sameAsleep) rfl

theorem waitOnBmsem_follows (sameGranted : granted.role = (state.points thread).role)
    (success : state.waitOnBmsem thread granted = .ok after) :
    Follows state (.run thread) after := by
  unfold waitOnBmsem at success
  split at success
  · cases success
  · split at success
    · cases success
      exact .stay bits nofun (family_setPoint_same sameGranted) rfl
    · cases success
      exact .stay bits nofun rfl rfl

theorem setPoint_follows (silent : ∀ thread exitcode, event ≠ .exit thread exitcode)
    (same : point.role = (state.points thread).role) :
    Follows state event (state.setPoint thread point) :=
  .stay bits silent (family_setPoint_same same) rfl

/-! ## `Exec` -/

theorem execChecks_follows {opened itself : Bool} (free : (state.points thread).role = .free) :
    Follows state (.run thread) (state.execChecks thread opened itself) := by
  have refused : ∀ result, Follows state (.run thread)
      (state.setPoint thread (.execLeave result)) :=
    fun result => setPoint_follows bits nofun free.symm
  unfold execChecks
  split
  · exact refused _
  · rcases find : state.bm.find with ⟨found, bm⟩
    simp only []
    split
    · rename_i inside
      obtain ⟨unset, rfl⟩ := find_inv find inside
      generalize pid : (⟨found.toNat, inside.2⟩ : Pid) = slot at unset
      have empty : state.pcb slot = none := by
        rw [bits, Option.isSome_eq_false_iff, Option.isNone_iff_eq_none] at unset
        exact unset
      refine ⟨?_, ?_⟩
      · have step : Family.Step state.family (.run thread)
            (state.family.createMember thread slot) := .create free empty
        simp only [family, map_update, role_update]
        exact step
      · intro other
        simp only [BitMap.test_mark, bits other]
        by_cases same : other = slot
        · subst same
          simp only [decide_true, Bool.true_or, update_self, Option.isSome_some]
        · simp only [same, decide_false, Bool.false_or, update_of_ne same]
    · exact refused _

theorem execFork_follows {child : Nat} (forking : (state.points thread).role = .forking pid child) :
    Follows state (.run thread) (state.execFork thread pid child) := by
  refine ⟨?_, bits⟩
  have step : Family.Step state.family (.run thread)
      (state.family.forkMember thread pid child) := .fork forking
  simp only [family, execFork, role_update]
  exact step

/-! ## `Join` -/

theorem joinUpdate_follows {word : Word} (free : (state.points thread).role = .free)
    (success : state.joinUpdate thread word = .ok after) :
    Follows state (.join thread word) after := by
  have refused : Follows state (.join thread word) (state.setPoint thread (.user (-1#32))) :=
    setPoint_follows bits nofun free.symm
  unfold joinUpdate at success
  split at success
  · cases success
  · rename_i pid index
    split_ifs at success with marked
    · obtain ⟨child, listed, success⟩ := bind_ok_inv success
      obtain ⟨pcb, found, success⟩ := bind_ok_inv success
      split_ifs at success with isParent
      · obtain ⟨own, -, success⟩ := bind_ok_inv success
        cases success
        refine ⟨?_, bits⟩
        rw [family_setPoint]
        exact .joinStart free index (slot_inv listed) (member_of_object (object_inv found)) isParent
      · cases success
        exact refused
    · cases success
      exact refused

theorem waitOn_joinsem_follows {child : Nat} (join : state.family.AtJoin thread pid child number)
    (success : state.waitOn number .joinsem thread (.joinRead pid child)
      (.joinSleep pid child number) = .ok after) :
    Follows state (.run thread) after := by
  obtain ⟨pcb, present, awake, ⟨taken, available, rfl⟩ | ⟨unavailable, rfl⟩⟩ := waitOn_inv success
  · refine ⟨?_, bits⟩
    rw [family_update]
    exact .joinPass join (member_of_object present) awake available
  · refine ⟨?_, bits⟩
    rw [family_update]
    exact .joinSleep join (member_of_object present) awake unavailable

theorem joinRead_follows {child : Nat} (passed : (state.points thread).role = .passed pid child)
    (success : state.joinRead thread pid child = .ok after) :
    Follows state (.run thread) after := by
  obtain ⟨number, listed, success⟩ := bind_ok_inv success
  obtain ⟨pcb, found, success⟩ := bind_ok_inv success
  obtain ⟨released, signalled, success⟩ := bind_ok_inv success
  obtain ⟨pcb', present, rfl⟩ := signalOn_inv signalled
  rw [object_inv found] at present
  cases present
  cases success
  refine ⟨?_, bits⟩
  rw [family_update]
  exact .joinRead passed (slot_inv listed) (member_of_object (object_inv found))

/-! ## `Exit` -/

theorem exitUpdate_follows {exitcode : Word} (core : Family.Core state.family)
    (free : (state.points thread).role = .free)
    (success : state.exitUpdate thread exitcode = .ok after) :
    Follows state (.exit thread exitcode) after := by
  have home : state.pcb (state.pids thread) = some thread :=
    core.home thread (by simp only [family, free, Role.Live])
  unfold exitUpdate at success
  split_ifs at success with isMain marked
  · obtain ⟨own, listed, success⟩ := bind_ok_inv success
    obtain ⟨pcb, found, success⟩ := bind_ok_inv success
    obtain ⟨parent, named, success⟩ := bind_ok_inv success
    obtain ⟨parentPid, index, parentListed⟩ := slotAt_inv named
    cases success
    refine ⟨?_, bits⟩
    rw [family_update]
    exact .exitStart free isMain (slot_inv listed)
      (member_of_object (object_inv found)) index parentListed
  · rw [bits, home] at marked
    exact absurd rfl marked

theorem exitSignal_follows (signalling : (state.points thread).role = .signalling)
    (listed : state.pcb (state.pids thread) = some number)
    (success : state.signalOn number .joinsem = .ok after) :
    Follows state (.run thread) (after.setPoint thread .exitWait) := by
  obtain ⟨pcb, present, rfl⟩ := signalOn_inv success
  refine ⟨?_, bits⟩
  rw [family_update]
  exact .exitSignal signalling listed (member_of_object present)

theorem waitOn_exitsem_follows (exit : state.family.AtExit thread number)
    (success : state.waitOn number .exitsem thread .exitRemove (.exitSleep number) = .ok after) :
    Follows state (.run thread) after := by
  obtain ⟨pcb, present, awake, ⟨taken, available, rfl⟩ | ⟨unavailable, rfl⟩⟩ := waitOn_inv success
  · refine ⟨?_, bits⟩
    rw [family_update]
    exact .exitPass exit (member_of_object present) awake available
  · refine ⟨?_, bits⟩
    rw [family_update]
    exact .exitSleep exit (member_of_object present) awake unavailable

theorem exitClear_follows (core : Family.Core state.family)
    (leaving : (state.points thread).role = .leaving) :
    Follows state (.run thread) (state.exitClear thread) := by
  have home : state.pcb (state.pids thread) = some thread :=
    core.home thread (by simp only [family, leaving, Role.Live])
  refine ⟨?_, ?_⟩
  · have step : Family.Step state.family (.run thread)
        (state.family.removeMember thread thread) := .clear leaving home
    simp only [family, exitClear, home, map_update, role_update]
    exact step
  · intro pid
    simp only [exitClear, BitMap.test_clear, bits pid]
    by_cases same : pid = state.pids thread
    · subst same
      simp only [decide_true, Bool.not_true, Bool.false_and, update_self, Option.isSome_none]
    · simp only [same, decide_false, Bool.not_false, Bool.true_and, update_of_ne same]

/-! ## All steps -/

theorem run_follows (core : Family.Core state.family) (success : state.run thread = .ok after) :
    Follows state (.run thread) after := by
  cases point : state.points thread <;> simp only [run, point] at success
  case absent | user | finished => cases success
  case starting =>
    obtain ⟨-, -, success⟩ := bind_ok_inv success
    cases success
    exact setPoint_follows bits nofun (by rw [point]; rfl)
  case execEnter | exitRemove =>
    exact waitOnBmsem_follows bits (by rw [point]; rfl) success
  case execChecks =>
    cases success
    exact execChecks_follows bits (by rw [point]; rfl)
  case execFork =>
    cases success
    exact execFork_follows bits (by rw [point]; rfl)
  case execForked =>
    obtain ⟨released, signalled, success⟩ := bind_ok_inv success
    obtain ⟨pcb, present, rfl⟩ := signalOn_inv signalled
    cases success
    exact .stay bits nofun (family_update_same present
      (member_setMultex ..) (by rw [point]; rfl)) rfl
  case execLeave result =>
    cases success
    have same : (state.setPoint thread (.user result)).family =
        state.family := family_setPoint_same (by rw [point]; rfl)
    exact .stay bits nofun same rfl
  case joinEnter | exitEnter =>
    exact waitOn_multex_follows bits (by rw [point]; rfl) (by rw [point]) success
  case joinCount =>
    obtain ⟨counted, added, success⟩ := bind_ok_inv success
    obtain ⟨same, bm, points⟩ := addNumwait_family added
    cases success
    refine .stay bits nofun ?_ bm
    rw [family_setPoint_same (by rw [points, point]; rfl), same]
  case joinWait =>
    obtain ⟨number, listed, success⟩ := bind_ok_inv success
    exact waitOn_joinsem_follows bits (.inl ⟨congrArg ProcessPoint.role point, slot_inv listed⟩)
      success
  case joinSleep =>
    exact waitOn_joinsem_follows bits (.inr (congrArg ProcessPoint.role point)) success
  case joinRead =>
    exact joinRead_follows bits (by rw [point]; rfl) success
  case joinReturn child exitcode =>
    cases success
    refine ⟨?_, bits⟩
    rw [family_setPoint]
    exact .joinReturn (congrArg ProcessPoint.role point)
  case exitCount parent =>
    obtain ⟨counted, added, success⟩ := bind_ok_inv success
    obtain ⟨same, bm, points⟩ := addNumwait_family added
    cases success
    refine ⟨?_, ?_⟩
    · rw [family_setPoint, same]
      exact .exitCounted (congrArg ProcessPoint.role point)
    · have pcb : counted.pcb = state.pcb := congrArg Family.table same
      intro pid
      simp only [setPoint, bm, pcb, bits pid]
  case exitSignal =>
    obtain ⟨number, listed, success⟩ := bind_ok_inv success
    obtain ⟨released, signalled, success⟩ := bind_ok_inv success
    cases success
    exact exitSignal_follows bits (by rw [point]; rfl) (slot_inv listed) signalled
  case exitWait =>
    obtain ⟨number, listed, success⟩ := bind_ok_inv success
    exact waitOn_exitsem_follows bits (.inl ⟨congrArg ProcessPoint.role point, slot_inv listed⟩)
      success
  case exitSleep =>
    exact waitOn_exitsem_follows bits (.inr (congrArg ProcessPoint.role point)) success
  case exitClear =>
    cases success
    exact exitClear_follows bits core (by rw [point]; rfl)

theorem Step.follows (taken : Step state event after)
    (core : Family.Core state.family) : Follows state event after := by
  cases event with
  | exec thread opened itself =>
    simp only [Step, next] at taken
    split at taken
    · rename_i point
      cases taken
      exact setPoint_follows bits nofun (by rw [point]; rfl)
    · cases taken
  | join thread pid =>
    simp only [Step, next] at taken
    split at taken
    · rename_i point
      exact joinUpdate_follows bits (by rw [point]; rfl) taken
    · cases taken
  | exit thread exitcode =>
    simp only [Step, next] at taken
    split at taken
    · rename_i point
      exact exitUpdate_follows bits core (by rw [point]; rfl) taken
    · cases taken
  | run thread => exact run_follows bits core taken

end Processes

end Nachos
