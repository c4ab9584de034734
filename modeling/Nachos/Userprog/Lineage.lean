import Nachos.Userprog.Handshake

/-!
# Parents and exit codes

As long as no process exits before the processes it has made have left the
table, the parent of a process in the table is there, too, and its slot has
not been given to another process.  Then a join gives the exit code of the
child it was called for to the process which made the child.
-/

open Words Semaphores Transition Function

namespace Nachos

namespace Family

/-- Every process but the first one has a parent which is not exiting, and
which its PCB names. -/
structure Lineage (family : Family) : Prop where
  main : family.creator 0 = none
  unmade : ∀ number, family.created ≤ number → family.creator number = none
  parent : ∀ child member, family.members child = some member →
    child ≠ 0 →
    ∃ parent, family.creator child = some parent ∧
      (family.roles parent).Live ∧ ¬(family.roles parent).Exiting ∧
      member.parentID = pidWord (family.pids parent)
  exiting : ∀ thread parent,
    family.roles thread = .exiting parent →
    family.creator thread = some parent

variable {family : Family} {member : Member} {thread : Nat} {child : Nat}

theorem Lineage.childless (lineage : Lineage family) (exiting : (family.roles thread).Exiting)
    (present : family.members child = some member) :
    family.creator child ≠ some thread := by
  intro creator
  have notMain : child ≠ 0 := by
    rintro rfl
    rw [lineage.main] at creator
    cases creator
  obtain ⟨parent, creator', -, stays, -⟩ :=
    lineage.parent child member present notMain
  rw [creator] at creator'
  cases creator'
  exact stays exiting

variable {role : Role}

theorem Lineage.setRole (lineage : Lineage family)
    (stays : ∀ child member, family.members child = some member →
      family.creator child = some thread → role.Live ∧ ¬role.Exiting)
    (exiting : ∀ parent, role = .exiting parent → family.creator thread = some parent) :
    Lineage (family.setRole thread role) := by
  refine ⟨lineage.main, lineage.unmade, ?_, ?_⟩
  · intro child member present notMain
    obtain ⟨parent, creator, live, notExiting, parentID⟩ :=
      lineage.parent child member present notMain
    have kept : ((family.setRole thread role).roles parent).Live ∧
        ¬((family.setRole thread role).roles parent).Exiting := by
      revert creator live notExiting
      simp only [Family.setRole]
      exact update_cases (fun creator _ _ => stays child member present creator)
        (fun _ _ _ => And.intro) parent
    exact ⟨parent, creator, kept.1, kept.2, parentID⟩
  · simp only [Family.setRole]
    exact update_cases exiting fun other _ => lineage.exiting other

variable {changed : Member} {number : Nat}

section

variable (lineage : Lineage family) (present : family.members number = some member)
  (parentID : changed.parentID = member.parentID)
include lineage present parentID

theorem Lineage.setMember : Lineage (family.setMember number changed) := by
  refine ⟨lineage.main, lineage.unmade, ?_, lineage.exiting⟩
  simp only [Family.setMember]
  refine update_cases ?_ fun other _ => lineage.parent other
  rintro _ ⟨⟩ notMain
  rw [parentID]
  exact lineage.parent number member present notMain

theorem Lineage.update (live : role.Live) (notExiting : ¬role.Exiting) :
    Lineage ((family.setMember number changed).setRole thread role) := by
  refine (lineage.setMember present parentID).setRole (fun _ _ _ _ => ⟨live, notExiting⟩) ?_
  rintro parent rfl
  exact absurd trivial notExiting

theorem Lineage.updateExiting (exiting : (family.roles thread).Exiting)
    (counted : ∀ parent, role ≠ .exiting parent) :
    Lineage ((family.setMember number changed).setRole thread role) := by
  refine (lineage.setMember present parentID).setRole ?_
    fun parent same => absurd same (counted parent)
  intro child found lookup creator
  obtain ⟨old, oldPresent⟩ : ∃ old, family.members child = some old := by
    by_cases same : child = number
    · exact ⟨member, same ▸ present⟩
    · exact ⟨found, (update_of_ne same ..).symm.trans lookup⟩
  exact absurd creator (lineage.childless exiting oldPresent)

end

theorem Core.created_pos (core : Core family) : family.created ≠ 0 := by
  intro zero
  have absent := core.unborn 0 (Nat.le_of_eq zero)
  exact ne_of_absent absent core.main.2.1 rfl

variable {pid : Pid}

section

variable (lineage : Lineage family)
include lineage

theorem Lineage.createMember (core : Core family) (free : family.roles thread = .free) :
    Lineage (family.createMember thread pid) := by
  have unstarted : family.roles family.created = .absent :=
    core.unborn _ (Nat.le_refl _)
  have notThread : thread ≠ family.created := by
    rintro same
    rw [← same, free] at unstarted
    cases unstarted
  refine ⟨?_, ?_, ?_, ?_⟩
  · exact (update_of_ne core.created_pos.symm ..).trans lineage.main
  · intro number unmade
    have later : family.created ≤ number := Nat.le_of_succ_le unmade
    have different : number ≠ family.created :=
      (Nat.lt_of_succ_le unmade).ne'
    exact (update_of_ne different ..).trans (lineage.unmade number later)
  · intro child member present notMain
    by_cases same : child = family.created
    · subst same
      simp only [Family.createMember, update_self] at present
      cases present
      refine ⟨thread, update_self .., ?_⟩
      simp only [Family.createMember, update_self]
      exact ⟨trivial, id, rfl⟩
    · obtain ⟨parent, creator, live, notExiting, parentID⟩ :=
        lineage.parent child member ((update_of_ne same ..).symm.trans present) notMain
      refine ⟨parent, (update_of_ne same ..).trans creator, ?_⟩
      by_cases isThread : parent = thread
      · subst isThread
        simp only [Family.createMember, update_self]
        exact ⟨trivial, id, parentID⟩
      · simp only [Family.createMember, update_of_ne isThread]
        exact ⟨live, notExiting, parentID⟩
  · intro other parent found
    obtain ⟨-, found⟩ := of_update_eq found (by simp)
    have started : other ≠ family.created := by
      rintro rfl
      rw [unstarted] at found
      cases found
    exact (update_of_ne started ..).trans (lineage.exiting other parent found)

theorem Lineage.forkMember (core : Core family)
    (forking : family.roles thread = .forking pid child) :
    Lineage (family.forkMember thread pid child) := by
  obtain ⟨-, absent, -⟩ := core.forking thread pid child forking
  refine ⟨lineage.main, lineage.unmade, ?_, ?_⟩
  · intro other member present notMain
    obtain ⟨parent, creator, live, notExiting, parentID⟩ :=
      lineage.parent other member present notMain
    have started : parent ≠ child := (ne_of_absent absent live).symm
    refine ⟨parent, creator, ?_⟩
    by_cases same : parent = thread
    · subst same
      simp only [Family.forkMember, update_self, update_of_ne started]
      exact ⟨trivial, id, parentID⟩
    · simp only [Family.forkMember, update_of_ne same, update_of_ne started]
      exact ⟨live, notExiting, parentID⟩
  · intro other parent found
    obtain ⟨-, found⟩ := of_update_eq found (by simp)
    obtain ⟨-, found⟩ := of_update_eq found (by simp)
    exact lineage.exiting other parent found

theorem Lineage.removeMember (leaving : family.roles thread = .leaving) :
    Lineage (family.removeMember thread thread) := by
  have exiting : (family.roles thread).Exiting := by
    rw [leaving]
    trivial
  refine ⟨lineage.main, lineage.unmade, ?_, ?_⟩
  · intro child member present notMain
    obtain ⟨-, present⟩ := of_update_eq present (by simp)
    obtain ⟨parent, creator, live, notExiting, parentID⟩ :=
      lineage.parent child member present notMain
    have stays : parent ≠ thread := by
      rintro rfl
      exact notExiting exiting
    refine ⟨parent, creator, ?_⟩
    simp only [Family.removeMember, update_of_ne stays]
    exact ⟨live, notExiting, parentID⟩
  · intro other parent found
    obtain ⟨-, found⟩ := of_update_eq found (by simp)
    exact lineage.exiting other parent found

/-- The slot which the PCB of a process names as its parent belongs to the
process which made it. -/
theorem Lineage.parent_slot (core : Core family) (present : family.members child = some member)
    (notMain : child ≠ 0) :
    ∃ parent, family.creator child = some parent ∧
      (family.roles parent).Live ∧
      Processes.pidOf member.parentID = some (family.pids parent) ∧
      family.table (family.pids parent) = some parent := by
  obtain ⟨parent, creator, live, -, parentID⟩ :=
    lineage.parent child member present notMain
  refine ⟨parent, creator, live, ?_, core.home parent live⟩
  rw [parentID, pidOf_pidWord]

theorem Lineage.step {after : Family} (core : Core family) {event : ProcessEvent}
    (taken : Step family event after) (last : family.ExitsLast event) :
    Lineage after := by
  cases taken with
  | stay _ => exact lineage
  | create free _ => exact lineage.createMember core free
  | fork forking => exact lineage.forkMember core forking
  | joinStart _ _ _ _ _ | joinReturn _ =>
    exact lineage.setRole (fun _ _ _ _ => ⟨trivial, id⟩) nofun
  | joinSleep _ present _ _ | joinPass _ present _ _ | joinRead _ _ present =>
    exact lineage.update present rfl trivial id
  | @exitStart thread own parent parentPid member exitcode free notZero
      listed present named parentListed =>
      have live : (family.roles thread).Live := by
        rw [free]
        trivial
      rw [core.home thread live] at listed
      cases listed
      have notMain : thread ≠ 0 := by
        rintro rfl
        exact absurd (congrArg Fin.val core.main.1) notZero
      have changed : Lineage (family.setMember thread { member with exitcode := exitcode }) :=
        lineage.setMember present rfl
      refine changed.setRole ?_ ?_
      · intro child found lookup creator
        obtain ⟨old, oldPresent⟩ : ∃ old, family.members child = some old := by
          by_cases same : child = thread
          · exact ⟨member, same ▸ present⟩
          · exact ⟨found, (update_of_ne same ..).symm.trans lookup⟩
        have removed :=
          last child (core.born child old oldPresent) creator
        rw [oldPresent] at removed
        cases removed
      · intro parent' same
        cases same
        obtain ⟨maker, creator, -, named', listed'⟩ :=
          lineage.parent_slot core present notMain
        rw [named] at named'
        cases named'
        rw [parentListed] at listed'
        cases listed'
        exact creator
  | exitCounted exiting =>
    refine lineage.setRole ?_ nofun
    intro child member present creator
    exact absurd creator (lineage.childless (by rw [exiting]; trivial) present)
  | exitSignal signalling _ present =>
    exact lineage.updateExiting present rfl (by rw [signalling]; trivial) nofun
  | exitSleep exit present _ _ | exitPass exit present _ _ =>
    obtain ⟨rfl, -, signalled, -⟩ := core.atExit exit
    exact lineage.updateExiting present rfl (Role.exiting_of_signalled signalled) nofun
  | clear leaving listed =>
    rw [core.home _ (by rw [leaving]; trivial)] at listed
    cases listed
    exact lineage.removeMember leaving

end

/-! ## Exit codes -/

/-- The exit code of a member comes from its own exit, and a join returns
the exit code of a child to the process which made it. -/
structure Told (events : List ProcessEvent) (family : Family) : Prop where
  code : ∀ thread member, (family.roles thread).Exiting →
    family.members thread = some member →
    .exit thread member.exitcode ∈ events
  returned : ∀ thread child exitcode,
    family.roles thread = .returning child exitcode →
    family.creator child = some thread ∧ .exit child exitcode ∈ events

variable {events : List ProcessEvent}

section

variable (told : Told events family)
include told

theorem Told.extend (event : ProcessEvent) : Told (events ++ [event]) family where
  code thread member exiting present :=
    List.mem_append_left _ (told.code thread member exiting present)
  returned thread child exitcode returning :=
    (told.returned thread child exitcode returning).imp_right (List.mem_append_left _)

theorem Told.setRole (exiting : role.Exiting → (family.roles thread).Exiting)
    (returned : ∀ child exitcode, role = .returning child exitcode →
      family.creator child = some thread ∧ .exit child exitcode ∈ events) :
    Told events (family.setRole thread role) := by
  refine ⟨?_, ?_⟩ <;> simp only [Family.setRole]
  · exact update_cases (fun member found => told.code thread member (exiting found))
      fun other _ => told.code other
  · exact update_cases returned fun other _ => told.returned other

section

variable (present : family.members number = some member)
  (exitcode : changed.exitcode = member.exitcode)
include present exitcode

theorem Told.setMember : Told events (family.setMember number changed) := by
  refine ⟨?_, told.returned⟩
  simp only [Family.setMember]
  refine update_cases ?_ fun thread _ => told.code thread
  rintro _ exiting ⟨⟩
  rw [exitcode]
  exact told.code number member exiting present

theorem Told.update (exiting : role.Exiting → (family.roles thread).Exiting)
    (silent : ∀ child exitcode, role ≠ .returning child exitcode) :
    Told events ((family.setMember number changed).setRole thread role) :=
  (told.setMember present exitcode).setRole exiting
    fun child code same => absurd same (silent child code)

end

theorem Told.createMember (core : Core family) (lineage : Lineage family) :
    Told events (family.createMember thread pid) := by
  refine ⟨?_, ?_⟩
  · intro other member exiting present
    have notThread : other ≠ thread := by
      rintro rfl
      simp only [Family.createMember, update_self] at exiting
      exact exiting
    simp only [Family.createMember, update_of_ne notThread] at exiting
    have started : other ≠ family.created := by
      rintro rfl
      rw [core.unborn _ (Nat.le_refl _)] at exiting
      exact exiting
    exact told.code other member exiting ((update_of_ne started ..).symm.trans present)
  · intro other child exitcode found
    obtain ⟨-, found⟩ := of_update_eq found (by simp)
    obtain ⟨creator, told⟩ := told.returned other child exitcode found
    have made : child ≠ family.created := by
      rintro rfl
      rw [lineage.unmade _ (Nat.le_refl _)] at creator
      cases creator
    exact ⟨(update_of_ne made ..).trans creator, told⟩

theorem Told.forkMember : Told events (family.forkMember thread pid child) := by
  have old : ∀ other,
      (family.forkMember thread pid child).roles other = .free ∨
        (family.forkMember thread pid child).roles other =
          family.roles other := by
    intro other
    simp only [Family.forkMember, update_apply]
    split_ifs <;> simp only [true_or, or_true]
  refine ⟨?_, ?_⟩
  · intro other member exiting present
    rcases old other with same | same <;> rw [same] at exiting
    · exact exiting.elim
    · exact told.code other member exiting present
  · intro other target exitcode found
    rcases old other with same | same <;> rw [same] at found
    · cases found
    · exact told.returned other target exitcode found

theorem Told.removeMember : Told events (family.removeMember thread number) := by
  refine ⟨?_, ?_⟩
  · intro other member exiting present
    have notThread : other ≠ thread := by
      rintro rfl
      simp only [Family.removeMember, update_self] at exiting
      exact exiting
    obtain ⟨-, present⟩ := of_update_eq present (by simp)
    simp only [Family.removeMember, update_of_ne notThread] at exiting
    exact told.code other member exiting present
  · intro other child exitcode found
    obtain ⟨-, found⟩ := of_update_eq found (by simp)
    exact told.returned other child exitcode found

theorem Told.exitStart {parent : Nat} {exitcode : Word} : Told (events ++ [.exit thread exitcode])
      ((family.setMember thread { member with exitcode := exitcode }).setRole
        thread (.exiting parent)) := by
  refine ⟨?_, ?_⟩
  · intro other found
    by_cases same : other = thread
    · subst same
      simp only [Family.setRole, Family.setMember, update_self]
      rintro - ⟨⟩
      exact List.mem_append_right _ (List.mem_singleton_self _)
    · simp only [Family.setRole, Family.setMember, update_of_ne same]
      exact (told.extend _).code other found
  · intro other child code found
    obtain ⟨-, found⟩ := of_update_eq found (by simp)
    exact (told.extend _).returned other child code found

end

/-- A thread which has been released by a child is the process which made
the child, and the child has started to exit. -/
theorem Joins.passed (joins : Joins family) (core : Core family) (lineage : Lineage family)
    (passed : family.roles thread = .passed pid child) :
    family.table pid = some child ∧
      family.creator child = some thread ∧
      (family.roles child).Exiting := by
  have joining : (family.roles thread).joins = some (pid, child) := by
    rw [passed]
    rfl
  obtain ⟨listed, member, present, parentID, -⟩ :=
    joins.target thread pid child joining
  have signalled : (family.roles child).Signalled := by
    by_contra quiet
    exact ((joins.members child member present).quiet quiet).2.2 thread pid passed
  have exiting := Role.exiting_of_signalled signalled
  have notMain : child ≠ 0 := by
    rintro rfl
    exact core.main.2.2 exiting
  obtain ⟨parent, creator, live, -, named⟩ :=
    lineage.parent child member present notMain
  have same : thread = parent :=
    core.unique (Role.live_of_joins joining) live (pidWord_injective (parentID.trans named))
  exact ⟨listed, same ▸ creator, exiting⟩

theorem Told.step {after : Family} (told : Told events family)
    (core : Core family) (joins : Joins family) (lineage : Lineage family)
    {event : ProcessEvent} (taken : Step family event after) :
    Told (events ++ [event]) after := by
  have told' := told.extend event
  cases taken with
  | stay _ => exact told'
  | create _ _ => exact told'.createMember core lineage
  | fork _ => exact told'.forkMember
  | joinStart _ _ _ _ _ | joinReturn _ => exact told'.setRole False.elim nofun
  | joinSleep _ present _ _ | joinPass _ present _ _ =>
    exact told'.update present rfl False.elim nofun
  | @joinRead _ child _ _ member passed listed present =>
    obtain ⟨listed', creator, exiting⟩ :=
      joins.passed core lineage passed
    rw [listed] at listed'
    cases listed'
    have released : Told _ (family.setMember child
        { member with exitsem := member.exitsem.release }) :=
      told'.setMember present rfl
    refine released.setRole False.elim ?_
    intro child exitcode same
    cases same
    exact ⟨creator, told'.code _ _ exiting present⟩
  | exitStart free _ listed _ _ _ =>
    rw [core.home _ (by rw [free]; trivial)] at listed
    cases listed
    exact told.exitStart
  | exitCounted exiting =>
    exact told'.setRole (fun _ => by rw [exiting]; trivial) nofun
  | exitSignal signalling _ present =>
    exact told'.update present rfl (fun _ => by rw [signalling]; trivial) nofun
  | exitSleep exit present _ _ | exitPass exit present _ _ =>
    obtain ⟨rfl, -, signalled, -⟩ := core.atExit exit
    exact told'.update present rfl (fun _ => Role.exiting_of_signalled signalled) nofun
  | clear _ _ => exact told'.removeMember

end Family

end Nachos
