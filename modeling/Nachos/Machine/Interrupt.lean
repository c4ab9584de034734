import Nachos.Lib.Transition

/-!
# Hardware interrupts

Devices schedule interrupts for a later time, and the clock advances with
every tick and jumps when nothing is ready to run.  `CheckIfDue` takes the
first pending interrupt from the list and calls its handler or puts it back.
A handler runs step by step and can schedule further interrupts before it
returns; the loops of `OneTick` and `Idle` go on from there.
-/

open Transition

namespace Nachos

inductive IntStatus where
  | IntOff | IntOn
  deriving DecidableEq

inductive MachineStatus where
  | IdleMode | SystemMode | UserMode
  deriving DecidableEq

inductive IntType where
  | TimerInt | DiskInt | ConsoleWriteInt | ConsoleReadInt
  | NetworkSendInt | NetworkRecvInt
  deriving DecidableEq

/-- A scheduled interrupt; `ident` tells apart the objects, and `handler`
stands for the procedure with its argument. -/
structure PendingInterrupt (η : Type) where
  ident : Nat
  handler : η
  when : Nat
  type : IntType
  deriving DecidableEq

structure Statistics where
  totalTicks : Nat
  idleTicks : Nat
  systemTicks : Nat
  userTicks : Nat
  deriving DecidableEq

def userTick : Nat := 1

def systemTick : Nat := 10

/-- `List::SortedInsert`. -/
def sortedInsert {η : Type} (item : PendingInterrupt η)
    (list : List (PendingInterrupt η)) : List (PendingInterrupt η) :=
  list.orderedInsert (fun new old => new.when < old.when) item

/-- The interrupt hardware and its clock.  `scheduled` records all interrupts
there have been, and `fired` the handlers which have been called, each with
the time of the call. -/
structure Interrupt (η : Type) where
  level : IntStatus
  pending : List (PendingInterrupt η)
  inHandler : Bool
  yieldOnReturn : Bool
  status : MachineStatus
  stats : Statistics
  scheduled : List (PendingInterrupt η)
  fired : List (PendingInterrupt η × Nat)
  deriving DecidableEq

namespace Interrupt

variable {η : Type}

/-- `Interrupt::Interrupt`. -/
def new : Interrupt η where
  level := .IntOff
  pending := []
  inHandler := false
  yieldOnReturn := false
  status := .SystemMode
  stats := ⟨0, 0, 0, 0⟩
  scheduled := []
  fired := []

/-- `Interrupt::Schedule`. -/
def schedule (state : Interrupt η) (handler : η) (fromNow : Nat)
    (type : IntType) : Option (Interrupt η) :=
  let toOccur : PendingInterrupt η :=
    ⟨state.scheduled.length, handler, state.stats.totalTicks + fromNow, type⟩
  if 0 < fromNow then
    some { state with
      pending := sortedInsert toOccur state.pending
      scheduled := state.scheduled ++ [toOccur] }
  else none

/-- The clock at the start of `OneTick`. -/
def tick (state : Interrupt η) : Interrupt η :=
  match state.status with
  | .SystemMode => { state with
      stats := { state.stats with
        totalTicks := state.stats.totalTicks + systemTick
        systemTicks := state.stats.systemTicks + systemTick } }
  | _ => { state with
      stats := { state.stats with
        totalTicks := state.stats.totalTicks + userTick
        userTicks := state.stats.userTicks + userTick } }

/-- The clock jumps to the next interrupt. -/
def advanceTo (state : Interrupt η) (time : Nat) : Interrupt η :=
  { state with
    stats := { state.stats with
      idleTicks :=
        state.stats.idleTicks + (time - state.stats.totalTicks)
      totalTicks := time } }

def putBack (state : Interrupt η) (toOccur : PendingInterrupt η) :
    Interrupt η :=
  { state with pending := sortedInsert toOccur state.pending }

/-- The end of `CheckIfDue` for an interrupt which is due: its handler is
called, unless the machine is idle and only the timer is left. -/
def occur (state : Interrupt η) (toOccur : PendingInterrupt η) :
    Option (PendingInterrupt η) × Interrupt η :=
  if state.status = .IdleMode ∧ toOccur.type = .TimerInt ∧ state.pending.isEmpty then
    (none, state.putBack toOccur)
  else
    (some toOccur, { state with
      inHandler := true
      status := .SystemMode
      fired := state.fired ++ [(toOccur, state.stats.totalTicks)] })

/-- `Interrupt::CheckIfDue` up to the call of a handler.  There is none if
the result is `FALSE`. -/
def checkIfDue (state : Interrupt η) (advanceClock : Bool) :
    Option (PendingInterrupt η) × Interrupt η :=
  match state.pending with
  | [] => (none, state)
  | toOccur :: rest =>
    let removed := { state with pending := rest }
    if advanceClock ∧ state.stats.totalTicks < toOccur.when then
      (removed.advanceTo toOccur.when).occur toOccur
    else if state.stats.totalTicks < toOccur.when then
      (none, removed.putBack toOccur)
    else removed.occur toOccur

end Interrupt

/-- The loop which has called `CheckIfDue`, with the `status` from the start
of `OneTick`. -/
inductive Routine where
  | oneTick (old : MachineStatus)
  | idle
  deriving DecidableEq

/-- Where the processor is: outside this module, before a call of
`CheckIfDue`, or in a handler with the `status` to be restored. -/
inductive Dispatch where
  | running
  | checking (routine : Routine)
  | idling
  | handling (routine : Routine) (old : MachineStatus)
  | halted
  deriving DecidableEq

inductive InterruptEvent (η : Type) where
  | schedule (handler : η) (fromNow : Nat) (type : IntType)
  | setLevel (now : IntStatus)
  | oneTick
  | idle
  | setStatus (status : MachineStatus)
  | check
  | yieldOnReturn
  | handlerReturns

structure Hardware (η : Type) where
  interrupt : Interrupt η
  dispatch : Dispatch
  deriving DecidableEq

namespace Hardware

variable {η : Type}

def boot : Hardware η := ⟨Interrupt.new, .running⟩

/-- `OneTick` up to its loop. -/
def startTick (interrupt : Interrupt η) : Hardware η where
  interrupt := { interrupt.tick with level := .IntOff }
  dispatch := .checking (.oneTick interrupt.status)

/-- What follows the loops.  If `OneTick` yields, the code which runs until
it restores the status follows as further events. -/
def leave (interrupt : Interrupt η) : Routine → Interrupt η
  | .oneTick _ =>
    if interrupt.yieldOnReturn then
      { interrupt with
        level := .IntOn
        yieldOnReturn := false
        status := .SystemMode }
    else { interrupt with level := .IntOn }
  | .idle =>
    { interrupt with
      yieldOnReturn := false
      status := .SystemMode }

/-- `Interrupt::SetLevel`, which handlers may call only to disable
interrupts. -/
def setLevel (state : Hardware η) (now : IntStatus) : Option (Hardware η) :=
  let changed := { state.interrupt with level := now }
  match state.dispatch with
  | .running =>
    if now = .IntOn ∧ state.interrupt.level = .IntOff then
      some (startTick changed)
    else some ⟨changed, .running⟩
  | .handling routine old =>
    if now = .IntOff then some ⟨changed, .handling routine old⟩ else none
  | _ => none

/-- One call of `CheckIfDue`; if `Idle` finds nothing to wait for, the
machine halts. -/
def check (state : Hardware η) : Option (Hardware η) :=
  match state.dispatch with
  | .checking routine =>
    match state.interrupt.checkIfDue false with
    | (none, interrupt) => some ⟨leave interrupt routine, .running⟩
    | (some _, interrupt) =>
      some ⟨interrupt, .handling routine state.interrupt.status⟩
  | .idling =>
    match state.interrupt.checkIfDue true with
    | (none, interrupt) => some ⟨interrupt, .halted⟩
    | (some _, interrupt) =>
      some ⟨interrupt, .handling .idle state.interrupt.status⟩
  | _ => none

/-- One event; there is none if it is not possible or an `ASSERT` fails. -/
def next (state : Hardware η) : InterruptEvent η → Option (Hardware η)
  | .schedule handler fromNow type =>
    match state.dispatch with
    | .running | .handling _ _ => do
      let interrupt ← state.interrupt.schedule handler fromNow type
      return { state with interrupt := interrupt }
    | _ => none
  | .setLevel now => state.setLevel now
  | .oneTick =>
    match state.dispatch with
    | .running => some (startTick state.interrupt)
    | _ => none
  | .idle =>
    match state.dispatch with
    | .running =>
      if state.interrupt.level = .IntOff then
        some ⟨{ state.interrupt with status := .IdleMode }, .idling⟩
      else none
    | _ => none
  | .setStatus status =>
    match state.dispatch with
    | .running =>
      if status = .IdleMode then none
      else some ⟨{ state.interrupt with status := status }, .running⟩
    | _ => none
  | .check => if state.interrupt.level = .IntOff then state.check else none
  | .yieldOnReturn =>
    if state.interrupt.inHandler then
      some { state with
        interrupt := { state.interrupt with yieldOnReturn := true } }
    else none
  | .handlerReturns =>
    match state.dispatch with
    | .handling routine old =>
      some ⟨{ state.interrupt with status := old, inHandler := false }, .checking routine⟩
    | _ => none

abbrev Step (before : Hardware η) (event : InterruptEvent η) (after : Hardware η) : Prop :=
  before.next event = some after

end Hardware

/-! ## The list of pending interrupts -/

section

variable {η : Type}

def Sorted (list : List (PendingInterrupt η)) : Prop :=
  list.Pairwise fun first second => first.when ≤ second.when

theorem sortedInsert_perm (item : PendingInterrupt η) (list : List (PendingInterrupt η)) :
    (sortedInsert item list).Perm (item :: list) :=
  List.perm_orderedInsert _ item list

variable {list : List (PendingInterrupt η)}

theorem mem_sortedInsert {item entry : PendingInterrupt η} :
    entry ∈ sortedInsert item list ↔ entry = item ∨ entry ∈ list := by
  rw [(sortedInsert_perm item list).mem_iff, List.mem_cons]

theorem Sorted.sortedInsert {item : PendingInterrupt η} (sorted : Sorted list) :
    Sorted (sortedInsert item list) := by
  induction list with
  | nil => exact List.pairwise_singleton _ _
  | cons first rest induction =>
    obtain ⟨least, restSorted⟩ := List.pairwise_cons.mp sorted
    unfold Nachos.sortedInsert
    rw [List.orderedInsert_cons]
    split
    · rename_i earlier
      refine List.pairwise_cons.mpr ⟨?_, sorted⟩
      intro entry member
      rcases List.mem_cons.mp member with rfl | later
      · exact Nat.le_of_lt earlier
      · exact (Nat.le_of_lt earlier).trans (least entry later)
    · rename_i notEarlier
      refine List.pairwise_cons.mpr ⟨?_, induction restSorted⟩
      intro entry member
      rcases mem_sortedInsert.mp member with rfl | later
      · exact Nat.le_of_not_lt notEarlier
      · exact least entry later

end

namespace Interrupt

variable {η : Type}

/-! ## The invariant -/

/-- Every interrupt which has been scheduled is pending or has fired, and
nothing fires too early or out of order. -/
structure Sound (state : Interrupt η) : Prop where
  once : (state.pending ++ state.fired.map Prod.fst).Perm state.scheduled
  numbered : state.scheduled.map PendingInterrupt.ident = List.range state.scheduled.length
  sorted : Sorted state.pending
  due : ∀ firing ∈ state.fired, firing.1.when ≤ firing.2
  past : ∀ firing ∈ state.fired, firing.2 ≤ state.stats.totalTicks
  ordered : (state.fired.map fun firing => firing.1.when).Pairwise (· ≤ ·)
  first : ∀ firing ∈ state.fired, ∀ entry ∈ state.pending, firing.1.when ≤ entry.when
  ticks : state.stats.totalTicks = state.stats.idleTicks +
    state.stats.systemTicks + state.stats.userTicks

theorem sound_new : Sound (new : Interrupt η) where
  once := .refl _
  numbered := rfl
  sorted := .nil
  due := nofun
  past := nofun
  ordered := .nil
  first := nofun
  ticks := rfl

namespace Sound

variable {state : Interrupt η}

theorem congr {changed : Interrupt η} (sound : Sound state)
    (pending : changed.pending = state.pending)
    (stats : changed.stats = state.stats)
    (scheduled : changed.scheduled = state.scheduled)
    (fired : changed.fired = state.fired) : Sound changed := by
  obtain ⟨level, _, inHandler, yieldOnReturn, status, _, _, _⟩ := changed
  cases pending
  cases stats
  cases scheduled
  cases fired
  exact ⟨sound.once, sound.numbered, sound.sorted, sound.due, sound.past,
    sound.ordered, sound.first, sound.ticks⟩

theorem schedule {after : Interrupt η} {handler : η} {fromNow : Nat}
    {type : IntType} (sound : Sound state)
    (success : state.schedule handler fromNow type = some after) :
    Sound after := by
  unfold Interrupt.schedule at success
  split at success
  · rename_i positive
    cases success
    refine ⟨?_, ?_, sound.sorted.sortedInsert, sound.due, sound.past,
      sound.ordered, ?_, sound.ticks⟩
    · refine ((sortedInsert_perm _ _).append_right _).trans ?_
      exact (sound.once.cons _).trans (List.perm_append_singleton _ _).symm
    · simp only [List.map_append, sound.numbered, List.length_append]
      exact List.range_succ.symm
    · intro firing member entry pending
      rcases mem_sortedInsert.mp pending with rfl | old
      · have early := sound.due firing member
        have before := sound.past firing member
        simp only
        omega
      · exact sound.first firing member entry old
  · cases success

theorem tick (sound : Sound state) : Sound state.tick := by
  unfold Interrupt.tick
  have ticks := sound.ticks
  split
  all_goals
    refine ⟨sound.once, sound.numbered, sound.sorted, sound.due, ?_, sound.ordered, sound.first, ?_⟩
    · intro firing member
      exact (sound.past firing member).trans (Nat.le_add_right _ _)
    · simp only
      omega

theorem advanceTo {time : Nat} (sound : Sound state) (later : state.stats.totalTicks < time) :
    Sound (state.advanceTo time) := by
  have ticks := sound.ticks
  refine ⟨sound.once, sound.numbered, sound.sorted, sound.due, ?_, sound.ordered, sound.first, ?_⟩
  · intro firing member
    exact (sound.past firing member).trans (Nat.le_of_lt later)
  · simp only [Interrupt.advanceTo]
    omega

variable {rest : List (PendingInterrupt η)} {toOccur : PendingInterrupt η}

section

variable (sound : Sound state) (front : state.pending = toOccur :: rest)
include sound front

theorem putBack : Sound (({ state with pending := rest } : Interrupt η).putBack toOccur) := by
  have restSorted : Sorted rest :=
    (List.pairwise_cons.mp (front ▸ sound.sorted)).2
  refine ⟨?_, sound.numbered, restSorted.sortedInsert, sound.due,
    sound.past, sound.ordered, ?_, sound.ticks⟩
  · have inserted := (sortedInsert_perm toOccur rest).append_right (state.fired.map Prod.fst)
    rw [← front] at inserted
    exact inserted.trans sound.once
  · intro firing member entry pending
    apply sound.first firing member entry
    rw [front, List.mem_cons]
    exact mem_sortedInsert.mp pending

theorem fire (due : toOccur.when ≤ state.stats.totalTicks) : Sound { state with
      pending := rest
      inHandler := true
      status := .SystemMode
      fired := state.fired ++ [(toOccur, state.stats.totalTicks)] } := by
  obtain ⟨least, restSorted⟩ := List.pairwise_cons.mp (front ▸ sound.sorted)
  have head : toOccur ∈ state.pending := by simp [front]
  refine ⟨?_, sound.numbered, restSorted, ?_, ?_, ?_, ?_, sound.ticks⟩
  · have moved : (rest ++ (state.fired ++ [(toOccur, state.stats.totalTicks)]).map Prod.fst).Perm
        (toOccur :: (rest ++ state.fired.map Prod.fst)) := by
      rw [List.map_append, ← List.append_assoc]
      exact List.perm_append_singleton _ _
    have known := sound.once
    rw [front] at known
    exact moved.trans known
  · intro firing member
    rcases List.mem_append.mp member with old | new
    · exact sound.due firing old
    · rw [List.mem_singleton.mp new]
      exact due
  · intro firing member
    rcases List.mem_append.mp member with old | new
    · exact sound.past firing old
    · rw [List.mem_singleton.mp new]
  · rw [List.map_append]
    refine List.pairwise_append.mpr ⟨sound.ordered, List.pairwise_singleton _ _, ?_⟩
    intro early fired late new
    obtain ⟨firing, member, rfl⟩ := List.mem_map.mp fired
    rw [List.mem_singleton.mp new]
    exact sound.first firing member toOccur head
  · intro firing member entry pending
    rcases List.mem_append.mp member with old | new
    · exact sound.first firing old entry (by simp [front, pending])
    · rw [List.mem_singleton.mp new]
      exact least entry pending

theorem occur (due : toOccur.when ≤ state.stats.totalTicks) :
    Sound (({ state with pending := rest } : Interrupt η).occur toOccur).2 := by
  unfold Interrupt.occur
  split
  · exact sound.putBack front
  · exact sound.fire front due

end

theorem checkIfDue (sound : Sound state) (advanceClock : Bool) :
    Sound (state.checkIfDue advanceClock).2 := by
  unfold Interrupt.checkIfDue
  split
  · exact sound
  · rename_i toOccur rest front
    simp only
    split
    · rename_i jump
      exact (sound.advanceTo jump.2).occur front le_rfl
    · split
      · exact sound.putBack front
      · rename_i notLater
        exact sound.occur front (Nat.le_of_not_lt notLater)

end Sound

/-- If `CheckIfDue(FALSE)` calls no handler while a thread is running,
nothing is due. -/
theorem nothing_due {state after : Interrupt η} (sound : Sound state)
    (awake : state.status ≠ .IdleMode)
    (ended : state.checkIfDue false = (none, after)) :
    ∀ entry ∈ after.pending, after.stats.totalTicks < entry.when := by
  unfold checkIfDue at ended
  split at ended
  · rename_i empty
    cases ended
    rw [empty]
    nofun
  · rename_i toOccur rest front
    simp only [Bool.false_eq_true, false_and, if_false] at ended
    split at ended
    · rename_i later
      cases ended
      have least := (List.pairwise_cons.mp (front ▸ sound.sorted)).1
      intro entry member
      rcases mem_sortedInsert.mp member with rfl | other
      · exact later
      · exact later.trans_le (least entry other)
    · unfold occur at ended
      rw [if_neg fun idle => awake idle.1] at ended
      cases ended

end Interrupt

namespace Hardware

variable {η : Type}

/-- While a thread is running, also in the loop of `OneTick`, the machine is
not idle. -/
def Awake (state : Hardware η) : Prop :=
  match state.dispatch with
  | .running | .checking (.oneTick _) =>
    state.interrupt.status ≠ .IdleMode
  | .handling (.oneTick _) old => old ≠ .IdleMode
  | _ => True

structure Sound (state : Hardware η) : Prop where
  interrupt : state.interrupt.Sound
  awake : state.Awake

theorem sound_boot : Sound (boot : Hardware η) :=
  ⟨Interrupt.sound_new, nofun⟩

theorem sound_startTick {interrupt : Interrupt η}
    (sound : interrupt.Sound) (awake : interrupt.status ≠ .IdleMode) :
    Sound (startTick interrupt) := by
  refine ⟨sound.tick.congr rfl rfl rfl rfl, ?_⟩
  have same : interrupt.tick.status = interrupt.status := by
    unfold Interrupt.tick
    split <;> rfl
  show interrupt.tick.status ≠ .IdleMode
  rw [same]
  exact awake

theorem sound_leave {interrupt : Interrupt η} (sound : interrupt.Sound) {routine : Routine}
    (awake : routine ≠ .idle → interrupt.status ≠ .IdleMode) :
    Sound ⟨leave interrupt routine, .running⟩ := by
  cases routine with
  | oneTick old =>
    simp only [leave]
    split
    · exact ⟨sound.congr rfl rfl rfl rfl, nofun⟩
    · exact ⟨sound.congr rfl rfl rfl rfl, awake nofun⟩
  | idle => exact ⟨sound.congr rfl rfl rfl rfl, nofun⟩

theorem checkIfDue_status {state after : Interrupt η} {advanceClock : Bool}
    (ended : state.checkIfDue advanceClock = (none, after)) :
    after.status = state.status := by
  unfold Interrupt.checkIfDue at ended
  split at ended
  · cases ended
    rfl
  · simp only at ended
    split at ended
    · unfold Interrupt.occur at ended
      split at ended
      · cases ended
        rfl
      · cases ended
    · split at ended
      · cases ended
        rfl
      · unfold Interrupt.occur at ended
        split at ended
        · cases ended
          rfl
        · cases ended

theorem Sound.check {before after : Hardware η} (sound : Sound before)
    (success : before.check = some after) : Sound after := by
  obtain ⟨interrupt, dispatch⟩ := before
  unfold Hardware.check at success
  have later := sound.interrupt.checkIfDue
  cases dispatch with
  | checking routine =>
    simp only at success
    split at success
    · rename_i checked ended
      cases success
      have kept := later false
      simp only [ended] at kept
      refine sound_leave kept ?_
      intro ticking
      rw [checkIfDue_status ended]
      cases routine with
      | oneTick old => exact sound.awake
      | idle => exact absurd rfl ticking
    · rename_i entry checked called
      cases success
      have kept := later false
      simp only [called] at kept
      refine ⟨kept, ?_⟩
      cases routine with
      | oneTick old => exact sound.awake
      | idle => trivial
  | idling =>
    simp only at success
    split at success
    · rename_i checked ended
      cases success
      have kept := later true
      simp only [ended] at kept
      exact ⟨kept, trivial⟩
    · rename_i entry checked called
      cases success
      have kept := later true
      simp only [called] at kept
      exact ⟨kept, trivial⟩
  | _ => cases success

theorem Sound.next {before after : Hardware η} {event : InterruptEvent η} (sound : Sound before)
    (taken : before.Step event after) : Sound after := by
  obtain ⟨interrupt, dispatch⟩ := before
  cases event with
  | schedule handler fromNow type =>
    cases dispatch with
    | running | handling =>
      obtain ⟨scheduled, success, ended⟩ :=
        Option.bind_eq_some_iff.mp taken
      cases ended
      refine ⟨sound.interrupt.schedule success, ?_⟩
      have awake := sound.awake
      unfold Interrupt.schedule at success
      split at success
      · cases success
        exact awake
      · cases success
    | _ => cases taken
  | setLevel now =>
    cases dispatch with
    | running =>
      simp only [Step, Hardware.next, setLevel] at taken
      split at taken
      · cases taken
        exact sound_startTick (sound.interrupt.congr rfl rfl rfl rfl) sound.awake
      · cases taken
        exact ⟨sound.interrupt.congr rfl rfl rfl rfl, sound.awake⟩
    | handling routine old =>
      simp only [Step, Hardware.next, setLevel] at taken
      split at taken
      · cases taken
        exact ⟨sound.interrupt.congr rfl rfl rfl rfl, sound.awake⟩
      · cases taken
    | _ => cases taken
  | oneTick =>
    cases dispatch with
    | running =>
      cases taken
      exact sound_startTick sound.interrupt sound.awake
    | _ => cases taken
  | idle =>
    cases dispatch with
    | running =>
      simp only [Step, Hardware.next] at taken
      split at taken
      · cases taken
        exact ⟨sound.interrupt.congr rfl rfl rfl rfl, trivial⟩
      · cases taken
    | _ => cases taken
  | setStatus status =>
    cases dispatch with
    | running =>
      simp only [Step, Hardware.next] at taken
      split at taken
      · cases taken
      · rename_i awake
        cases taken
        exact ⟨sound.interrupt.congr rfl rfl rfl rfl, awake⟩
    | _ => cases taken
  | check =>
    simp only [Step, Hardware.next] at taken
    split at taken
    · exact sound.check taken
    · cases taken
  | yieldOnReturn =>
    simp only [Step, Hardware.next] at taken
    split at taken
    · cases taken
      exact ⟨sound.interrupt.congr rfl rfl rfl rfl, sound.awake⟩
    · cases taken
  | handlerReturns =>
    cases dispatch with
    | handling routine old =>
      cases taken
      refine ⟨sound.interrupt.congr rfl rfl rfl rfl, ?_⟩
      cases routine with
      | oneTick first => exact sound.awake
      | idle => trivial
    | _ => cases taken

/-- In every run, each scheduled interrupt is pending or has fired, exactly
once; none has fired before its time, and they have fired in the order of
their times; after the loop of `OneTick` nothing is due; and the clock is the
sum of its parts. -/
theorem interrupts_fire_once_in_order (events : List (InterruptEvent η))
    (state : Hardware η) (run : Run Step boot events state) :
    (state.interrupt.pending ++
      state.interrupt.fired.map Prod.fst).Perm state.interrupt.scheduled ∧
    state.interrupt.scheduled.map PendingInterrupt.ident =
      List.range state.interrupt.scheduled.length ∧
    (∀ firing ∈ state.interrupt.fired, firing.1.when ≤ firing.2) ∧
    (state.interrupt.fired.map fun firing => firing.1.when).Pairwise
      (· ≤ ·) ∧
    (∀ old after, state.dispatch = .checking (.oneTick old) →
      state.interrupt.checkIfDue false = (none, after) →
      ∀ entry ∈ after.pending, after.stats.totalTicks < entry.when) ∧
    state.interrupt.stats.totalTicks = state.interrupt.stats.idleTicks +
      state.interrupt.stats.systemTicks +
      state.interrupt.stats.userTicks := by
  have sound : Sound state :=
    run.history (fun _ => Sound) sound_boot fun _ _ _ _ sound taken => sound.next taken
  refine ⟨sound.interrupt.once, sound.interrupt.numbered,
    sound.interrupt.due, sound.interrupt.ordered, ?_,
    sound.interrupt.ticks⟩
  intro old after ticking ended
  have awake := sound.awake
  simp only [Awake, ticking] at awake
  exact Interrupt.nothing_due sound.interrupt awake ended

/-- A disk and a timer interrupt; the handler of the first schedules another
one. -/
theorem interrupts_fire_once_in_order_after_tick : ∃ state : Hardware Nat, Run Step boot
        [.schedule 0 30 .TimerInt, .schedule 1 5 .DiskInt, .oneTick, .check,
          .schedule 2 7 .DiskInt, .handlerReturns] state ∧
      state.interrupt.scheduled.length = 3 ∧
      (state.interrupt.pending ++ state.interrupt.fired.map Prod.fst).Perm
        state.interrupt.scheduled := by
  obtain ⟨state, run, kept⟩ := @exists_run_of_replay _ _ next Step boot
    [.schedule 0 30 .TimerInt, .schedule 1 5 .DiskInt, .oneTick, .check,
      .schedule 2 7 .DiskInt, .handlerReturns]
    (fun state : Hardware Nat => state.interrupt.scheduled.length = 3) _
    (fun _ _ _ => id) (by decide +kernel)
  exact ⟨state, run, kept, (interrupts_fire_once_in_order _ state run).1⟩

end Hardware

end Nachos
