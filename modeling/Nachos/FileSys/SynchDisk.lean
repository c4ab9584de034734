import Nachos.FileSys.Disk
import Nachos.Lib.SplitPhase
import Nachos.Lib.Transition

/-!
# The synchronous disk

`SynchDisk` makes a request of the disk, which is answered by an interrupt,
and waits for it on a semaphore.  `Lock::Acquire` and `Lock::Release`, which
should keep other threads away in between, are empty, so the device has one
request at a time only if its callers take turns on their own.
-/

open Words Semaphores SplitPhase Transition

namespace Nachos

/-- The two calls with their arguments. -/
inductive DiskRequest where
  | readSector (sectorNumber : Int)
  | writeSector (sectorNumber : Int) (data : Sector)

/-- Where a thread is: behind `Lock::Acquire` with its request, or at
`semaphore->P()` with the data it has read. -/
inductive DiskPoint where
  | outside
  | requesting (request : DiskRequest)
  | waiting (data : Option Sector)

def DiskPoint.Waiting : DiskPoint → Prop
  | .waiting _ => True
  | _ => False

/-- The disk with its pending `DiskDone` interrupts, each named by the thread
whose request it completes. -/
structure SynchDisk (ι : Type) where
  disk : Disk
  active : Bool
  pending : List ι
  semaphore : Semaphore ι
  points : ι → DiskPoint

inductive DiskEvent (ι : Type) where
  | call (thread : ι) (request : DiskRequest)
  | run (thread : ι)
  | interrupt

namespace SynchDisk

variable {ι : Type} [DecidableEq ι]

def boot (disk : Disk) : SynchDisk ι where
  disk := disk
  active := false
  pending := []
  semaphore := Semaphore.new 0
  points := fun _ => .outside

def setPoint (state : SynchDisk ι) (thread : ι) (point : DiskPoint) :
    SynchDisk ι :=
  { state with points := Function.update state.points thread point }

/-- The transfer, which is made at once. -/
def transfer (disk : Disk) : DiskRequest → Result (Disk × Option Sector)
  | .readSector sectorNumber => do
    let data ← disk.readSector sectorNumber
    return (disk, some data)
  | .writeSector sectorNumber data => do
    let disk ← disk.writeSector sectorNumber data
    return (disk, none)

/-- `Disk::ReadRequest` and `Disk::WriteRequest`. -/
def request (state : SynchDisk ι) (thread : ι) (request : DiskRequest) : Result (SynchDisk ι) :=
  if state.active then .error .assertion
  else do
    let (disk, data) ← transfer state.disk request
    return { state.setPoint thread (.waiting data) with
      disk := disk
      active := true
      pending := state.pending ++ [thread] }

/-- `semaphore->P()`; the call returns behind it. -/
def await (state : SynchDisk ι) (thread : ι) : SynchDisk ι :=
  match state.semaphore.take with
  | some taken =>
    { state.setPoint thread .outside with semaphore := taken }
  | none => { state with semaphore := state.semaphore.sleep thread }

/-- The next step of a thread which is not asleep. -/
def run (state : SynchDisk ι) (thread : ι) : Option (SynchDisk ι) :=
  match state.points thread with
  | .outside => none
  | .requesting request =>
    match state.request thread request with
    | .ok after => some after
    | .error _ => none
  | .waiting _ => some (state.await thread)

/-- `Disk::HandleInterrupt`, which calls `RequestDone`. -/
def handleInterrupt (state : SynchDisk ι) : Option (SynchDisk ι) :=
  match state.pending with
  | [] => none
  | _ :: rest => some { state with
      active := false
      pending := rest
      semaphore := state.semaphore.release }

/-- One event; there is none if it is not possible or the machine stops. -/
def next (state : SynchDisk ι) : DiskEvent ι → Option (SynchDisk ι)
  | .call thread request =>
    match state.points thread with
    | .outside => some (state.setPoint thread (.requesting request))
    | _ => none
  | .run thread =>
    if thread ∈ state.semaphore.queue then none else state.run thread
  | .interrupt => state.handleInterrupt

abbrev Step (before : SynchDisk ι) (event : DiskEvent ι) (after : SynchDisk ι) : Prop :=
  before.next event = some after

/-- No request is made while another thread waits for its own. -/
def Apart (state : SynchDisk ι) (event : DiskEvent ι) : Prop :=
  ∀ thread request, event = .run thread →
    state.points thread = .requesting request →
    ∀ other, ¬(state.points other).Waiting

def ApartStep (before : SynchDisk ι) (event : DiskEvent ι) (after : SynchDisk ι) : Prop :=
  before.Step event after ∧ before.Apart event

/-! ## One request at a time -/

abbrev Sound (state : SynchDisk ι) : Prop :=
  Served state.active state.pending state.semaphore.value DiskPoint.Waiting state.points

theorem request_inv {state after : SynchDisk ι} {thread : ι} {request : DiskRequest}
    (success : state.request thread request = .ok after) :
    state.active = false ∧ ∃ disk data,
      transfer state.disk request = .ok (disk, data) ∧
      after = { state.setPoint thread (.waiting data) with
        disk := disk
        active := true
        pending := state.pending ++ [thread] } := by
  unfold SynchDisk.request at success
  split at success
  · cases success
  · rename_i free
    cases moved : transfer state.disk request with
    | error reason =>
      rw [moved] at success
      cases success
    | ok result =>
      obtain ⟨disk, data⟩ := result
      rw [moved] at success
      cases success
      exact ⟨by simpa using free, disk, data, rfl, rfl⟩

theorem Sound.next {before after : SynchDisk ι} {event : DiskEvent ι}
    (sound : Sound before) (apart : before.Apart event)
    (taken : before.Step event after) : Sound after := by
  cases event with
  | call thread request =>
    simp only [Step, SynchDisk.next] at taken
    split at taken
    · rename_i outside
      cases taken
      exact sound.stay (by rw [outside]; exact Iff.rfl)
    · cases taken
  | run thread =>
    simp only [Step, SynchDisk.next] at taken
    split at taken
    · cases taken
    unfold SynchDisk.run at taken
    split at taken
    · cases taken
    · rename_i request requesting
      split at taken
      · rename_i made success
        cases taken
        obtain ⟨-, disk, data, -, rfl⟩ := request_inv success
        have nobody := apart thread request rfl requesting
        exact Served.request sound nobody trivial
      · cases taken
    · rename_i data waiting
      cases taken
      unfold await
      split
      · rename_i semaphore success
        have value := (Semaphore.take_inv success).1
        rw [Sound, value] at sound
        exact sound.finish (by rw [waiting]; trivial) nofun
      · exact sound
  | interrupt =>
    simp only [Step, SynchDisk.next, handleInterrupt] at taken
    split at taken
    · cases taken
    · rename_i owner rest front
      cases taken
      rw [Sound, front] at sound
      exact sound.interrupt

/-- In every run in which no request is made while another thread waits for
its own, a request finds the disk inactive, at most one interrupt is pending,
and a thread which can return has had the interrupt of its request. -/
theorem requests_take_turns (disk : Disk) (events : List (DiskEvent ι)) (state : SynchDisk ι)
    (run : Run ApartStep (boot disk) events state) :
    (∀ thread request, state.points thread = .requesting request →
      state.Apart (.run thread) → state.active = false) ∧
    state.pending.length ≤ 1 ∧
    ∀ thread data, state.points thread = .waiting data →
      state.semaphore.value ≠ 0 → thread ∉ state.pending := by
  have sound : Sound state :=
    run.history (fun _ => Sound) (.initial fun _ => nofun)
      fun _ _ _ _ sound taken => sound.next taken.2 taken.1
  refine ⟨?_, sound.length_le_one, ?_⟩
  · intro thread request requesting apart
    exact (sound.idle (apart thread request rfl requesting)).1
  · intro thread data waiting available
    rw [sound.complete (by rw [waiting]; trivial) available]
    exact List.not_mem_nil

instance : DecidablePred DiskPoint.Waiting
  | .outside => .isFalse id
  | .requesting _ => .isFalse id
  | .waiting _ => .isTrue trivial

/-- A step of two threads, if no request is made while the other thread waits
for its own. -/
def nextApart (state : SynchDisk Bool) (event : DiskEvent Bool) : Option (SynchDisk Bool) :=
  match event with
  | .run thread =>
    match state.points thread with
    | .requesting _ =>
      if (state.points true).Waiting ∨ (state.points false).Waiting then none
      else state.next (.run thread)
    | _ => state.next (.run thread)
  | event => state.next event

theorem apart_of_nextApart (before : SynchDisk Bool) (event : DiskEvent Bool)
    (after : SynchDisk Bool) (taken : before.nextApart event = some after) :
    before.ApartStep event after := by
  cases event with
  | call thread request | interrupt => exact ⟨taken, by simp [Apart]⟩
  | run thread =>
    cases point : before.points thread with
    | requesting request =>
      simp only [nextApart, point] at taken
      split_ifs at taken with waits
      push Not at waits
      refine ⟨taken, ?_⟩
      rintro _ _ - - (_ | _)
      · exact waits.2
      · exact waits.1
    | outside | waiting _ =>
      simp only [nextApart, point] at taken
      refine ⟨taken, ?_⟩
      rintro _ request ⟨⟩ requesting
      rw [point] at requesting
      cases requesting

/-- Two threads read a sector each.  The first one can return behind the
interrupt of its request, the second one then finds the disk inactive and
returns behind an interrupt of its own. -/
theorem requests_take_turns_two_readers :
    ∃ first second third final : SynchDisk Bool, Run ApartStep (boot ⟨fun _ _ => 0#8⟩)
        [.call true (.readSector 3), .call false (.readSector 5), .run true, .interrupt] first ∧
      (first.points true).Waiting ∧ true ∉ first.pending ∧
      Run ApartStep first [.run true] second ∧
      second.points false = .requesting (.readSector 5) ∧ second.active = false ∧
      Run ApartStep second [.run false, .run false, .interrupt] third ∧
      (third.points false).Waiting ∧ false ∉ third.pending ∧
      Run ApartStep third [.run false] final ∧
      final.points true = .outside ∧ final.points false = .outside := by
  have apart : ∀ start events finish, replay nextApart start events = some finish →
      Run ApartStep start events finish :=
    fun _ _ _ replayed => (run_of_replay replayed).mono fun _ _ _ _ => apart_of_nextApart _ _ _
  have toFirst := apart (boot ⟨fun _ _ => 0#8⟩)
    [.call true (.readSector 3), .call false (.readSector 5), .run true, .interrupt] _ rfl
  have toSecond := toFirst.append (apart _ [.run true] _ rfl)
  have toThird := toSecond.append (apart _ [.run false, .run false, .interrupt] _ rfl)
  refine ⟨_, _, _, _, toFirst, trivial, ?_, apart _ _ _ rfl, rfl, ?_, apart _ _ _ rfl,
    trivial, ?_, apart _ _ _ rfl, rfl, rfl⟩
  · exact (requests_take_turns _ _ _ toFirst).2.2 true _ rfl (by decide)
  · refine (requests_take_turns _ _ _ toSecond).1 false (.readSector 5) rfl ?_
    rintro _ _ - - (_ | _) <;> exact id
  · exact (requests_take_turns _ _ _ toThird).2.2 false _ rfl (by decide)

/-- Two readers: the second comes to its request while the first waits, or
makes it behind the interrupt for the first and takes the semaphore in its
place. -/
theorem second_request_not_kept_out : (∃ state : SynchDisk Bool, Run Step (boot ⟨fun _ _ => 0#8⟩)
      [.call true (.readSector 3), .call false (.readSector 5), .run true]
        state ∧
      state.points false = .requesting (.readSector 5) ∧
      state.active = true ∧
      state.request false (.readSector 5) = .error .assertion) ∧
    ∃ state : SynchDisk Bool, Run Step (boot ⟨fun _ _ => 0#8⟩)
      [.call true (.readSector 3), .run true, .interrupt,
        .call false (.readSector 5), .run false, .run false] state ∧
      state.points false = .outside ∧ state.pending = [false] := by
  refine ⟨⟨_, run_of_replay rfl, rfl, rfl, rfl⟩, ⟨_, run_of_replay rfl, rfl, rfl⟩⟩

end SynchDisk

end Nachos
