import Nachos.BitMap
import Nachos.Lib.Semaphore
import Nachos.Lib.Transition

/-!
# The process table

`PTable` keeps a PCB for every process.  `ExecUpdate`, `JoinUpdate` and
`ExitUpdate` run in the threads of the processes, which can lose the
processor whenever a semaphore operation turns interrupts on again.  The
model has one program point for each stretch of code between two such
places.  Threads and PCBs are numbered in the order of their creation; the
PCB which `Exec` makes and the thread it forks have the same number.
-/

open Words Semaphores Transition Function

namespace Nachos

def maxProcess : Nat := 10

/-- An index of `PTable::pcb`. -/
abbrev Pid := Fin maxProcess

def pidWord (pid : Pid) : Word := BitVec.ofNat 32 pid.val

structure PCB where
  joinsem : Semaphore Nat
  exitsem : Semaphore Nat
  multex : Semaphore Nat
  numwait : Int
  exitcode : Word
  pid : Pid
  parentID : Word

/-- `PCB::PCB`, with the value which the field `parentID` gets. -/
def PCB.new (pid : Pid) (parentID : Word) : PCB where
  joinsem := .new 0
  exitsem := .new 0
  multex := .new 1
  numwait := 0
  exitcode := 0#32
  pid := pid
  parentID := parentID

/-- The semaphores of a PCB. -/
inductive PcbSemaphore where
  | joinsem
  | exitsem
  | multex

def PCB.semaphore (pcb : PCB) : PcbSemaphore → Semaphore Nat
  | .joinsem => pcb.joinsem
  | .exitsem => pcb.exitsem
  | .multex => pcb.multex

def PCB.setSemaphore (pcb : PCB) (semaphore : Semaphore Nat) : PcbSemaphore → PCB
  | .joinsem => { pcb with joinsem := semaphore }
  | .exitsem => { pcb with exitsem := semaphore }
  | .multex => { pcb with multex := semaphore }

/-- Where a thread is.  A thread which has passed the checks of `JoinUpdate`
remembers the PCB they were made on as `child`; the code only keeps the
`pid`.  In the user program, `r2` is the result of the last call. -/
inductive ProcessPoint where
  | absent
  | starting
  | user (r2 : Word)
  | execEnter (opened itself : Bool)
  | execChecks (opened itself : Bool)
  | execFork (pid : Pid) (child : Nat)
  | execForked (pid : Pid) (child : Nat)
  | execLeave (result : Word)
  | joinEnter (pid : Pid) (child own : Nat)
  | joinCount (pid : Pid) (child own : Nat)
  | joinWait (pid : Pid) (child : Nat)
  | joinSleep (pid : Pid) (child waitedOn : Nat)
  | joinRead (pid : Pid) (child : Nat)
  | joinReturn (child : Nat) (exitcode : Word)
  | exitEnter (parent : Nat)
  | exitCount (parent : Nat)
  | exitSignal
  | exitWait
  | exitSleep (waitedOn : Nat)
  | exitRemove
  | exitClear
  | finished
  deriving DecidableEq

/-- Why an event does not lead to a next state: it is not possible, the
machine halts, an `ASSERT` fails, a `NULL` slot is dereferenced, or a deleted
PCB is used. -/
inductive Trouble where
  | disabled
  | halted
  | assertion
  | nullPointer
  | deleted
  deriving DecidableEq

/-- All threads with the process table.  `creator` records who made a
process; the code has no such field. -/
structure Processes where
  pcb : Pid → Option Nat
  bm : BitMap maxProcess
  bmsem : Semaphore Nat
  objects : Nat → Option PCB
  created : Nat
  creator : Nat → Option Nat
  pids : Nat → Pid
  points : Nat → ProcessPoint

/-- A thread in user mode makes a call, or a thread goes on in the kernel.
The flags of `exec` say whether the file opens and whether its name is the
name of the calling thread. -/
inductive ProcessEvent where
  | exec (thread : Nat) (opened itself : Bool)
  | join (thread : Nat) (pid : Word)
  | exit (thread : Nat) (exitcode : Word)
  | run (thread : Nat)
  deriving DecidableEq

namespace Processes

/-- The index which a value of type `int` is, if it is one. -/
def pidOf (value : Word) : Option Pid :=
  if inside : 0 ≤ value.toInt ∧ value.toInt.toNat < maxProcess then
    some ⟨value.toInt.toNat, inside.2⟩
  else none

/-- The state after `PTable::PTable`.  The constructor does not set the
`parentID` of the main process. -/
def boot (freshWords : Fin (numWords maxProcess) → Word) (freshParentID : Word) : Processes where
  pcb := update (fun _ => none) ⟨0, by decide⟩ (some 0)
  bm := (BitMap.new freshWords).mark ⟨0, by decide⟩
  bmsem := .new 1
  objects := update (fun _ => none) 0 (some (.new ⟨0, by decide⟩ freshParentID))
  created := 1
  creator := fun _ => none
  pids := fun _ => ⟨0, by decide⟩
  points := update (fun _ => .absent) 0 (.user 0#32)

def setPoint (state : Processes) (thread : Nat) (point : ProcessPoint) :
    Processes :=
  { state with points := update state.points thread point }

def setObject (state : Processes) (number : Nat) (pcb : PCB) : Processes :=
  { state with
    objects := update state.objects number (some pcb) }

/-- The PCB which a pointer points to. -/
def object (state : Processes) (number : Nat) : Except Trouble PCB :=
  match state.objects number with
  | some pcb => .ok pcb
  | none => .error .deleted

/-- `pcb[pid]`, which is going to be dereferenced. -/
def slot (state : Processes) (pid : Pid) : Except Trouble Nat :=
  match state.pcb pid with
  | some number => .ok number
  | none => .error .nullPointer

/-- The same for an index which need not be one. -/
def slotAt (state : Processes) (index : Word) : Except Trouble Nat :=
  match pidOf index with
  | some pid => state.slot pid
  | none => .error .nullPointer

/-- One round of the loop in `Semaphore::P` on a semaphore of a PCB: the
thread goes to the point `granted` or goes to sleep at the point
`asleep`. -/
def waitOn (state : Processes) (number : Nat) (which : PcbSemaphore)
    (thread : Nat) (granted asleep : ProcessPoint) :
    Except Trouble Processes := do
  let pcb ← state.object number
  if thread ∈ (pcb.semaphore which).queue then .error .disabled
  else
    match (pcb.semaphore which).take with
    | some taken =>
      .ok ((state.setObject number (pcb.setSemaphore taken which)).setPoint thread granted)
    | none =>
      .ok ((state.setObject number (pcb.setSemaphore
        ((pcb.semaphore which).sleep thread) which)).setPoint thread asleep)

/-- `Semaphore::V` on a semaphore of a PCB. -/
def signalOn (state : Processes) (number : Nat) (which : PcbSemaphore) :
    Except Trouble Processes := do
  let pcb ← state.object number
  return state.setObject number (pcb.setSemaphore (pcb.semaphore which).release which)

/-- The same loop for `bmsem`. -/
def waitOnBmsem (state : Processes) (thread : Nat)
    (granted : ProcessPoint) : Except Trouble Processes :=
  if thread ∈ state.bmsem.queue then .error .disabled
  else
    match state.bmsem.take with
    | some taken =>
      .ok { state.setPoint thread granted with bmsem := taken }
    | none => .ok { state with bmsem := state.bmsem.sleep thread }

/-- The middle of `IncNumWait` and `DecNumWait`, up to the end of
`multex->V()`. -/
def addNumwait (state : Processes) (number : Nat) (amount : Int) :
    Except Trouble Processes := do
  let pcb ← state.object number
  (state.setObject number { pcb with numwait := pcb.numwait + amount }).signalOn number .multex

/-! ## `ExecUpdate` -/

/-- The tests under `bmsem`, the new PCB in a free slot, and `multex->P()`
of the new PCB, which does not block. -/
def execChecks (state : Processes) (thread : Nat) (opened itself : Bool) : Processes :=
  if !opened || itself then state.setPoint thread (.execLeave (-1#32))
  else
    let (found, bm) := state.bm.find
    if inside : 0 ≤ found ∧ found.toNat < maxProcess then
      let pid : Pid := ⟨found.toNat, inside.2⟩
      let pcb := PCB.new pid (pidWord (state.pids thread))
      { state with
        bm := bm
        pcb := update state.pcb pid (some state.created)
        objects := update state.objects state.created (some { pcb with multex := .new 0 })
        created := state.created + 1
        creator :=
          update state.creator state.created (some thread)
        points := update state.points thread (.execFork pid state.created) }
    else state.setPoint thread (.execLeave (-1#32))

/-- `new Thread` and `Fork`. -/
def execFork (state : Processes) (thread : Nat) (pid : Pid) (child : Nat) : Processes :=
  { state with
    pids := update state.pids child pid
    points := update (update state.points child .starting) thread (.execForked pid child) }

/-! ## `JoinUpdate` -/

/-- The tests and the pointer to the own PCB. -/
def joinUpdate (state : Processes) (thread : Nat) (pid : Word) :
    Except Trouble Processes := do
  match pidOf pid with
  | none => .error .assertion
  | some pid =>
    if state.bm.test pid then
      let child ← state.slot pid
      let pcb ← state.object child
      if pidWord (state.pids thread) = pcb.parentID then
        let own ← state.slotAt pcb.parentID
        return state.setPoint thread (.joinEnter pid child own)
      else return state.setPoint thread (.user (-1#32))
    else return state.setPoint thread (.user (-1#32))

/-- `pcb[pid]->GetExitCode()` and `pcb[pid]->ExitRelease()`. -/
def joinRead (state : Processes) (thread : Nat) (pid : Pid)
    (child : Nat) : Except Trouble Processes := do
  let number ← state.slot pid
  let pcb ← state.object number
  let state ← state.signalOn number .exitsem
  return state.setPoint thread (.joinReturn child pcb.exitcode)

/-! ## `ExitUpdate` -/

/-- The tests, `SetExitCode` and the pointer to the PCB of the parent. -/
def exitUpdate (state : Processes) (thread : Nat) (exitcode : Word) :
    Except Trouble Processes := do
  if (state.pids thread).val = 0 then .error .halted
  else if state.bm.test (state.pids thread) then
    let own ← state.slot (state.pids thread)
    let pcb ← state.object own
    let parent ← state.slotAt pcb.parentID
    return (state.setObject own
      { pcb with exitcode := exitcode }).setPoint thread (.exitEnter parent)
  else return state.setPoint thread .finished

/-- The middle of `Remove`, and `bmsem->V()`. -/
def exitClear (state : Processes) (thread : Nat) : Processes :=
  let pid := state.pids thread
  { state with
    bm := state.bm.clear pid
    pcb := update state.pcb pid none
    objects :=
      match state.pcb pid with
      | some number => update state.objects number none
      | none => state.objects
    bmsem := state.bmsem.release
    points := update state.points thread .finished }

/-! ## Steps -/

/-- The next stretch of code of a thread in the kernel. -/
def run (state : Processes) (thread : Nat) : Except Trouble Processes :=
  match state.points thread with
  | .starting => do
    let _ ← state.slot (state.pids thread)
    return state.setPoint thread (.user 0#32)
  | .execEnter opened itself =>
    state.waitOnBmsem thread (.execChecks opened itself)
  | .execChecks opened itself =>
    .ok (state.execChecks thread opened itself)
  | .execFork pid child => .ok (state.execFork thread pid child)
  | .execForked pid child => do
    let state ← state.signalOn child .multex
    return state.setPoint thread (.execLeave (pidWord pid))
  | .execLeave result =>
    .ok { state.setPoint thread (.user result) with
      bmsem := state.bmsem.release }
  | .joinEnter pid child own =>
    state.waitOn own .multex thread (.joinCount pid child own) (.joinEnter pid child own)
  | .joinCount pid child own => do
    let state ← state.addNumwait own 1
    return state.setPoint thread (.joinWait pid child)
  | .joinWait pid child => do
    let number ← state.slot pid
    state.waitOn number .joinsem thread (.joinRead pid child) (.joinSleep pid child number)
  | .joinSleep pid child waitedOn =>
    state.waitOn waitedOn .joinsem thread (.joinRead pid child) (.joinSleep pid child waitedOn)
  | .joinRead pid child => state.joinRead thread pid child
  | .joinReturn _ exitcode => .ok (state.setPoint thread (.user exitcode))
  | .exitEnter parent =>
    state.waitOn parent .multex thread (.exitCount parent) (.exitEnter parent)
  | .exitCount parent => do
    let state ← state.addNumwait parent (-1)
    return state.setPoint thread .exitSignal
  | .exitSignal => do
    let number ← state.slot (state.pids thread)
    let state ← state.signalOn number .joinsem
    return state.setPoint thread .exitWait
  | .exitWait => do
    let number ← state.slot (state.pids thread)
    state.waitOn number .exitsem thread .exitRemove (.exitSleep number)
  | .exitSleep waitedOn =>
    state.waitOn waitedOn .exitsem thread .exitRemove (.exitSleep waitedOn)
  | .exitRemove => state.waitOnBmsem thread .exitClear
  | .exitClear => .ok (state.exitClear thread)
  | .absent => .error .disabled
  | .user _ => .error .disabled
  | .finished => .error .disabled

/-- What an event does. -/
def next (state : Processes) : ProcessEvent → Except Trouble Processes
  | .exec thread opened itself =>
    match state.points thread with
    | .user _ =>
      .ok (state.setPoint thread (.execEnter opened itself))
    | _ => .error .disabled
  | .join thread pid =>
    match state.points thread with
    | .user _ => state.joinUpdate thread pid
    | _ => .error .disabled
  | .exit thread exitcode =>
    match state.points thread with
    | .user _ => state.exitUpdate thread exitcode
    | _ => .error .disabled
  | .run thread => state.run thread

def Step (before : Processes) (event : ProcessEvent) (after : Processes) : Prop :=
  before.next event = .ok after

end Processes

end Nachos
