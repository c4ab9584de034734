import Nachos.Lib.Journal
import Nachos.Lib.SplitPhase
import Nachos.Lib.Transition
import Nachos.Lib.Words

/-!
# The synchronous console

`SynchConsole` serves any number of threads on a console which writes one
character at a time and holds one character of input.  `WLineBlock` and
`RLineBlock` keep the lines of different threads apart; `synchWriteAvail` and
`synchReadAvail` count the interrupts of the device.  Writing and reading use
different parts of the device and of the driver.
-/

open Words Semaphores SplitPhase Transition Function

namespace Nachos

/-! ## Writing -/

/-- Where a thread is in `SynchConsole::Write`, with its buffer and the loop
counter. -/
inductive WritePoint where
  | outside
  | acquiring (buffer : List Byte)
  | putting (buffer : List Byte) (loop : Nat)
  | waiting (buffer : List Byte) (loop : Nat)
  | releasing (buffer : List Byte)
  deriving DecidableEq

namespace WritePoint

/-- Between `P` and `V` of `WLineBlock`. -/
def Inside : WritePoint → Prop
  | .outside | .acquiring _ => False
  | _ => True

/-- At `synchWriteAvail->P()`. -/
def Waiting : WritePoint → Prop
  | .waiting _ _ => True
  | _ => False

/-- What the call has put on the display. -/
def shown : WritePoint → List Byte
  | .outside | .acquiring _ => []
  | .putting buffer loop => buffer.take loop
  | .waiting buffer loop => buffer.take (loop + 1)
  | .releasing buffer => buffer

def buffer : WritePoint → List Byte
  | .outside => []
  | .acquiring buffer | .putting buffer _ | .waiting buffer _
  | .releasing buffer => buffer

theorem shown_isPrefix (point : WritePoint) : point.shown <+: point.buffer := by
  cases point with
  | outside | releasing buffer => exact List.prefix_refl _
  | acquiring buffer => exact List.nil_prefix
  | putting buffer loop | waiting buffer loop => exact List.take_prefix _ _

theorem waiting_inside {point : WritePoint} (waiting : point.Waiting) :
    point.Inside := by
  cases point with
  | waiting buffer loop => trivial
  | _ => exact waiting.elim

end WritePoint

/-- The display with its pending `ConsoleWriteDone` interrupts, each named by
the thread which has put the character.  `written` records the buffers of the
calls which are complete. -/
structure ConsoleOutput (ι : Type) where
  putBusy : Bool
  pending : List ι
  display : List Byte
  synchWriteAvail : Semaphore ι
  wLineBlock : Semaphore ι
  points : ι → WritePoint
  written : List (List Byte)

/-- A thread calls `Write` with the bytes of its buffer, takes its next step,
or the device reports that a character is written. -/
inductive WriteEvent (ι : Type) where
  | call (thread : ι) (buffer : List Byte)
  | run (thread : ι)
  | writeDone

namespace ConsoleOutput

variable {ι : Type} [DecidableEq ι]

def boot : ConsoleOutput ι where
  putBusy := false
  pending := []
  display := []
  synchWriteAvail := Semaphore.new 0
  wLineBlock := Semaphore.new 1
  points := fun _ => .outside
  written := []

def setPoint (state : ConsoleOutput ι) (thread : ι) (point : WritePoint) :
    ConsoleOutput ι :=
  { state with points := update state.points thread point }

/-- `WLineBlock->P()`. -/
def acquire (state : ConsoleOutput ι) (thread : ι) (buffer : List Byte) :
    ConsoleOutput ι :=
  match state.wLineBlock.take with
  | some taken =>
    { state.setPoint thread (.putting buffer 0) with wLineBlock := taken }
  | none => { state with wLineBlock := state.wLineBlock.sleep thread }

/-- `Console::PutChar`; its `ASSERT` stops the machine. -/
def putChar (state : ConsoleOutput ι) (thread : ι) (ch : Byte) : Option (ConsoleOutput ι) :=
  if state.putBusy then none
  else some { state with
    display := state.display ++ [ch]
    putBusy := true
    pending := state.pending ++ [thread] }

/-- `synchWriteAvail->P()`. -/
def await (state : ConsoleOutput ι) (thread : ι) (buffer : List Byte)
    (loop : Nat) : ConsoleOutput ι :=
  match state.synchWriteAvail.take with
  | some taken =>
    { state.setPoint thread (.putting buffer (loop + 1)) with
      synchWriteAvail := taken }
  | none =>
    { state with synchWriteAvail := state.synchWriteAvail.sleep thread }

/-- `WLineBlock->V()` and the return. -/
def release (state : ConsoleOutput ι) (thread : ι) (buffer : List Byte) :
    ConsoleOutput ι :=
  { state.setPoint thread .outside with
    wLineBlock := state.wLineBlock.release
    written := state.written ++ [buffer] }

/-- The next step of a thread which is not asleep. -/
def run (state : ConsoleOutput ι) (thread : ι) : Option (ConsoleOutput ι) :=
  match state.points thread with
  | .outside => none
  | .acquiring buffer => some (state.acquire thread buffer)
  | .putting buffer loop =>
    match buffer[loop]? with
    | some ch =>
      (state.putChar thread ch).map fun state =>
        state.setPoint thread (.waiting buffer loop)
    | none => some (state.setPoint thread (.releasing buffer))
  | .waiting buffer loop => some (state.await thread buffer loop)
  | .releasing buffer => some (state.release thread buffer)

/-- `Console::WriteDone`, which calls `SynchWriteFunct`. -/
def writeDone (state : ConsoleOutput ι) : Option (ConsoleOutput ι) :=
  match state.pending with
  | [] => none
  | _ :: rest => some { state with
      putBusy := false
      pending := rest
      synchWriteAvail := state.synchWriteAvail.release }

/-- One event; there is none if it is not possible or the machine stops. -/
def next (state : ConsoleOutput ι) : WriteEvent ι → Option (ConsoleOutput ι)
  | .call thread buffer =>
    match state.points thread with
    | .outside => some (state.setPoint thread (.acquiring buffer))
    | _ => none
  | .run thread =>
    if thread ∈ state.wLineBlock.queue ∨ thread ∈ state.synchWriteAvail.queue then none
    else state.run thread
  | .writeDone => state.writeDone

abbrev Step (before : ConsoleOutput ι) (event : WriteEvent ι) (after : ConsoleOutput ι) : Prop :=
  before.next event = some after

/-- The lines are kept apart, and the device has one character at a time. -/
structure Sound (state : ConsoleOutput ι) : Prop where
  lines : Journaled state.wLineBlock WritePoint.Inside WritePoint.shown
    state.points state.written.flatten state.display
  served : Served state.putBusy state.pending state.synchWriteAvail.value
    WritePoint.Waiting state.points

omit [DecidableEq ι] in
theorem sound_boot : Sound (boot : ConsoleOutput ι) :=
  ⟨.initial fun _ => id, .initial fun _ => id⟩

omit [DecidableEq ι] in
/-- The holder of the line waits for nobody else's character. -/
theorem Sound.nobody_waits {state : ConsoleOutput ι} (sound : Sound state)
    {thread : ι} {buffer : List Byte} {loop : Nat}
    (putting : state.points thread = .putting buffer loop) (other : ι) :
    ¬(state.points other).Waiting := by
  intro waiting
  have inside : (state.points thread).Inside := by
    rw [putting]
    trivial
  have same := sound.lines.exclusive.unique inside (WritePoint.waiting_inside waiting)
  rw [same, putting] at waiting
  exact waiting

theorem Sound.run {before after : ConsoleOutput ι} {thread : ι}
    (sound : Sound before) (taken : before.run thread = some after) :
    Sound after := by
  unfold ConsoleOutput.run at taken
  split at taken
  · cases taken
  · rename_i buffer acquiring
    cases taken
    have notWaiting : ¬(before.points thread).Waiting := by
      rw [acquiring]
      exact id
    unfold acquire
    split
    · rename_i lock success
      exact ⟨sound.lines.enter success trivial rfl, sound.served.stay (iff_of_false id notWaiting)⟩
    · exact ⟨sound.lines.of_value_eq rfl, sound.served⟩
  · rename_i buffer loop putting
    have inside : (before.points thread).Inside := by
      rw [putting]
      trivial
    split at taken
    · rename_i ch found
      obtain ⟨put, success, rfl⟩ := Option.map_eq_some_iff.mp taken
      unfold putChar at success
      split at success
      · cases success
      cases success
      have nobody := sound.nobody_waits putting
      refine ⟨?_, sound.served.request nobody trivial⟩
      refine sound.lines.move (iff_of_true trivial inside) (absurd trivial) fun _ => ?_
      rw [putting]
      show buffer.take (loop + 1) = buffer.take loop ++ [ch]
      rw [List.take_add_one, found]
      rfl
    · rename_i ended
      cases taken
      have short : buffer.take loop = buffer :=
        List.take_of_length_le (List.getElem?_eq_none_iff.mp ended)
      refine ⟨sound.lines.stay (iff_of_true trivial inside) fun _ => ?_, sound.served.stay ?_⟩
      · rw [putting]
        exact short.symm
      · rw [putting]
        exact Iff.rfl
  · rename_i buffer loop waiting
    cases taken
    have inside : (before.points thread).Inside := by
      rw [waiting]
      trivial
    unfold await
    split
    · rename_i semaphore success
      have value := (Semaphore.take_inv success).1
      refine ⟨sound.lines.stay (iff_of_true trivial inside) fun _ => ?_, ?_⟩
      · rw [waiting]
        rfl
      · have served := sound.served
        rw [value] at served
        exact served.finish (by rw [waiting]; trivial) id
    · exact ⟨sound.lines, sound.served⟩
  · rename_i buffer releasing
    cases taken
    have inside : (before.points thread).Inside := by
      rw [releasing]
      trivial
    have left : Journaled _ _ _ (update before.points thread .outside) _ _ :=
      sound.lines.leave inside id
    rw [releasing] at left
    refine ⟨?_, sound.served.stay ?_⟩
    · show Journaled _ _ _ _ (before.written ++ [buffer]).flatten _
      rw [List.flatten_append, List.flatten_singleton]
      exact left
    · rw [releasing]
      exact Iff.rfl

theorem Sound.next {before after : ConsoleOutput ι} {event : WriteEvent ι}
    (sound : Sound before) (taken : before.Step event after) :
    Sound after := by
  cases event with
  | call thread buffer =>
    simp only [Step, ConsoleOutput.next] at taken
    split at taken
    · rename_i outside
      cases taken
      refine ⟨sound.lines.stay ?_ False.elim, sound.served.stay ?_⟩
      · rw [outside]
        exact Iff.rfl
      · rw [outside]
        exact Iff.rfl
    · cases taken
  | run thread =>
    simp only [Step, ConsoleOutput.next] at taken
    split at taken
    · cases taken
    · exact sound.run taken
  | writeDone =>
    simp only [Step, ConsoleOutput.next, writeDone] at taken
    split at taken
    · cases taken
    · rename_i owner rest front
      cases taken
      have served := sound.served
      rw [front] at served
      exact ⟨sound.lines, served.interrupt⟩

/-- In every run, `PutChar` finds the device free; it is busy exactly while
an interrupt is pending; and the display shows the buffers of the complete
calls one after the other, followed by the start of the buffer of the call
which holds the line. -/
theorem lines_written_whole (events : List (WriteEvent ι))
    (state : ConsoleOutput ι) (run : Run Step boot events state) :
    (∀ thread buffer loop, state.points thread = .putting buffer loop →
      state.putBusy = false) ∧
    (state.putBusy = true ↔ state.pending ≠ []) ∧
    state.pending.length ≤ 1 ∧
    ((∀ thread, ¬(state.points thread).Inside) →
      state.display = state.written.flatten) ∧
    ∀ thread, (state.points thread).Inside →
      state.display =
        state.written.flatten ++ (state.points thread).shown ∧
      (state.points thread).shown <+: (state.points thread).buffer := by
  have sound : Sound state :=
    run.history (fun _ => Sound) sound_boot fun _ _ _ _ sound taken => sound.next taken
  refine ⟨?_, sound.served.busy_iff, sound.served.length_le_one, sound.lines.idle, ?_⟩
  · intro thread buffer loop putting
    exact (sound.served.idle (sound.nobody_waits putting)).1
  · intro thread inside
    exact ⟨sound.lines.current thread inside, WritePoint.shown_isPrefix _⟩

/-- A thread has put the second of two characters. -/
theorem lines_written_whole_second_character : ∃ state : ConsoleOutput Bool, Run Step boot
        [.call true [72#8, 105#8], .run true, .run true, .writeDone,
          .run true, .run true] state ∧
      state.display = [72#8, 105#8] ∧ state.pending ≠ [] := by
  obtain ⟨state, run, busy, shown⟩ := @exists_run_of_replay _ _ next Step
    boot [.call true [72#8, 105#8], .run true, .run true, .writeDone, .run true, .run true]
    (fun state : ConsoleOutput Bool =>
      state.putBusy = true ∧ state.display = [72#8, 105#8]) _
    (fun _ _ _ => id) (by decide +kernel)
  exact ⟨state, run, shown, (lines_written_whole _ state run).2.1.mp busy⟩

end ConsoleOutput

/-! ## Reading -/

/-- `EOF` as a `char`, which marks the empty buffer of the device. -/
def eof : Byte := 0xff#8

def newline : Byte := 0x0a#8

def ctrlA : Byte := 0x01#8

/-- A call of `SynchConsole::Read`: the buffer, the loop counter, and the
characters which it has taken from the device. -/
structure Reading where
  numBytes : Nat
  into : List Byte
  loop : Nat
  segment : List Byte
  deriving DecidableEq

/-- The buffer is cleared first. -/
def Reading.new (numBytes : Nat) : Reading where
  numBytes := numBytes
  into := List.replicate numBytes 0#8
  loop := 0
  segment := []

/-- Where a thread is in `SynchConsole::Read`; behind the loop with the last
character. -/
inductive ReadPoint where
  | outside
  | acquiring (numBytes : Nat)
  | awaiting (reading : Reading)
  | getting (reading : Reading)
  | releasing (reading : Reading) (ch : Byte)
  deriving DecidableEq

namespace ReadPoint

/-- Between `P` and `V` of `RLineBlock`. -/
def Inside : ReadPoint → Prop
  | .outside | .acquiring _ => False
  | _ => True

/-- Between `synchReadAvail->P()` and `GetChar`. -/
def Getting : ReadPoint → Prop
  | .getting _ => True
  | _ => False

def segment : ReadPoint → List Byte
  | .outside | .acquiring _ => []
  | .awaiting reading | .getting reading | .releasing reading _ =>
    reading.segment

end ReadPoint

/-- A call which is complete: the characters it has taken, its buffer and its
result. -/
structure ReadResult where
  numBytes : Nat
  segment : List Byte
  into : List Byte
  result : Int
  deriving DecidableEq

/-- The end of `Read`, with the last character. -/
def Reading.finish (reading : Reading) (ch : Byte) : ReadResult where
  numBytes := reading.numBytes
  segment := reading.segment
  into := reading.into
  result := if ch = ctrlA then -1 else reading.loop

/-- The keyboard.  `accepted` records the characters which `CheckCharAvail`
has read, except `EOF`, and `returned` those which `GetChar` has returned to
the threads. -/
structure ConsoleInput (ι : Type) where
  incoming : Byte
  synchReadAvail : Semaphore ι
  rLineBlock : Semaphore ι
  points : ι → ReadPoint
  accepted : List Byte
  returned : List Byte
  results : List ReadResult

/-- A thread calls `Read` or takes its next step, or the device polls the
keyboard, where a character has been typed or not. -/
inductive ReadEvent (ι : Type) where
  | call (thread : ι) (numBytes : Nat)
  | run (thread : ι)
  | poll (typed : Option Byte)

namespace ConsoleInput

variable {ι : Type} [DecidableEq ι]

def boot : ConsoleInput ι where
  incoming := eof
  synchReadAvail := Semaphore.new 0
  rLineBlock := Semaphore.new 1
  points := fun _ => .outside
  accepted := []
  returned := []
  results := []

def setPoint (state : ConsoleInput ι) (thread : ι) (point : ReadPoint) :
    ConsoleInput ι :=
  { state with points := update state.points thread point }

/-- What is new in the record of characters when `ch` comes. -/
def proper (ch : Byte) : List Byte := if ch = eof then [] else [ch]

/-- `Console::CheckCharAvail`, which calls `SynchReadFunct`. -/
def checkCharAvail (state : ConsoleInput ι) : Option Byte → ConsoleInput ι
  | none => state
  | some c =>
    if state.incoming ≠ eof then state
    else { state with
      incoming := c
      accepted := state.accepted ++ proper c
      synchReadAvail := state.synchReadAvail.release }

/-- `Console::GetChar`. -/
def getChar (state : ConsoleInput ι) : Byte × ConsoleInput ι :=
  (state.incoming, { state with
    incoming := eof
    returned := state.returned ++ proper state.incoming })

/-- `RLineBlock->P()`. -/
def acquire (state : ConsoleInput ι) (thread : ι) (numBytes : Nat) :
    ConsoleInput ι :=
  match state.rLineBlock.take with
  | some taken =>
    { state.setPoint thread (.awaiting (.new numBytes)) with
      rLineBlock := taken }
  | none => { state with rLineBlock := state.rLineBlock.sleep thread }

/-- `synchReadAvail->P()`. -/
def await (state : ConsoleInput ι) (thread : ι) (reading : Reading) :
    ConsoleInput ι :=
  match state.synchReadAvail.take with
  | some taken =>
    { state.setPoint thread (.getting reading) with
      synchReadAvail := taken }
  | none =>
    { state with synchReadAvail := state.synchReadAvail.sleep thread }

/-- Where the loops of `Read` go with a character. -/
def classify (reading : Reading) (ch : Byte) : ReadPoint :=
  if ch = eof then .awaiting reading
  else
    let taken := { reading with segment := reading.segment ++ [ch] }
    if ch = newline ∨ ch = ctrlA then .releasing taken ch
    else
      let stored := { taken with
        into := taken.into.set taken.loop ch
        loop := taken.loop + 1 }
      if stored.loop < stored.numBytes then .awaiting stored
      else .releasing stored ch

/-- `GetChar` and what follows it in the loop. -/
def get (state : ConsoleInput ι) (thread : ι) (reading : Reading) :
    ConsoleInput ι :=
  let (ch, state) := state.getChar
  state.setPoint thread (classify reading ch)

/-- `RLineBlock->V()` and the return. -/
def release (state : ConsoleInput ι) (thread : ι) (reading : Reading)
    (ch : Byte) : ConsoleInput ι :=
  { state.setPoint thread .outside with
    rLineBlock := state.rLineBlock.release
    results := state.results ++ [reading.finish ch] }

/-- The next step of a thread which is not asleep. -/
def run (state : ConsoleInput ι) (thread : ι) : Option (ConsoleInput ι) :=
  match state.points thread with
  | .outside => none
  | .acquiring numBytes => some (state.acquire thread numBytes)
  | .awaiting reading => some (state.await thread reading)
  | .getting reading => some (state.get thread reading)
  | .releasing reading ch => some (state.release thread reading ch)

/-- One event; there is none if it is not possible.  A call asks for at least
one character. -/
def next (state : ConsoleInput ι) : ReadEvent ι → Option (ConsoleInput ι)
  | .call thread numBytes =>
    match state.points thread with
    | .outside =>
      if 0 < numBytes then
        some (state.setPoint thread (.acquiring numBytes))
      else none
    | _ => none
  | .run thread =>
    if thread ∈ state.rLineBlock.queue ∨ thread ∈ state.synchReadAvail.queue then none
    else state.run thread
  | .poll typed => some (state.checkCharAvail typed)

abbrev Step (before : ConsoleInput ι) (event : ReadEvent ι) (after : ConsoleInput ι) : Prop :=
  before.next event = some after

end ConsoleInput

/-- The characters which do not end a line. -/
def Ordinary (text : List Byte) : Prop :=
  ∀ ch ∈ text, ch ≠ newline ∧ ch ≠ ctrlA

/-- A line: the text, which is stored and cleared behind, and how it ends. -/
inductive ReadResult.IsLine (line : ReadResult) (text : List Byte) :
    Prop where
  | newline (short : text.length < line.numBytes)
      (taken : line.segment = text ++ [newline])
      (result : line.result = text.length)
  | ctrlA (short : text.length < line.numBytes)
      (taken : line.segment = text ++ [ctrlA])
      (result : line.result = -1)
  | full (long : text.length = line.numBytes)
      (taken : line.segment = text) (result : line.result = text.length)

/-- What a call of `Read` should do. -/
def ReadResult.Proper (line : ReadResult) : Prop :=
  ∃ text, Ordinary text ∧ line.IsLine text ∧
    line.into = text ++ List.replicate (line.numBytes - text.length) 0#8

/-- The call has taken its text from the device and stored it. -/
structure Reading.Holds (reading : Reading) : Prop where
  ordinary : Ordinary reading.segment
  short : reading.segment.length < reading.numBytes
  loop : reading.loop = reading.segment.length
  into : reading.into = reading.segment ++
    List.replicate (reading.numBytes - reading.segment.length) 0#8

/-- A call on its way has taken less than a line. -/
def ReadPoint.Proper : ReadPoint → Prop
  | .outside => True
  | .acquiring numBytes => 0 < numBytes
  | .awaiting reading | .getting reading => reading.Holds
  | .releasing reading ch => (reading.finish ch).Proper

theorem Reading.holds_new {numBytes : Nat} (positive : 0 < numBytes) :
    (Reading.new numBytes).Holds where
  ordinary := nofun
  short := positive
  loop := rfl
  into := rfl

theorem set_behind {text : List Byte} {numBytes : Nat}
    (short : text.length < numBytes) (ch : Byte) :
    (text ++ List.replicate (numBytes - text.length) 0#8).set text.length
      ch = (text ++ [ch]) ++ List.replicate (numBytes - (text ++ [ch]).length) 0#8 := by
  have one : numBytes - text.length = numBytes - (text ++ [ch]).length + 1 := by
    rw [List.length_append, List.length_singleton]
    omega
  rw [one, List.set_append_right _ _ le_rfl, Nat.sub_self,
    List.replicate_succ, List.set_cons_zero, List.append_assoc]
  rfl

namespace ConsoleInput

theorem classify_segment (reading : Reading) (ch : Byte) :
    (classify reading ch).segment = reading.segment ++ proper ch := by
  unfold classify proper
  split
  · exact (List.append_nil _).symm
  · simp only
    split
    · rfl
    · split <;> rfl

theorem classify_inside (reading : Reading) (ch : Byte) : (classify reading ch).Inside := by
  unfold classify
  split
  · trivial
  · simp only
    split
    · trivial
    · split <;> trivial

variable {reading : Reading}

theorem classify_proper (holds : reading.Holds) (ch : Byte) : (classify reading ch).Proper := by
  unfold classify
  split
  · exact holds
  simp only
  split
  · rename_i ends
    refine ⟨reading.segment, holds.ordinary, ?_, holds.into⟩
    rcases ends with rfl | rfl
    · refine .newline holds.short rfl ?_
      simp only [Reading.finish, holds.loop]
      rfl
    · exact .ctrlA holds.short rfl rfl
  · rename_i goesOn
    have ordinary : Ordinary (reading.segment ++ [ch]) := by
      intro other member
      rcases List.mem_append.mp member with old | new
      · exact holds.ordinary other old
      · rw [List.mem_singleton.mp new]
        exact not_or.mp goesOn
    have length : (reading.segment ++ [ch]).length = reading.loop + 1 := by
      rw [List.length_append, holds.loop]
      rfl
    have stored : reading.into.set reading.loop ch = (reading.segment ++ [ch]) ++ List.replicate
          (reading.numBytes - (reading.segment ++ [ch]).length) 0#8 := by
      rw [holds.into, holds.loop]
      exact set_behind holds.short ch
    split
    · rename_i more
      exact ⟨ordinary, by rw [length]; exact more, length.symm, stored⟩
    · rename_i enough
      have short := holds.short
      refine ⟨reading.segment ++ [ch], ordinary, .full ?_ rfl ?_, stored⟩
      · have loop := holds.loop
        simp only [Reading.finish, length]
        omega
      · simp only [Reading.finish, length, if_neg (not_or.mp goesOn).2]

variable {ι : Type}

/-- The characters go to the calls in order, and a buffered character is
announced. -/
structure Sound (state : ConsoleInput ι) : Prop where
  segments : Journaled state.rLineBlock ReadPoint.Inside ReadPoint.segment
    state.points (state.results.flatMap ReadResult.segment) state.returned
  buffered : state.accepted = state.returned ++ proper state.incoming
  announced : state.incoming ≠ eof → state.synchReadAvail.value ≠ 0 ∨
    ∃ thread, (state.points thread).Getting
  points : ∀ thread, (state.points thread).Proper
  results : ∀ result ∈ state.results, result.Proper

theorem sound_boot : Sound (boot : ConsoleInput ι) where
  segments := .initial fun _ => id
  buffered := rfl
  announced changed := absurd rfl changed
  points _ := trivial
  results := nofun

variable {state : ConsoleInput ι}

theorem Sound.checkCharAvail (sound : Sound state) (typed : Option Byte) :
    Sound (state.checkCharAvail typed) := by
  unfold ConsoleInput.checkCharAvail
  split
  · exact sound
  · rename_i c
    split
    · exact sound
    · rename_i empty
      refine ⟨sound.segments, ?_, fun _ => .inl (Nat.succ_ne_zero _), sound.points, sound.results⟩
      have buffered := sound.buffered
      rw [not_ne_iff.mp empty] at buffered
      simp only [buffered, proper, if_true, List.append_nil]

variable [DecidableEq ι]

section

variable (sound : Sound state)
include sound

/-- A thread moves which neither gets a character nor goes to get one. -/
theorem Sound.announced_update {thread : ι} {point : ReadPoint}
    (before : ¬(state.points thread).Getting) (after : ¬point.Getting)
    (changed : state.incoming ≠ eof) :
    state.synchReadAvail.value ≠ 0 ∨ ∃ other, (update state.points thread point other).Getting := by
  rcases sound.announced changed with available | ⟨other, getting⟩
  · exact .inl available
  · exact .inr ⟨other, (holds_update_iff (iff_of_false after before) other).mpr getting⟩

theorem Sound.points_update (point : ReadPoint) (proper : point.Proper) (thread : ι) :
    ∀ other, (update state.points thread point other).Proper :=
  update_cases proper fun other _ => sound.points other

theorem Sound.acquire {thread : ι} {numBytes : Nat}
    (acquiring : state.points thread = .acquiring numBytes) :
    Sound (state.acquire thread numBytes) := by
  have positive := sound.points thread
  rw [acquiring] at positive
  unfold ConsoleInput.acquire
  split
  · rename_i taken success
    refine ⟨sound.segments.enter success trivial rfl, sound.buffered,
      sound.announced_update ?_ id, ?_, sound.results⟩
    · rw [acquiring]
      exact id
    · exact sound.points_update (.awaiting _) (Reading.holds_new positive) thread
  · exact ⟨sound.segments.of_value_eq rfl, sound.buffered,
      sound.announced, sound.points, sound.results⟩

theorem Sound.await {thread : ι} (awaiting : state.points thread = .awaiting reading) :
    Sound (state.await thread reading) := by
  have holds := sound.points thread
  have inside : (state.points thread).Inside := by
    rw [awaiting]
    trivial
  rw [awaiting] at holds
  unfold ConsoleInput.await
  split
  · rename_i taken success
    refine ⟨sound.segments.stay (iff_of_true trivial inside) fun _ => ?_,
      sound.buffered, fun _ => .inr ⟨thread, ?_⟩,
      sound.points_update (.getting reading) holds thread, sound.results⟩
    · rw [awaiting]
      rfl
    · simp only [setPoint, update_self]
      trivial
  · exact ⟨sound.segments, sound.buffered, sound.announced, sound.points, sound.results⟩

theorem Sound.get {thread : ι} (getting : state.points thread = .getting reading) :
    Sound (state.get thread reading) := by
  have holds := sound.points thread
  have inside : (state.points thread).Inside := by
    rw [getting]
    trivial
  rw [getting] at holds
  refine ⟨sound.segments.move (iff_of_true (classify_inside _ _) inside)
    (absurd (classify_inside _ _)) fun _ => ?_, ?_, absurd rfl,
    sound.points_update _ (classify_proper holds _) thread, sound.results⟩
  · rw [getting]
    exact classify_segment reading state.incoming
  · show state.accepted = state.returned ++ proper state.incoming ++ proper eof
    rw [sound.buffered]
    exact (List.append_nil _).symm

theorem Sound.release {thread : ι} {ch : Byte}
    (releasing : state.points thread = .releasing reading ch) :
    Sound (state.release thread reading ch) := by
  have finished := sound.points thread
  have inside : (state.points thread).Inside := by
    rw [releasing]
    trivial
  have left : Journaled _ _ _ (update state.points thread .outside) _ _ :=
    sound.segments.leave inside id
  rw [releasing] at finished left
  refine ⟨?_, sound.buffered, sound.announced_update ?_ id,
    sound.points_update .outside trivial thread, ?_⟩
  · show Journaled _ _ _ _ ((state.results ++ [reading.finish ch]).flatMap ReadResult.segment) _
    rw [List.flatMap_append, List.flatMap_singleton]
    exact left
  · rw [releasing]
    exact id
  · intro result member
    rcases List.mem_append.mp member with old | new
    · exact sound.results result old
    · rw [List.mem_singleton.mp new]
      exact finished

end

theorem Sound.next {before after : ConsoleInput ι} {event : ReadEvent ι}
    (sound : Sound before) (taken : before.Step event after) :
    Sound after := by
  cases event with
  | call thread numBytes =>
    simp only [Step, ConsoleInput.next] at taken
    split at taken
    · rename_i outside
      split at taken
      · rename_i positive
        cases taken
        refine ⟨sound.segments.stay ?_ False.elim, sound.buffered,
          sound.announced_update ?_ id,
          sound.points_update (.acquiring numBytes) positive thread,
          sound.results⟩
        · rw [outside]
          exact Iff.rfl
        · rw [outside]
          exact id
      · cases taken
    · cases taken
  | run thread =>
    simp only [Step, ConsoleInput.next] at taken
    split at taken
    · cases taken
    unfold ConsoleInput.run at taken
    split at taken
    · cases taken
    · rename_i numBytes acquiring
      cases taken
      exact sound.acquire acquiring
    · rename_i reading awaiting
      cases taken
      exact sound.await awaiting
    · rename_i reading getting
      cases taken
      exact sound.get getting
    · rename_i reading ch releasing
      cases taken
      exact sound.release releasing
  | poll typed =>
    cases taken
    exact sound.checkCharAvail typed

theorem sound_of_run {events : List (ReadEvent ι)} (run : Run Step boot events state) :
    Sound state :=
  run.history (fun _ => Sound) sound_boot fun _ _ _ _ sound taken => sound.next taken

/-- In every run, the characters which the device has accepted are those
which it has returned, in order, and the buffered one, for which a reader
finds the semaphore available.  They have gone to the complete calls, one
call after the other, and to the call which holds the line; and each complete
call has taken one line. -/
theorem lines_read_once_in_order (events : List (ReadEvent ι))
    (state : ConsoleInput ι) (run : Run Step boot events state) :
    state.accepted = state.returned ++ proper state.incoming ∧
    (state.incoming ≠ eof → state.synchReadAvail.value ≠ 0 ∨
      ∃ thread, (state.points thread).Getting) ∧
    ((∀ thread, ¬(state.points thread).Inside) →
      state.returned = state.results.flatMap ReadResult.segment) ∧
    (∀ thread, (state.points thread).Inside →
      state.returned = state.results.flatMap ReadResult.segment ++
        (state.points thread).segment) ∧
    ∀ result ∈ state.results, result.Proper := by
  have sound := sound_of_run run
  exact ⟨sound.buffered, sound.announced, sound.segments.idle,
    sound.segments.current, sound.results⟩

/-- The characters `EOF`, `h` and newline for a reader. -/
theorem lines_read_once_in_order_one_line : ∃ state : ConsoleInput Bool, Run Step boot
        [.call true 4, .run true, .poll (some eof), .poll (some 104#8),
          .run true, .run true, .run true, .run true,
          .poll (some newline), .run true, .run true, .run true] state ∧
      state.results = [⟨4, [104#8, newline], [104#8, 0#8, 0#8, 0#8], 1⟩] ∧
      ∀ result ∈ state.results, result.Proper := by
  obtain ⟨state, run, results⟩ := @exists_run_of_replay _ _ next Step
    boot [.call true 4, .run true, .poll (some eof), .poll (some 104#8),
      .run true, .run true, .run true, .run true, .poll (some newline),
      .run true, .run true, .run true]
    (fun state : ConsoleInput Bool => state.results =
      [⟨4, [104#8, newline], [104#8, 0#8, 0#8, 0#8], 1⟩]) _
    (fun _ _ _ => id) (by decide +kernel)
  exact ⟨state, run, results, (lines_read_once_in_order _ state run).2.2.2.2⟩

end ConsoleInput

end Nachos
