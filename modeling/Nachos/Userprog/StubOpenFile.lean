import Nachos.Userprog.UnixFiles
import Nachos.Lib.Transition

/-!
# The offset of a stub file

The `OpenFile` of the stub file system keeps an offset of its own and moves
the position of its descriptor at every access.  `GetCurrentPos` takes the
offset from the descriptor, so it sees where the last access ended, whether
that was one of `Read` and `Write` or not.
-/

open Words Transition

namespace Nachos

namespace Unix

/-- `lseek(file, 0, 2)`, whose result as an `int` must not be negative. -/
def lseekEnd (unix : Unix) (file : Word) : Result Unix :=
  match unix.descriptor file with
  | none => .error .assertion
  | some descriptor =>
    match unix.files descriptor.name with
    | none => .error .assertion
    | some contents =>
      if 0 ≤ (BitVec.ofNat 32 contents.length).toInt then
        .ok (unix.setDescriptor file (some { descriptor with position := contents.length }))
      else .error .assertion

end Unix

/-- The file object, with the host behind it. -/
structure StubOpenFile where
  object : StubFile
  unix : Unix

inductive FileCall where
  | read (numBytes : Word)
  | write (source : List Byte) (numBytes : Word)
  | readAt (numBytes position : Word)
  | writeAt (source : List Byte) (numBytes position : Word)
  | length
  | getCurrentPos

/-- The result, and the bytes which have been read. -/
structure FileReply where
  result : Word
  bytes : List Byte

namespace StubOpenFile

/-! ## The methods -/

def readAt (file : StubOpenFile) (numBytes position : Word) :
    Result (FileReply × StubOpenFile) := do
  let unix ← file.unix.lseek file.object.file position
  let ((numRead, bytes), unix) := unix.readPartial file.object.file numBytes
  return (⟨numRead, bytes⟩, { file with unix := unix })

def writeAt (file : StubOpenFile) (source : List Byte)
    (numBytes position : Word) : Result (FileReply × StubOpenFile) := do
  let unix ← file.unix.lseek file.object.file position
  let unix ← unix.writeFile file.object.file source numBytes
  return (⟨numBytes, []⟩, { file with unix := unix })

/-- `currentOffset += count`. -/
def advance (file : StubOpenFile) (count : Word) : StubOpenFile :=
  { file with object := { file.object with
    currentOffset := file.object.currentOffset + count } }

def read (file : StubOpenFile) (numBytes : Word) : Result (FileReply × StubOpenFile) := do
  let (reply, file) ← file.readAt numBytes file.object.currentOffset
  return (reply, file.advance reply.result)

def write (file : StubOpenFile) (source : List Byte) (numBytes : Word) :
    Result (FileReply × StubOpenFile) := do
  let (reply, file) ←
    file.writeAt source numBytes file.object.currentOffset
  return (reply, file.advance reply.result)

def length (file : StubOpenFile) : Result (FileReply × StubOpenFile) := do
  let unix ← file.unix.lseekEnd file.object.file
  let len := unix.tell file.object.file
  let unix ← unix.lseek file.object.file file.object.currentOffset
  return (⟨len, []⟩, { file with unix := unix })

def getCurrentPos (file : StubOpenFile) : FileReply × StubOpenFile :=
  let currentOffset := file.unix.tell file.object.file
  (⟨currentOffset, []⟩, { file with object := { file.object with
    currentOffset := currentOffset } })

def perform (file : StubOpenFile) : FileCall → Result (FileReply × StubOpenFile)
  | .read numBytes => file.read numBytes
  | .write source numBytes => file.write source numBytes
  | .readAt numBytes position => file.readAt numBytes position
  | .writeAt source numBytes position =>
    file.writeAt source numBytes position
  | .length => file.length
  | .getCurrentPos => .ok file.getCurrentPos

def Step (before : StubOpenFile) (label : FileCall × FileReply) (after : StubOpenFile) : Prop :=
  before.perform label.1 = .ok (label.2, after)

/-- A file which has just been opened. -/
def Opened (file : StubOpenFile) : Prop :=
  file.object.currentOffset = 0#32 ∧ ∃ name contents,
    file.unix.descriptor file.object.file = some ⟨name, 0⟩ ∧
    file.unix.files name = some contents

end StubOpenFile

/-! ## What the labels say -/

/-- The offset which `Read` and `Write` have reached, and the position at
which the last access has ended. -/
structure Offsets where
  reached : Word
  accessEnd : Word

namespace Offsets

/-- Where an access of a number of bytes ends; one of a negative number
fails. -/
def behind (position numBytes count : Word) : Word :=
  if numBytes.toInt < 0 then position else position + count

def follow (offsets : Offsets) : FileCall × FileReply → Offsets
  | (.read numBytes, reply) =>
    ⟨offsets.reached + reply.result, behind offsets.reached numBytes reply.result⟩
  | (.write _ numBytes, reply) =>
    ⟨offsets.reached + reply.result, behind offsets.reached numBytes reply.result⟩
  | (.readAt numBytes position, reply) =>
    ⟨offsets.reached, behind position numBytes reply.result⟩
  | (.writeAt _ numBytes position, reply) =>
    ⟨offsets.reached, behind position numBytes reply.result⟩
  | (.length, _) => ⟨offsets.reached, offsets.reached⟩
  | (.getCurrentPos, _) => offsets

/-- The offsets after calls on a file which has just been opened. -/
def after (labels : List (FileCall × FileReply)) : Offsets :=
  labels.foldl follow ⟨0#32, 0#32⟩

theorem after_snoc (labels : List (FileCall × FileReply)) (label : FileCall × FileReply) :
    after (labels ++ [label]) = (after labels).follow label := by
  simp [after]

end Offsets

namespace StubOpenFile

/-- Each `GetCurrentPos` has returned the offset which `Read` and `Write`
had reached. -/
def Answers (labels : List (FileCall × FileReply)) : Prop :=
  ∀ earlier reply, earlier ++ [(.getCurrentPos, reply)] <+: labels →
    reply.result = (Offsets.after earlier).reached

/-- The next `Read` or `Write` takes place where the last one ended, and
`GetCurrentPos` has told so. -/
def KeepsOffset (labels : List (FileCall × FileReply)) (finish : StubOpenFile) : Prop :=
  Answers labels ∧ finish.object.currentOffset = (Offsets.after labels).reached

/-- Each `GetCurrentPos` came when the last access had ended at the offset
which `Read` and `Write` had reached. -/
def Agrees (labels : List (FileCall × FileReply)) : Prop :=
  ∀ earlier reply, earlier ++ [(.getCurrentPos, reply)] <+: labels →
    (Offsets.after earlier).accessEnd = (Offsets.after earlier).reached

/-! ## The invariant -/

end StubOpenFile

namespace Unix

/-- The descriptor is open, and its position is the place as an `int`. -/
def At (unix : Unix) (file place : Word) : Prop :=
  ∃ name position contents,
    unix.descriptor file = some ⟨name, position⟩ ∧
    unix.files name = some contents ∧
    BitVec.ofNat 32 position = place

variable {unix after : Unix} {file place : Word}

theorem At.tell (at_place : unix.At file place) : unix.tell file = place := by
  obtain ⟨name, position, contents, opened, -, rfl⟩ := at_place
  simp only [Unix.tell, opened]

theorem At.set {name : CString} {contents : List Byte} {descriptor : Descriptor}
    (opened : unix.descriptor file = some descriptor)
    (stored : unix.files name = some contents) (position : Nat) :
    (unix.setDescriptor file (some ⟨name, position⟩)).At file (BitVec.ofNat 32 position) :=
  ⟨name, position, contents,
    descriptor_setDescriptor _ (lt_of_descriptor opened) _,
    by rw [setDescriptor_files, stored], rfl⟩

variable (at_place : unix.At file place)
include at_place

theorem At.lseek {offset : Word} (moved : unix.lseek file offset = .ok after) :
    after.At file offset := by
  obtain ⟨name, position, contents, opened, stored, -⟩ := at_place
  unfold Unix.lseek at moved
  rw [opened] at moved
  dsimp only at moved
  split at moved
  · rename_i nonneg
    cases moved
    have value : BitVec.ofNat 32 offset.toInt.toNat = offset := by
      rw [toInt_eq_toNat nonneg, Int.toNat_natCast, BitVec.ofNat_toNat, BitVec.setWidth_eq]
    have placed := At.set opened stored offset.toInt.toNat
    rwa [value] at placed
  · cases moved

theorem At.lseekEnd (moved : unix.lseekEnd file = .ok after) : ∃ finish, after.At file finish := by
  obtain ⟨name, position, contents, opened, stored, -⟩ := at_place
  unfold Unix.lseekEnd at moved
  simp only [opened, stored] at moved
  split at moved
  · cases moved
    exact ⟨_, At.set opened stored _⟩
  · cases moved

theorem At.readPartial {nBytes count : Word} {bytes : List Byte}
    (result : unix.readPartial file nBytes = ((count, bytes), after)) :
    after.At file (Offsets.behind place nBytes count) := by
  obtain ⟨name, position, contents, opened, stored, rfl⟩ := at_place
  unfold Unix.readPartial at result
  unfold Offsets.behind
  simp only [opened, stored] at result
  split at result
  · rename_i negative
    cases result
    rw [if_pos negative]
    exact ⟨name, position, contents, opened, stored, rfl⟩
  · rename_i nonneg
    cases result
    rw [if_neg nonneg, ← BitVec.ofNat_add]
    exact At.set opened stored _

theorem At.writeFile {buffer : List Byte} {nBytes : Word}
    (written : unix.writeFile file buffer nBytes = .ok after) :
    after.At file (Offsets.behind place nBytes nBytes) := by
  obtain ⟨name, position, contents, opened, stored, rfl⟩ := at_place
  unfold Unix.writeFile at written
  unfold Offsets.behind
  simp only [opened, stored] at written
  split at written
  · rename_i negative
    rw [if_pos negative]
    split at written
    · cases written
      exact ⟨name, position, contents, opened, stored, rfl⟩
    · cases written
  · rename_i nonneg
    rw [if_neg nonneg]
    split at written
    · cases written
    · cases written
      refine ⟨name, position + nBytes.toNat,
        overwrite contents position (buffer.take nBytes.toNat),
        descriptor_setDescriptor _ (lt_of_descriptor opened) _, ?_, ?_⟩
      · rw [setDescriptor_files]
        exact Function.update_self ..
      · rw [BitVec.ofNat_add, BitVec.ofNat_toNat, BitVec.setWidth_eq]

end Unix

namespace StubOpenFile

/-- The object has the offset, and its descriptor the position. -/
structure Tracks (file : StubOpenFile) (offsets : Offsets) : Prop where
  offset : file.object.currentOffset = offsets.reached
  position : file.unix.At file.object.file offsets.accessEnd

theorem Opened.tracks {file : StubOpenFile} (opened : file.Opened) : file.Tracks ⟨0#32, 0#32⟩ := by
  obtain ⟨offset, name, contents, descriptor, stored⟩ := opened
  exact ⟨offset, name, 0, contents, descriptor, stored, rfl⟩

section

variable {file after : StubOpenFile} {reply : FileReply} {offsets : Offsets}
  {numBytes position : Word}

variable (tracks : file.Tracks offsets)
include tracks

theorem Tracks.readAt (result : file.readAt numBytes position = .ok (reply, after)) :
    after.object = file.object ∧ after.unix.At after.object.file
      (Offsets.behind position numBytes reply.result) := by
  unfold StubOpenFile.readAt at result
  obtain ⟨unix, moved, result⟩ := bind_ok_inv result
  cases result
  exact ⟨rfl, (tracks.position.lseek moved).readPartial rfl⟩

theorem Tracks.writeAt {source : List Byte}
    (result : file.writeAt source numBytes position = .ok (reply, after)) :
    reply.result = numBytes ∧ after.object = file.object ∧ after.unix.At after.object.file
        (Offsets.behind position numBytes reply.result) := by
  unfold StubOpenFile.writeAt at result
  obtain ⟨unix, moved, result⟩ := bind_ok_inv result
  obtain ⟨unix', written, result⟩ := bind_ok_inv result
  cases result
  exact ⟨rfl, rfl, (tracks.position.lseek moved).writeFile written⟩

theorem Tracks.advance {middle : StubOpenFile} (same : middle.object = file.object) {finish : Word}
    (placed : middle.unix.At middle.object.file finish) (count : Word) :
    (middle.advance count).Tracks ⟨offsets.reached + count, finish⟩ := by
  refine ⟨?_, placed⟩
  change middle.object.currentOffset + count = _
  rw [same, tracks.offset]

theorem Tracks.step {label : FileCall × FileReply} (step : Step file label after)
    (other : label.1 ≠ .getCurrentPos) :
    after.Tracks (offsets.follow label) := by
  obtain ⟨call, reply⟩ := label
  unfold Step at step
  cases call with
  | read numBytes =>
    obtain ⟨⟨middleReply, middle⟩, accessed, advanced⟩ := bind_ok_inv step
    obtain ⟨same, placed⟩ := tracks.readAt accessed
    cases advanced
    rw [tracks.offset] at placed
    exact tracks.advance same placed _
  | write source numBytes =>
    obtain ⟨⟨middleReply, middle⟩, accessed, advanced⟩ := bind_ok_inv step
    obtain ⟨-, same, placed⟩ := tracks.writeAt accessed
    cases advanced
    rw [tracks.offset] at placed
    exact tracks.advance same placed _
  | readAt numBytes position =>
    obtain ⟨same, placed⟩ := tracks.readAt step
    exact ⟨by rw [same, tracks.offset]; rfl, placed⟩
  | writeAt source numBytes position =>
    obtain ⟨-, same, placed⟩ := tracks.writeAt step
    exact ⟨by rw [same, tracks.offset]; rfl, placed⟩
  | length =>
    obtain ⟨unix, moved, step⟩ := bind_ok_inv step
    obtain ⟨unix', back, step⟩ := bind_ok_inv step
    cases step
    obtain ⟨finish, placed⟩ := tracks.position.lseekEnd moved
    have returned := placed.lseek back
    rw [tracks.offset] at returned
    exact ⟨tracks.offset, returned⟩
  | getCurrentPos => exact absurd rfl other

/-- `GetCurrentPos` tells where the last access has ended. -/
theorem Tracks.getCurrentPos (step : Step file (.getCurrentPos, reply) after) :
    reply.result = offsets.accessEnd ∧
      (offsets.accessEnd = offsets.reached → after.Tracks offsets) := by
  cases step
  refine ⟨tracks.position.tell, ?_⟩
  intro agree
  refine ⟨?_, tracks.position⟩
  change file.unix.tell file.object.file = _
  rw [tracks.position.tell, agree]

end

/-! ## Runs of calls -/

/-- A property of the calls before each `GetCurrentPos`, with one more
label. -/
theorem forall_getCurrentPos_snoc {property : List (FileCall × FileReply) → FileReply → Prop}
    {labels : List (FileCall × FileReply)} {label : FileCall × FileReply} :
    (∀ earlier reply,
        earlier ++ [(.getCurrentPos, reply)] <+: labels ++ [label] →
        property earlier reply) ↔
      (∀ earlier reply, earlier ++ [(.getCurrentPos, reply)] <+: labels →
        property earlier reply) ∧
      (label.1 = .getCurrentPos → property labels label.2) := by
  constructor
  · intro holds
    constructor
    · intro earlier reply before
      exact holds earlier reply (before.trans (List.prefix_append _ _))
    · intro last
      refine holds labels label.2 ?_
      rw [← last]
  · rintro ⟨past, last⟩ earlier reply before
    rcases List.prefix_concat_iff.mp before with whole | before
    · obtain ⟨rfl, same⟩ := List.append_inj' whole rfl
      cases same
      exact last rfl
    · exact past earlier reply before

theorem not_getCurrentPos_before_start {earlier : List (FileCall × FileReply)} {reply : FileReply} :
    ¬ earlier ++ [(.getCurrentPos, reply)] <+: [] := by
  intro before
  have length := before.length_le
  simp at length

/-- As long as the last accesses agree with the offset, the file does what
the labels say, and `GetCurrentPos` tells the difference at once. -/
theorem run_tracks {start finish : StubOpenFile}
    {labels : List (FileCall × FileReply)} (opened : start.Opened)
    (run : Run Step start labels finish) :
    (Answers labels ↔ Agrees labels) ∧ (Agrees labels → finish.Tracks (Offsets.after labels)) := by
  refine run.history (fun labels finish =>
    (Answers labels ↔ Agrees labels) ∧ (Agrees labels → finish.Tracks (Offsets.after labels))) ?_ ?_
  · have none : Agrees [] := fun _ _ before =>
      absurd before not_getCurrentPos_before_start
    have answered : Answers [] := fun _ _ before =>
      absurd before not_getCurrentPos_before_start
    exact ⟨iff_of_true answered none, fun _ => opened.tracks⟩
  · intro past before label after ⟨same, tracks⟩ step
    rw [Answers, Agrees, forall_getCurrentPos_snoc, forall_getCurrentPos_snoc, Offsets.after_snoc]
    change (Answers past ∧ _ ↔ Agrees past ∧ _) ∧ (Agrees past ∧ _ → _)
    rw [same]
    by_cases last : label.1 = .getCurrentPos
    · obtain ⟨call, reply⟩ := label
      cases last
      constructor
      · refine and_congr_right fun agrees => ?_
        rw [((tracks agrees).getCurrentPos step).1]
      · rintro ⟨agrees, ended⟩
        exact ((tracks agrees).getCurrentPos step).2 (ended rfl)
    · constructor
      · exact and_congr_right fun _ => iff_of_true (absurd · last) (absurd · last)
      · rintro ⟨agrees, -⟩
        exact (tracks agrees).step step last

/-- `GetCurrentPos` returns the offset of `Read` and `Write`, and the other
calls do not move it, exactly when at every `GetCurrentPos` the last access
has ended at that offset. -/
theorem keepsOffset_iff_agrees {start finish : StubOpenFile}
    {labels : List (FileCall × FileReply)} (opened : start.Opened)
    (run : Run Step start labels finish) :
    KeepsOffset labels finish ↔ Agrees labels := by
  obtain ⟨same, tracks⟩ := run_tracks opened run
  constructor
  · rintro ⟨answers, -⟩
    exact same.mp answers
  · intro agrees
    exact ⟨same.mpr agrees, (tracks agrees).offset⟩

/-- A file of five bytes, open as descriptor 3. -/
def fiveBytes : StubOpenFile where
  object := ⟨0#32, 3#32, 0#32⟩
  unix := {
    files := fun name =>
      if name = [102#8] then some [1#8, 2#8, 3#8, 4#8, 5#8] else none
    descriptors := fun index =>
      if index.val = 3 then some ⟨[102#8], 0⟩ else none }

theorem fiveBytes_opened : fiveBytes.Opened :=
  ⟨rfl, [102#8], [1#8, 2#8, 3#8, 4#8, 5#8], rfl, rfl⟩

/-- A `ReadAt` between two accesses, of which each is followed by
`GetCurrentPos`. -/
def accesses : List (FileCall × FileReply) :=
  [(.read 2#32, ⟨2#32, [1#8, 2#8]⟩), (.getCurrentPos, ⟨2#32, []⟩),
    (.readAt 1#32 4#32, ⟨1#32, [5#8]⟩),
    (.write [9#8] 1#32, ⟨1#32, []⟩), (.getCurrentPos, ⟨3#32, []⟩)]

theorem accesses_agree : Agrees accesses := by
  rintro earlier reply ⟨later, whole⟩
  have past : earlier = accesses.take earlier.length := by simp [← whole]
  have last : accesses[earlier.length]? = some (.getCurrentPos, reply) := by simp [← whole]
  have inside : earlier.length < 5 := (List.getElem?_eq_some_iff.mp last).1
  rw [past]
  generalize earlier.length = count at last inside
  interval_cases count
  case «1» | «4» => rfl
  all_goals cases last

theorem keepsOffset_iff_agrees_between :
    ∃ finish, Run Step fiveBytes accesses finish ∧ KeepsOffset accesses finish ∧
      finish.object.currentOffset = 3#32 := by
  have run : Run Step fiveBytes accesses _ :=
    .snoc (.snoc (.snoc (.snoc (.single (by exact rfl)) (by exact rfl)) (by exact rfl))
      (by exact rfl)) (by exact rfl)
  exact ⟨_, run, (keepsOffset_iff_agrees fiveBytes_opened run).mpr accesses_agree, rfl⟩

/-- `ReadAt` of one byte at 3 on a file which has just been opened:
`GetCurrentPos` returns 4, and the next `Read` reads there. -/
theorem readAt_moves_offset : fiveBytes.Opened ∧ ∃ finish next, Run Step fiveBytes
      [(.readAt 1#32 3#32, ⟨1#32, [4#8]⟩), (.getCurrentPos, ⟨4#32, []⟩)]
      finish ∧
    Step finish (.read 1#32, ⟨1#32, [5#8]⟩) next ∧
    ¬ KeepsOffset [(.readAt 1#32 3#32, ⟨1#32, [4#8]⟩), (.getCurrentPos, ⟨4#32, []⟩)]
      finish := by
  refine ⟨fiveBytes_opened, _, _,
    .snoc (.snoc .refl (by exact rfl)) (by exact rfl), by exact rfl, ?_⟩
  rintro ⟨answers, -⟩
  have answer := answers [(.readAt 1#32 3#32, ⟨1#32, [4#8]⟩)] ⟨4#32, []⟩ (List.prefix_refl _)
  exact absurd answer (by decide)

end StubOpenFile

end Nachos
