import Nachos.Userprog.Exception

/-!
# The files of the host

The stub file system keeps the files of Nachos as files of UNIX.  A file is
the list of its bytes.  A descriptor names an open file and the position of
the next access; a new one is the smallest that is free.
-/

open Words Calls Program Function

namespace Nachos

/-- The number of descriptors a process can have. -/
def openMax : Nat := 1024

structure Descriptor where
  name : CString
  position : Nat

structure Unix where
  files : CString → Option (List Byte)
  descriptors : Fin openMax → Option Descriptor

namespace Unix

def descriptor (unix : Unix) (file : Word) : Option Descriptor :=
  if inside : file.toNat < openMax then
    unix.descriptors ⟨file.toNat, inside⟩
  else none

def setDescriptor (unix : Unix) (file : Word) (descriptor : Option Descriptor) : Unix :=
  if inside : file.toNat < openMax then
    { unix with
      descriptors := update unix.descriptors ⟨file.toNat, inside⟩ descriptor }
  else unix

def freeDescriptor (unix : Unix) : Option Word :=
  ((List.finRange openMax).find? fun index =>
    (unix.descriptors index).isNone).map fun index =>
      BitVec.ofNat 32 index.val

/-- `open(name, O_RDWR, 0)`. -/
def openForReadWrite (unix : Unix) (name : CString) : Word × Unix :=
  match unix.files name, unix.freeDescriptor with
  | some _, some file => (file, unix.setDescriptor file (some ⟨name, 0⟩))
  | _, _ => (-1#32, unix)

/-- `open(name, O_RDWR|O_CREAT|O_TRUNC, 0666)`, which must succeed. -/
def openForWrite (unix : Unix) (name : CString) : Result (Word × Unix) :=
  match unix.freeDescriptor with
  | some file =>
    let created := { unix with
      files := update unix.files name (some []) }
    .ok (file, created.setDescriptor file (some ⟨name, 0⟩))
  | none => .error .assertion

def close (unix : Unix) (file : Word) : Result Unix :=
  match unix.descriptor file with
  | some _ => .ok (unix.setDescriptor file none)
  | none => .error .assertion

/-- `lseek(file, offset, 0)`, which must succeed. -/
def lseek (unix : Unix) (file offset : Word) : Result Unix :=
  match unix.descriptor file with
  | some descriptor =>
    if 0 ≤ offset.toInt then
      .ok (unix.setDescriptor file (some { descriptor with position := offset.toInt.toNat }))
    else .error .assertion
  | none => .error .assertion

/-- `read(file, buffer, nBytes)`: the count and the bytes. -/
def readPartial (unix : Unix) (file nBytes : Word) : (Word × List Byte) × Unix :=
  match unix.descriptor file with
  | none => ((-1#32, []), unix)
  | some descriptor =>
    match unix.files descriptor.name with
    | none => ((-1#32, []), unix)
    | some contents =>
      if nBytes.toInt < 0 then ((-1#32, []), unix)
      else
        let bytes := (contents.drop descriptor.position).take nBytes.toNat
        ((BitVec.ofNat 32 bytes.length, bytes), unix.setDescriptor file (some { descriptor with
            position := descriptor.position + bytes.length }))

/-- The contents of a file after a write; a gap is filled with NULs, unless
nothing is written. -/
def overwrite (contents : List Byte) (position : Nat) (data : List Byte) :
    List Byte :=
  if data = [] then contents
  else
    contents.take position ++
      List.replicate (position - contents.length) 0#8 ++ data ++
      contents.drop (position + data.length)

theorem overwrite_of_le {contents data : List Byte} {position : Nat}
    (inside : position ≤ contents.length) :
    overwrite contents position data =
      contents.take position ++ (data ++ contents.drop (position + data.length)) := by
  unfold overwrite
  split
  case isTrue empty => simp [empty]
  case isFalse => simp [Nat.sub_eq_zero_of_le inside]

/-- `write(file, buffer, nBytes)`, which must write all of them. -/
def writeFile (unix : Unix) (file : Word) (buffer : List Byte) (nBytes : Word) : Result Unix :=
  match unix.descriptor file with
  | none => if nBytes = -1#32 then .ok unix else .error .assertion
  | some descriptor =>
    match unix.files descriptor.name with
    | none => if nBytes = -1#32 then .ok unix else .error .assertion
    | some contents =>
      if nBytes.toInt < 0 then
        if nBytes = -1#32 then .ok unix else .error .assertion
      else if buffer.length < nBytes.toNat then .error .bounds
      else
        let data := buffer.take nBytes.toNat
        let written := { unix with
          files := update unix.files descriptor.name
            (some (overwrite contents descriptor.position data)) }
        .ok (written.setDescriptor file (some { descriptor with
          position := descriptor.position + nBytes.toNat }))

/-- `lseek(file, 0, SEEK_CUR)`. -/
def tell (unix : Unix) (file : Word) : Word :=
  match unix.descriptor file with
  | some descriptor => BitVec.ofNat 32 descriptor.position
  | none => -1#32

/-- The first bytes of a file. -/
def beginning (unix : Unix) (name : CString) (count : Nat) : Option (List Byte) :=
  (unix.files name).map (List.take count)

end Unix

namespace Shared

def withUnix (shared : Shared Unix) (unix : Unix) : Shared Unix :=
  { shared with rest := unix }

/-- A call of UNIX which is checked by an `ASSERT`. -/
def checked {α : Type} (shared : Shared Unix) :
    Result (α × Unix) → Except Departure (α × Shared Unix)
  | .ok (reply, unix) => .ok (reply, shared.withUnix unix)
  | .error reason => .error (.fault reason)

end Shared

/-- The host with its files; `fresh` is what new memory holds, and `other`
serves the calls which are not about files. -/
def unixHost (fresh : Nat → Byte) (other : Environment Unix) : Environment Unix
  | .newChars _, shared => .ok (some fresh, shared)
  | .openForWrite name, shared =>
    shared.checked (shared.rest.openForWrite name)
  | .openForReadWrite name, shared =>
    shared.checked (.ok (shared.rest.openForReadWrite name))
  | .close file, shared =>
    shared.checked ((shared.rest.close file).map fun unix => ((), unix))
  | .lseek file offset, shared =>
    shared.checked ((shared.rest.lseek file offset).map fun unix => ((), unix))
  | .readPartial file nBytes, shared =>
    shared.checked (.ok (shared.rest.readPartial file nBytes))
  | .writeFile file buffer nBytes, shared =>
    shared.checked ((shared.rest.writeFile file buffer nBytes).map fun unix => ((), unix))
  | .tell file, shared => .ok (shared.rest.tell file, shared)
  | request, shared => other request shared

/-! ## Descriptors -/

namespace Unix

variable {unix : Unix} {file : Word} {old : Descriptor}

@[simp] theorem setDescriptor_files (unix : Unix) (file : Word)
    (descriptor : Option Descriptor) :
    (unix.setDescriptor file descriptor).files = unix.files := by
  unfold setDescriptor
  split <;> rfl

theorem descriptor_setDescriptor (unix : Unix) {file : Word}
    (inside : file.toNat < openMax) (descriptor : Option Descriptor) :
    (unix.setDescriptor file descriptor).descriptor file = descriptor := by
  simp only [Unix.descriptor, setDescriptor, dif_pos inside, update_self]

theorem descriptor_setDescriptor_of_ne (unix : Unix) {file other : Word}
    (different : other ≠ file) (descriptor : Option Descriptor) :
    (unix.setDescriptor file descriptor).descriptor other =
      unix.descriptor other := by
  unfold Unix.descriptor setDescriptor
  split
  · split
    · apply update_of_ne
      intro same
      have values : other.toNat = file.toNat := Fin.mk.inj same
      exact different (BitVec.eq_of_toNat_eq values)
    · rfl
  · rfl

theorem lt_of_descriptor (opened : unix.descriptor file = some old) : file.toNat < openMax := by
  unfold descriptor at opened
  split at opened
  · assumption
  · cases opened

section Access

variable {name : CString} {position : Nat} {contents : List Byte} {nBytes : Word}

theorem lseek_same {offset : Word} (opened : unix.descriptor file = some ⟨name, position⟩)
    (place : offset.toInt = position) :
    ∃ after, unix.lseek file offset = .ok after ∧
      after.files = unix.files ∧
      after.descriptor file = some ⟨name, position⟩ := by
  refine ⟨unix.setDescriptor file (some ⟨name, position⟩), ?_,
    setDescriptor_files _ _ _,
    descriptor_setDescriptor _ (lt_of_descriptor opened) _⟩
  unfold lseek
  simp only [opened, place, Int.natCast_nonneg, if_true, Int.toNat_natCast]

theorem readPartial_all (opened : unix.descriptor file = some ⟨name, position⟩)
    (stored : unix.files name = some contents)
    (nonnegative : 0 ≤ nBytes.toInt)
    (enough : position + nBytes.toNat ≤ contents.length) :
    ∃ after, unix.readPartial file nBytes =
        ((nBytes, (contents.drop position).take nBytes.toNat), after) ∧
      after.files = unix.files ∧
      after.descriptor file = some ⟨name, position + nBytes.toNat⟩ := by
  have length : ((contents.drop position).take nBytes.toNat).length =
      nBytes.toNat := by
    rw [List.length_take, List.length_drop]
    omega
  refine ⟨unix.setDescriptor file (some ⟨name, position + nBytes.toNat⟩),
    ?_, setDescriptor_files _ _ _,
    descriptor_setDescriptor _ (lt_of_descriptor opened) _⟩
  unfold readPartial
  simp only [opened, stored, if_neg (not_lt.mpr nonnegative), length,
    BitVec.ofNat_toNat, BitVec.setWidth_eq]

theorem tell_sub {count : Nat} (moved : unix.descriptor file = some ⟨name, position + count⟩) :
    unix.tell file - BitVec.ofNat 32 position = BitVec.ofNat 32 count := by
  simp only [tell, moved]
  rw [BitVec.ofNat_add, BitVec.add_comm, BitVec.add_sub_cancel]

variable (opened : unix.descriptor file = some ⟨name, position⟩)
  (stored : unix.files name = some contents)
include opened stored

/-- A read gives no more bytes than it is asked for and moves the position
behind them. -/
theorem readPartial_effect (nBytes : Word) :
    ∃ count bytes after,
      unix.readPartial file nBytes = ((count, bytes), after) ∧
      bytes.length ≤ nBytes.toInt.toNat ∧
      (0 < count.toInt → count.toInt = bytes.length ∧
        after.descriptor file = some ⟨name, position + bytes.length⟩) := by
  unfold readPartial
  by_cases negative : nBytes.toInt < 0
  · refine ⟨-1#32, [], unix, ?_, Nat.zero_le _, ?_⟩
    · simp only [opened, stored, if_pos negative]
    · intro positive
      cases positive
  · have length : ((contents.drop position).take nBytes.toNat).length ≤
        nBytes.toNat := List.length_take_le ..
    have value := toInt_eq_toNat (not_lt.mp negative)
    have upper := (toInt_inRange nBytes).2
    refine ⟨BitVec.ofNat 32
        ((contents.drop position).take nBytes.toNat).length,
      (contents.drop position).take nBytes.toNat,
      unix.setDescriptor file (some ⟨name, position +
        ((contents.drop position).take nBytes.toNat).length⟩), ?_, ?_, ?_⟩
    · simp only [opened, stored, if_neg negative]
    · rw [value, Int.toNat_natCast]
      exact length
    · intro _
      exact ⟨toInt_ofNat_eq (by omega), descriptor_setDescriptor _ (lt_of_descriptor opened) _⟩

theorem writeFile_effect {buffer : List Byte} (nonnegative : 0 ≤ nBytes.toInt)
    (enough : nBytes.toNat ≤ buffer.length) :
    ∃ after, unix.writeFile file buffer nBytes = .ok after ∧
      after.files = update unix.files name (some
        (overwrite contents position (buffer.take nBytes.toNat))) ∧
      after.descriptor file = some ⟨name, position + nBytes.toNat⟩ ∧
      ∀ other, other ≠ file → after.descriptor other = unix.descriptor other := by
  unfold writeFile
  simp only [opened, stored, if_neg (not_lt.mpr nonnegative), if_neg (not_lt.mpr enough)]
  refine ⟨_, rfl, setDescriptor_files _ _ _,
    descriptor_setDescriptor _ (lt_of_descriptor opened) _, ?_⟩
  intro other different
  exact descriptor_setDescriptor_of_ne _ different _

theorem writeFile_all {buffer : List Byte} (nonnegative : 0 ≤ nBytes.toInt)
    (enough : nBytes.toNat ≤ buffer.length) :
    ∃ after, unix.writeFile file buffer nBytes = .ok after ∧ after.files name = some
        (overwrite contents position (buffer.take nBytes.toNat)) ∧
      after.descriptor file = some ⟨name, position + nBytes.toNat⟩ := by
  obtain ⟨after, written, files, moved, -⟩ :=
    writeFile_effect opened stored nonnegative enough
  exact ⟨after, written, by rw [files, update_self], moved⟩

end Access

theorem freeDescriptor_isSome {index : Fin openMax} (free : unix.descriptors index = none) :
    ∃ file, unix.freeDescriptor = some file ∧ file.toNat < openMax := by
  unfold freeDescriptor
  cases found : (List.finRange openMax).find? fun index =>
      (unix.descriptors index).isNone with
  | none =>
    have used := List.find?_eq_none.mp found index (List.mem_finRange _)
    rw [free] at used
    exact absurd rfl used
  | some index =>
    refine ⟨_, rfl, ?_⟩
    have small : index.val < 2 ^ 32 := index.isLt.trans (by decide)
    rw [BitVec.toNat_ofNat, Nat.mod_eq_of_lt small]
    exact index.isLt

end Unix

end Nachos
