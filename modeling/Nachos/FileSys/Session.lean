import Nachos.FileSys.Operations
import Nachos.Lib.Transition

/-!
# Sessions

A session is the file system together with the files its clients hold open.
A handle stays usable until its file is removed.  Operations may allocate
memory with any contents, so a step is nondeterministic in `fresh`; an
operation which faults has no step.
-/

open Words Memory Transition

namespace Nachos

structure Handle where
  name : CString
  file : OpenFile

structure Session where
  fs : FileSystem
  handles : List (Option Handle)

inductive Operation where
  | create (name : CString) (initialSize : Word)
  | remove (name : CString)
  | open (name : CString)
  | readAt (number : Nat) (numBytes position : Word)
  | writeAt (number : Nat) (source : List Byte) (numBytes position : Word)

inductive Reply where
  | flag (success : Bool)
  | handle (number : Option Nat)
  | bytes (data : List Byte)
  | count (written : Int)

namespace Session

/-- The handles which are still usable after a file has been removed. -/
def forget (handles : List (Option Handle)) (name : CString) : List (Option Handle) :=
  handles.map fun slot =>
    slot.filter fun handle => handle.name.key ≠ name.key

def handle (session : Session) (number : Nat) : Option Handle :=
  session.handles[number]?.join

/-- One operation of a client; `fresh` is what allocated memory holds. -/
def perform (session : Session) (fresh : Nat → Nat → Byte) : Operation → Result (Reply × Session)
  | .create name initialSize => do
    let (success, fs) ←
      session.fs.create name initialSize.toInt fresh
    return (.flag success, { session with fs := fs })
  | .remove name => do
    let (success, fs) ← session.fs.remove name fresh
    let handles :=
      if success then forget session.handles name else session.handles
    return (.flag success, ⟨fs, handles⟩)
  | .open name => do
    let result ← session.fs.open name fresh
    match result with
    | some file =>
      return (.handle (some session.handles.length), { session with
          handles := session.handles ++ [some ⟨name, file⟩] })
    | none => return (.handle none, session)
  | .readAt number numBytes position => do
    let handle ← inBounds (session.handle number)
    let data ← handle.file.readAt session.fs.disk numBytes.toInt position.toInt (fresh 0)
    return (.bytes data, session)
  | .writeAt number source numBytes position => do
    let handle ← inBounds (session.handle number)
    let (written, disk) ← handle.file.writeAt session.fs.disk source
      numBytes.toInt position.toInt fresh
    return (.count written, { session with fs := { session.fs with disk := disk } })

def Step (session : Session) (label : Operation × Reply) (next : Session) : Prop :=
  ∃ fresh, session.perform fresh label.1 = .ok (label.2, next)

end Session

/-- `Create` is only called for sizes which fit a header. -/
def Operation.Sized : Operation → Prop
  | .create _ initialSize => initialSize.toInt ≤ maxFileSize
  | _ => True

instance : DecidablePred Operation.Sized
  | .create _ _ => inferInstanceAs (Decidable (_ ≤ _))
  | .remove _ | .open _ | .readAt _ _ _ | .writeAt _ _ _ _ => inferInstanceAs (Decidable True)

namespace Session

/-- A consistent disk whose open files are those of their directory
entries. -/
structure Valid (session : Session) (layout : Layout) : Prop where
  consistent : session.fs.Consistent layout
  handles : ∀ handle, some handle ∈ session.handles →
    ∃ index, (session.fs.disk.directory.table index).inUse = true ∧
      (session.fs.disk.directory.table index).key = handle.name.key ∧
      handle.file.hdr = session.fs.disk.header (layout.home index)

variable {session : Session} {layout : Layout}

section

variable (valid : session.Valid layout) (name : CString)
include valid name

theorem Valid.perform_create {initialSize : Word} (small : initialSize.toInt ≤ maxFileSize)
    (fresh : Nat → Nat → Byte) :
    session.perform fresh (.create name initialSize) =
        .ok (.flag false, session) ∨
      ∃ created index home blocks,
        session.perform fresh (.create name initialSize) =
          .ok (.flag true, { session with fs := created }) ∧
        FileSystem.Created session.fs created name initialSize.toInt index
          home blocks ∧
        Valid { session with fs := created } (layout.set index home blocks) := by
  rcases valid.consistent.create name (toInt_inRange initialSize) small
    fresh with failed | ⟨created, index, home, blocks, success, effect, kept⟩
  · refine .inl ?_
    simp only [perform, failed, ok_bind]
    rfl
  · refine .inr ⟨created, index, home, blocks, ?_, effect, kept, ?_⟩
    · simp only [perform, success, ok_bind]
      rfl
    · intro handle live
      obtain ⟨other, used, key, same⟩ := valid.handles handle live
      have different : other ≠ index := by
        rintro rfl
        rw [effect.free] at used
        cases used
      have header := valid.consistent.created_headers effect other used
      refine ⟨other, ?_, ?_, ?_⟩
      · rw [effect.directory, Directory.set_other _ _ different]
        exact used
      · rw [effect.directory, Directory.set_other _ _ different]
        exact key
      · rw [same, ← header]
        simp [Layout.set, different]

theorem Valid.perform_remove (fresh : Nat → Nat → Byte) :
    (session.fs.disk.directory.findIndex name = none ∧
      session.perform fresh (.remove name) =
        .ok (.flag false, session)) ∨
    ∃ removed index,
      session.perform fresh (.remove name) =
        .ok (.flag true, ⟨removed, forget session.handles name⟩) ∧
      FileSystem.Removed session.fs removed name index ∧
      Valid ⟨removed, forget session.handles name⟩ layout := by
  rcases valid.consistent.remove name fresh with
    ⟨absent, failed⟩ | ⟨removed, index, success, effect, kept⟩
  · refine .inl ⟨absent, ?_⟩
    simp only [perform, failed, ok_bind]
    rfl
  · refine .inr ⟨removed, index, ?_, effect, kept, ?_⟩
    · simp only [perform, success, ok_bind]
      rfl
    · intro handle live
      obtain ⟨slot, member, filtered⟩ := List.mem_map.mp live
      obtain ⟨rfl, other⟩ := Option.filter_eq_some_iff.mp filtered
      obtain ⟨index', used, key, same⟩ := valid.handles handle member
      have named := (Directory.findIndex_inv effect.listed).2
      have different : index' ≠ index := by
        rintro rfl
        simp only [ne_eq, decide_not, Bool.not_eq_true', decide_eq_false_iff_not] at other
        exact other (key.symm.trans named)
      refine ⟨index', ?_, ?_, ?_⟩
      · rw [effect.directory, Directory.set_other _ _ different]
        exact used
      · rw [effect.directory, Directory.set_other _ _ different]
        exact key
      · rw [same]
        exact (valid.consistent.removed_headers effect index' used).symm

theorem Valid.perform_open (fresh : Nat → Nat → Byte) :
    (session.fs.disk.directory.findIndex name = none ∧
      session.perform fresh (.open name) =
        .ok (.handle none, session)) ∨
    ∃ index file,
      session.fs.disk.directory.findIndex name = some index ∧
      session.perform fresh (.open name) =
        .ok (.handle (some session.handles.length), { session with
            handles := session.handles ++ [some ⟨name, file⟩] }) ∧
      Valid { session with
        handles := session.handles ++ [some ⟨name, file⟩] } layout := by
  rcases valid.consistent.open name fresh with
    ⟨absent, failed⟩ | ⟨index, found, used, key, success⟩
  · refine .inl ⟨absent, ?_⟩
    simp only [perform, failed, ok_bind]
    rfl
  · refine .inr ⟨index, ⟨session.fs.disk.header (layout.home index), 0⟩,
      found, ?_, valid.consistent, ?_⟩
    · simp only [perform, success, ok_bind]
      rfl
    · intro handle live
      rcases List.mem_append.mp live with old | new
      · exact valid.handles handle old
      · obtain rfl : handle = _ := by simpa using new
        exact ⟨index, used, key, rfl⟩

end

theorem handle_mem {number : Nat} {handle : Handle} (found : session.handle number = some handle) :
    some handle ∈ session.handles := by
  unfold Session.handle at found
  exact List.mem_of_getElem? (Option.join_eq_some_iff.mp found)

theorem Valid.written (valid : session.Valid layout) {index : Fin numDirEntries}
    (used : (session.fs.disk.directory.table index).inUse = true)
    {written : Disk}
    (kept : ∀ sector, sector ∉ layout.blocks index →
      written.sectors sector = session.fs.disk.sectors sector) :
    Valid { session with fs := { session.fs with disk := written } }
      layout := by
  obtain ⟨consistent, directory, headers⟩ :=
    valid.consistent.frame used kept
  refine ⟨consistent, ?_⟩
  intro handle live
  obtain ⟨other, otherUsed, key, same⟩ := valid.handles handle live
  change ∃ index, (written.directory.table index).inUse = true ∧
    (written.directory.table index).key = handle.name.key ∧
    handle.file.hdr = written.header (layout.home index)
  rw [directory]
  exact ⟨other, otherUsed, key, same.trans (headers other otherUsed).symm⟩

theorem Valid.perform_writeAt (valid : session.Valid layout)
    {number : Nat} {source : List Byte} {numBytes position : Word}
    {fresh : Nat → Nat → Byte} {reply : Reply} {next : Session}
    (success : session.perform fresh
      (.writeAt number source numBytes position) = .ok (reply, next)) :
    next.Valid layout := by
  obtain ⟨handle, found, success⟩ := bind_ok_inv success
  obtain ⟨⟨count, written⟩, transferred, success⟩ := bind_ok_inv success
  cases success
  obtain ⟨index, used, -, same⟩ :=
    valid.handles handle (handle_mem (inBounds_inv found))
  have maps := valid.consistent.describes.maps index used
  rw [← same] at maps
  refine valid.written used ?_
  rcases handle.file.writeAt_inv maps.length_le (toInt_inRange _)
    (toInt_inRange _) transferred with rfl | ⟨nonneg, fits, enough⟩
  · exact fun _ _ => rfl
  · obtain ⟨exactly, success, frame, -⟩ := handle.file.writeAt_covered maps.covers
      session.fs.disk numBytes.toInt position.toInt nonneg fits source enough
      fresh
    rw [transferred] at success
    cases success
    exact fun sector foreign =>
      frame sector fun _ _ _ same => foreign (List.mem_of_getElem? same)

theorem Valid.step (valid : session.Valid layout) {label : Operation × Reply} {next : Session}
    (sized : label.1.Sized) (taken : session.Step label next) :
    ∃ layout, next.Valid layout := by
  obtain ⟨operation, reply⟩ := label
  obtain ⟨fresh, performed⟩ := taken
  cases operation with
  | create name initialSize =>
    rcases valid.perform_create name sized fresh with
      failed | ⟨created, index, home, blocks, success, -, kept⟩
    · rw [failed] at performed
      cases performed
      exact ⟨layout, valid⟩
    · rw [success] at performed
      cases performed
      exact ⟨_, kept⟩
  | remove name =>
    rcases valid.perform_remove name fresh with
      ⟨-, failed⟩ | ⟨removed, index, success, -, kept⟩
    · rw [failed] at performed
      cases performed
      exact ⟨layout, valid⟩
    · rw [success] at performed
      cases performed
      exact ⟨layout, kept⟩
  | «open» name =>
    rcases valid.perform_open name fresh with
      ⟨-, failed⟩ | ⟨index, file, -, success, kept⟩
    · rw [failed] at performed
      cases performed
      exact ⟨layout, valid⟩
    · rw [success] at performed
      cases performed
      exact ⟨layout, kept⟩
  | readAt number numBytes position =>
    obtain ⟨handle, -, performed⟩ := bind_ok_inv performed
    obtain ⟨data, -, performed⟩ := bind_ok_inv performed
    cases performed
    exact ⟨layout, valid⟩
  | writeAt number source numBytes position =>
    exact ⟨layout, valid.perform_writeAt performed⟩

theorem valid_of_format (disk : Disk) (fresh : Nat → Nat → Byte) :
    ∃ fs layout, FileSystem.format disk fresh = .ok fs ∧
      Valid ⟨fs, []⟩ layout ∧
      ∀ index, (fs.disk.directory.table index).inUse = false := by
  obtain ⟨fs, layout, success, consistent, empty⟩ :=
    FileSystem.format_spec disk fresh
  refine ⟨fs, layout, success, ⟨consistent, ?_⟩, empty⟩
  intro handle live
  cases live

theorem Valid.run (valid : session.Valid layout)
    {labels : List (Operation × Reply)} {final : Session}
    (sized : ∀ label ∈ labels, label.1.Sized)
    (run : Run Step session labels final) :
    ∃ layout, final.Valid layout := by
  refine run.invariant (fun state => ∃ layout, state.Valid layout) sized ⟨layout, valid⟩ ?_
  rintro before label after ⟨current, held⟩ labelSized taken
  exact held.step labelSized taken

end Session

end Nachos
