import Nachos.FileSys.Session

/-!
# The file system as a map from names to byte arrays

`NamedStore` says what the file system is for: it maps the first characters
of a name to an array of bytes of fixed length.  Every run of a session is
matched, operation by operation and reply by reply, by a run of this map.
-/

open Words Memory Transition Function

namespace Nachos

/-- Files by key, and the key behind each usable handle. -/
structure NamedStore where
  files : List Byte → Option (List Byte)
  handles : List (Option (List Byte))

namespace NamedStore

def empty : NamedStore := ⟨fun _ => none, []⟩

def setFile (store : NamedStore) (key : List Byte) (contents : Option (List Byte)) : NamedStore :=
  { store with files := update store.files key contents }

@[simp]
theorem setFile_self (store : NamedStore) (key : List Byte) (contents : Option (List Byte)) :
    (store.setFile key contents).files key = contents :=
  update_self ..

/-- The handles which are left when the file under `key` is removed. -/
def forget (handles : List (Option (List Byte))) (key : List Byte) : List (Option (List Byte)) :=
  handles.map fun slot => slot.filter fun other => other ≠ key

/-- How many bytes from `position` on a request reaches. -/
def reach (contents : List Byte) (numBytes position : Int) : Nat :=
  min numBytes.toNat (contents.length - position.toNat)

/-- The abstract operations.  `create` may always refuse, and the bytes of a
new file are arbitrary. -/
inductive Step : NamedStore → Operation × Reply → NamedStore → Prop where
  | refuse {store : NamedStore} {name : CString} {initialSize : Word} :
      Step store (.create name initialSize, .flag false) store
  | create {store : NamedStore} {name : CString} {initialSize : Word}
      {contents : List Byte} (absent : store.files name.key = none)
      (length : (contents.length : Int) = initialSize.toInt) :
      Step store (.create name initialSize, .flag true) (store.setFile name.key (some contents))
  | removeAbsent {store : NamedStore} {name : CString}
      (absent : store.files name.key = none) :
      Step store (.remove name, .flag false) store
  | remove {store : NamedStore} {name : CString} {contents : List Byte}
      (present : store.files name.key = some contents) :
      Step store (.remove name, .flag true) { store.setFile name.key none with
          handles := forget store.handles name.key }
  | openAbsent {store : NamedStore} {name : CString}
      (absent : store.files name.key = none) :
      Step store (.open name, .handle none) store
  | open {store : NamedStore} {name : CString} {contents : List Byte}
      (present : store.files name.key = some contents) :
      Step store (.open name, .handle (some store.handles.length))
        { store with handles := store.handles ++ [some name.key] }
  | read {store : NamedStore} {number : Nat} {key contents : List Byte}
      {numBytes position : Word}
      (usable : store.handles[number]?.join = some key)
      (present : store.files key = some contents) :
      Step store
        (.readAt number numBytes position,
          .bytes ((contents.drop position.toInt.toNat).take numBytes.toInt.toNat))
        store
  | write {store : NamedStore} {number : Nat} {key contents : List Byte}
      {source : List Byte} {numBytes position : Word}
      (usable : store.handles[number]?.join = some key)
      (present : store.files key = some contents) :
      Step store
        (.writeAt number source numBytes position,
          .count (reach contents numBytes.toInt position.toInt))
        (store.setFile key (some (replace contents position.toInt.toNat
          (source.take (reach contents numBytes.toInt position.toInt)))))

end NamedStore

/-- Requests the file system is specified for. -/
def Operation.Permitted : Operation → Prop
  | .create _ initialSize =>
    0 ≤ initialSize.toInt ∧ initialSize.toInt ≤ maxFileSize
  | .readAt _ numBytes position =>
    0 ≤ position.toInt ∧ position.toInt + numBytes.toInt < 2147483648
  | .writeAt _ source numBytes position =>
    0 ≤ position.toInt ∧ position.toInt + numBytes.toInt < 2147483648 ∧
      numBytes.toInt ≤ source.length
  | _ => True

instance : DecidablePred Operation.Permitted
  | .create _ _ | .readAt _ _ _ => inferInstanceAs (Decidable (_ ∧ _))
  | .writeAt _ _ _ _ => inferInstanceAs (Decidable (_ ∧ _ ∧ _))
  | .remove _ | .open _ => inferInstanceAs (Decidable True)

/-- The handle an operation goes through is usable. -/
def Operation.Usable (session : Session) : Operation → Prop
  | .readAt number _ _ => (session.handle number).isSome
  | .writeAt number _ _ _ => (session.handle number).isSome
  | _ => True

/-- The bytes of the file in a directory entry. -/
def Layout.contents (layout : Layout) (disk : Disk) (index : Fin numDirEntries) : List Byte :=
  slice (disk.fileByte (layout.blocks index)) 0 (disk.header (layout.home index)).fileLength.toNat

/-- The store which a valid session stands for. -/
structure Session.Represents (session : Session) (layout : Layout)
    (store : NamedStore) : Prop where
  valid : session.Valid layout
  files : ∀ index, (session.fs.disk.directory.table index).inUse = true →
    store.files (session.fs.disk.directory.table index).key =
      some (layout.contents session.fs.disk index)
  absent : ∀ key,
    (∀ index, (session.fs.disk.directory.table index).inUse = true →
      (session.fs.disk.directory.table index).key ≠ key) →
    store.files key = none
  handles : store.handles = session.handles.map (Option.map fun handle => handle.name.key)

/-! ## Contents under changes elsewhere -/

theorem Disk.fileByte_congr {disk written : Disk} {sectors : List SectorIndex}
    (kept : ∀ sector ∈ sectors, written.sectors sector = disk.sectors sector) :
    written.fileByte sectors = disk.fileByte sectors := by
  funext offset
  unfold Disk.fileByte
  cases entry : sectors[offset / sectorSize]? with
  | none => rfl
  | some sector =>
    simp only [kept sector (List.mem_of_getElem? entry)]

namespace FileSystem

variable {fs : FileSystem} {layout : Layout} {index : Fin numDirEntries}

theorem Consistent.contents_kept {changed : Layout} {written : Disk}
    (blocks : changed.blocks index = layout.blocks index)
    (header : written.header (changed.home index) = fs.disk.header (layout.home index))
    (kept : ∀ sector ∈ layout.blocks index, written.sectors sector = fs.disk.sectors sector) :
    changed.contents written index = layout.contents fs.disk index := by
  unfold Layout.contents
  rw [blocks, header, Disk.fileByte_congr kept]

theorem Consistent.block_owned {sector : SectorIndex}
    (used : (fs.disk.directory.table index).inUse = true)
    (member : sector ∈ layout.blocks index) :
    sector ∈ layout.owned fs.disk.directory index := by
  rw [Layout.owned_used used]
  exact List.mem_cons_of_mem _ member

theorem Consistent.block_not_metadata (consistent : fs.Consistent layout) {sector : SectorIndex}
    (used : (fs.disk.directory.table index).inUse = true)
    (member : sector ∈ layout.blocks index) :
    sector ≠ freeMapData ∧ sector ≠ directoryData :=
  ne_metadata (.inr (consistent.owns.reserved index sector (Consistent.block_owned used member)))

end FileSystem

/-! ## Matching the operations -/

namespace Session

variable {session : Session} {layout : Layout} {store : NamedStore} {name : CString}

theorem Represents.absent_of_none (represents : session.Represents layout store)
    (missing : session.fs.disk.directory.findIndex name = none) :
    store.files name.key = none :=
  represents.absent name.key ((Directory.findIndex_none_iff _ name).mp missing)

variable {index : Fin numDirEntries}

section

variable (represents : session.Represents layout store)
include represents

theorem Represents.present_of_some (found : session.fs.disk.directory.findIndex name = some index) :
    store.files name.key = some (layout.contents session.fs.disk index) := by
  obtain ⟨used, key⟩ := Directory.findIndex_inv found
  rw [← key]
  exact represents.files index used

theorem Represents.create {initialSize : Word} {created : FileSystem} {home : SectorIndex}
    {blocks : List SectorIndex} (nonneg : 0 ≤ initialSize.toInt)
    (effect : FileSystem.Created session.fs created name initialSize.toInt index home blocks)
    (valid : Valid { session with fs := created } (layout.set index home blocks)) :
    ∃ next, NamedStore.Step store
        (.create name initialSize, .flag true) next ∧
      Represents { session with fs := created } (layout.set index home blocks) next := by
  let contents := (layout.set index home blocks).contents created.disk index
  have length : (contents.length : Int) = initialSize.toInt := by
    have header : (created.disk.header
        ((layout.set index home blocks).home index)).fileLength =
        initialSize.toInt := by
      simpa [Layout.set] using effect.length
    simp only [contents, Layout.contents, slice_length, header]
    omega
  refine ⟨store.setFile name.key (some contents),
    .create (represents.absent_of_none effect.absent) length, valid,
    ?_, ?_, represents.handles⟩
  · intro other
    change (created.disk.directory.table other).inUse = true →
      update store.files name.key (some contents)
        (created.disk.directory.table other).key =
        some ((layout.set index home blocks).contents created.disk other)
    rw [effect.directory]
    by_cases here : other = index
    · subst other
      simp [contents]
    · rw [Directory.set_other _ _ here]
      intro used
      have different :=
        (Directory.findIndex_none_iff _ name).mp effect.absent other used
      rw [update_of_ne different, represents.files other used]
      congr 1
      refine (FileSystem.Consistent.contents_kept ?_ ?_ ?_).symm
      · simp [Layout.set, here]
      · have kept := represents.valid.consistent.created_headers effect other used
        simpa [Layout.set, here] using kept
      · intro sector member
        obtain ⟨notMap, notDirectory⟩ :=
          represents.valid.consistent.block_not_metadata used member
        apply effect.kept sector notMap notDirectory
        rintro rfl
        exact represents.valid.consistent.owns.unowned (effect.unmarked _ (by simp)) other
          (FileSystem.Consistent.block_owned used member)
  · intro key missing
    change ∀ other, (created.disk.directory.table other).inUse = true →
      (created.disk.directory.table other).key ≠ key at missing
    rw [effect.directory] at missing
    have different : key ≠ name.key := by
      rintro rfl
      exact missing index (by simp [Directory.filledEntry]) (by simp)
    change update store.files name.key (some contents) key = none
    rw [update_of_ne different]
    apply represents.absent
    intro other used
    have here : other ≠ index := by
      rintro rfl
      rw [effect.free] at used
      cases used
    have before := missing other
    rw [Directory.set_other _ _ here] at before
    exact before used

theorem Represents.remove {removed : FileSystem}
    (effect : FileSystem.Removed session.fs removed name index)
    (valid : Valid ⟨removed, forget session.handles name⟩ layout) :
    ∃ next, NamedStore.Step store (.remove name, .flag true) next ∧
      Represents ⟨removed, forget session.handles name⟩ layout next := by
  obtain ⟨listedUsed, listedKey⟩ :=
    Directory.findIndex_inv effect.listed
  refine ⟨{ store.setFile name.key none with
    handles := NamedStore.forget store.handles name.key },
    .remove (represents.present_of_some effect.listed), valid, ?_, ?_, ?_⟩
  · intro other
    change (removed.disk.directory.table other).inUse = true → update store.files name.key none
        (removed.disk.directory.table other).key =
        some (layout.contents removed.disk other)
    rw [effect.directory]
    by_cases here : other = index
    · subst other
      simp
    · rw [Directory.set_other _ _ here]
      intro used
      have different : (session.fs.disk.directory.table other).key ≠
          name.key := by
        intro equal
        exact here (represents.valid.consistent.describes.keys other index
          used listedUsed (equal.trans listedKey.symm))
      rw [update_of_ne different, represents.files other used]
      congr 1
      refine (FileSystem.Consistent.contents_kept rfl ?_ ?_).symm
      · exact represents.valid.consistent.removed_headers effect other used
      · intro sector member
        obtain ⟨notMap, notDirectory⟩ :=
          represents.valid.consistent.block_not_metadata used member
        exact effect.kept sector notMap notDirectory
  · intro key missing
    change ∀ other, (removed.disk.directory.table other).inUse = true →
      (removed.disk.directory.table other).key ≠ key at missing
    rw [effect.directory] at missing
    change update store.files name.key none key = none
    by_cases same : key = name.key
    · rw [same, update_self]
    · rw [update_of_ne same]
      apply represents.absent
      intro other used
      by_cases here : other = index
      · rw [here, listedKey]
        exact Ne.symm same
      · have before := missing other
        rw [Directory.set_other _ _ here] at before
        exact before used
  · change NamedStore.forget store.handles name.key = (forget session.handles name).map _
    rw [represents.handles]
    unfold NamedStore.forget forget
    rw [List.map_map, List.map_map]
    apply List.map_congr_left
    intro slot _
    cases slot with
    | none => rfl
    | some handle =>
      by_cases same : handle.name.key = name.key <;> simp [same, Option.filter]

theorem Represents.open {file : OpenFile}
    (found : session.fs.disk.directory.findIndex name = some index)
    (valid : Valid { session with handles := session.handles ++ [some ⟨name, file⟩] } layout) :
    ∃ next, NamedStore.Step store
        (.open name, .handle (some session.handles.length)) next ∧
      Represents { session with
        handles := session.handles ++ [some ⟨name, file⟩] } layout next := by
  have length : store.handles.length = session.handles.length := by
    rw [represents.handles, List.length_map]
  refine ⟨{ store with handles := store.handles ++ [some name.key] },
    ?_, valid, represents.files, represents.absent, ?_⟩
  · rw [← length]
    exact .open (represents.present_of_some found)
  · simp [represents.handles]

end

variable {handle : Handle} {number : Nat}

theorem Represents.behind (represents : session.Represents layout store)
    (usable : session.handle number = some handle) :
    store.handles[number]?.join = some handle.name.key ∧
    ∃ index, (session.fs.disk.directory.table index).inUse = true ∧
      (session.fs.disk.directory.table index).key = handle.name.key ∧
      handle.file.hdr = session.fs.disk.header (layout.home index) ∧
      handle.file.hdr.Maps (layout.blocks index) ∧
      store.files handle.name.key = some (layout.contents session.fs.disk index) := by
  constructor
  · unfold Session.handle at usable
    have slot := Option.join_eq_some_iff.mp usable
    rw [represents.handles, List.getElem?_map, slot]
    rfl
  · obtain ⟨index, used, key, same⟩ :=
      represents.valid.handles handle (handle_mem usable)
    have maps := represents.valid.consistent.describes.maps index used
    refine ⟨index, used, key, same, by rw [same]; exact maps, ?_⟩
    rw [← key]
    exact represents.files index used

private theorem transferCount_eq (fileLength numBytes : Int)
    {position : Int} (nonneg : 0 ≤ position) :
    OpenFile.transferCount fileLength numBytes position =
      min numBytes.toNat (fileLength.toNat - position.toNat) := by
  unfold OpenFile.transferCount
  split <;> omega

variable (represents : session.Represents layout store)
include represents

theorem Represents.read {numBytes position : Word} (usable : session.handle number = some handle)
    (nonneg : 0 ≤ position.toInt) (fits : position.toInt + numBytes.toInt < 2147483648)
    (fresh : Nat → Nat → Byte) :
    ∃ data, session.perform fresh (.readAt number numBytes position) =
        .ok (.bytes data, session) ∧
      NamedStore.Step store (.readAt number numBytes position, .bytes data) store := by
  obtain ⟨slot, index, -, -, same, maps, present⟩ :=
    represents.behind usable
  have transferred := handle.file.readAt_covered maps.covers
    session.fs.disk numBytes.toInt position.toInt nonneg fits (fresh 0)
  refine ⟨_, ?_, .read slot present⟩
  have clipped := transferCount_eq handle.file.hdr.fileLength numBytes.toInt nonneg
  rw [slice_range _ clipped, same] at transferred
  simp only [perform, usable, inBounds_some, ok_bind, transferred]
  rfl

private theorem Represents.written_contents
    (used : (session.fs.disk.directory.table index).inUse = true) {written : Disk} {start : Nat}
    {data : List Byte}
    (inside : data ≠ [] → start + data.length ≤
      (session.fs.disk.header (layout.home index)).fileLength.toNat)
    (kept : ∀ sector, sector ∉ layout.blocks index →
      written.sectors sector = session.fs.disk.sectors sector)
    (stored : ∀ offset : Nat,
      (offset : Int) < (session.fs.disk.header (layout.home index)).fileLength →
      written.fileByte (layout.blocks index) offset =
        splice (session.fs.disk.fileByte (layout.blocks index)) start data offset) :
    layout.contents written index = replace (layout.contents session.fs.disk index) start data := by
  obtain ⟨-, -, headers⟩ := represents.valid.consistent.frame used kept
  unfold Layout.contents
  rw [headers index used, ← slice_splice _ inside]
  apply slice_congr
  intro offset _ below
  exact stored offset (by omega)

/-- New contents for one file, which are in its own sectors. -/
theorem Represents.setContents (used : (session.fs.disk.directory.table index).inUse = true)
    {written : Disk}
    (kept : ∀ sector, sector ∉ layout.blocks index →
      written.sectors sector = session.fs.disk.sectors sector) :
    Represents { session with fs := { session.fs with disk := written } } layout
      (store.setFile (session.fs.disk.directory.table index).key
        (some (layout.contents written index))) := by
  have consistent := represents.valid.consistent
  obtain ⟨-, directory, headers⟩ := consistent.frame used kept
  refine ⟨represents.valid.written used kept, ?_, ?_, represents.handles⟩
  · intro other
    change (written.directory.table other).inUse = true →
      update store.files _ _ (written.directory.table other).key =
        some (layout.contents written other)
    rw [directory]
    intro otherUsed
    by_cases here : other = index
    · rw [here, update_self]
    · have different : (session.fs.disk.directory.table other).key ≠
          (session.fs.disk.directory.table index).key := fun equal =>
        here (consistent.describes.keys other index otherUsed used equal)
      rw [update_of_ne different, represents.files other otherUsed]
      congr 1
      refine (FileSystem.Consistent.contents_kept rfl (headers other otherUsed) ?_).symm
      intro sector member
      apply kept
      intro shared
      exact consistent.owns.disjoint other index here
        (FileSystem.Consistent.block_owned otherUsed member)
        (FileSystem.Consistent.block_owned used shared)
  · intro otherKey missing
    change ∀ other, (written.directory.table other).inUse = true →
      (written.directory.table other).key ≠ otherKey at missing
    rw [directory] at missing
    change update store.files _ _ otherKey = none
    rw [update_of_ne (missing index used).symm]
    exact represents.absent otherKey missing

theorem Represents.write {source : List Byte} {numBytes position : Word}
    (usable : session.handle number = some handle) (nonneg : 0 ≤ position.toInt)
    (fits : position.toInt + numBytes.toInt < 2147483648) (enough : numBytes.toInt ≤ source.length)
    (fresh : Nat → Nat → Byte) :
    ∃ count written store',
      session.perform fresh (.writeAt number source numBytes position) =
        .ok (.count count,
          { session with fs := { session.fs with disk := written } }) ∧
      NamedStore.Step store
        (.writeAt number source numBytes position, .count count) store' ∧
      Represents { session with fs := { session.fs with disk := written } } layout store' := by
  obtain ⟨slot, index, used, key, same, maps, present⟩ :=
    represents.behind usable
  have clipped := transferCount_eq handle.file.hdr.fileLength numBytes.toInt nonneg
  obtain ⟨written, success, frame, stored⟩ := handle.file.writeAt_covered maps.covers
    session.fs.disk numBytes.toInt position.toInt nonneg fits source
    (by omega) fresh
  have kept : ∀ sector ∉ layout.blocks index,
      written.sectors sector = session.fs.disk.sectors sector := fun sector foreign =>
    frame sector fun _ _ _ same => foreign (List.mem_of_getElem? same)
  have reached : OpenFile.transferCount handle.file.hdr.fileLength
      numBytes.toInt position.toInt = NamedStore.reach
        (layout.contents session.fs.disk index) numBytes.toInt
        position.toInt := by
    rw [clipped, same]
    simp [NamedStore.reach, Layout.contents]
  rw [reached] at success stored clipped
  rw [same] at stored clipped
  have own := represents.written_contents used (by
    intro nonempty
    have some := List.length_pos_iff.mpr nonempty
    rw [List.length_take] at some ⊢
    omega) kept stored
  have changed := represents.setContents used kept
  rw [key, own] at changed
  refine ⟨_, written, _, ?_, .write slot present, changed⟩
  simp only [perform, usable, inBounds_some, ok_bind, success]
  rfl

/-- Every permitted operation through usable handles succeeds. -/
theorem Represents.progress {operation : Operation} (permitted : operation.Permitted)
    (usable : operation.Usable session) (fresh : Nat → Nat → Byte) :
    ∃ reply next, session.perform fresh operation = .ok (reply, next) := by
  cases operation with
  | create name initialSize =>
    rcases represents.valid.perform_create name permitted.2 fresh with
      failed | ⟨created, index, home, blocks, success, -, -⟩
    · exact ⟨_, _, failed⟩
    · exact ⟨_, _, success⟩
  | remove name =>
    rcases represents.valid.perform_remove name fresh with
      ⟨-, failed⟩ | ⟨removed, index, success, -, -⟩
    · exact ⟨_, _, failed⟩
    · exact ⟨_, _, success⟩
  | «open» name =>
    rcases represents.valid.perform_open name fresh with
      ⟨-, failed⟩ | ⟨index, file, -, success, -⟩
    · exact ⟨_, _, failed⟩
    · exact ⟨_, _, success⟩
  | readAt number numBytes position =>
    obtain ⟨handle, found⟩ := Option.isSome_iff_exists.mp usable
    obtain ⟨data, success, -⟩ :=
      represents.read found permitted.1 permitted.2 fresh
    exact ⟨_, _, success⟩
  | writeAt number source numBytes position =>
    obtain ⟨handle, found⟩ := Option.isSome_iff_exists.mp usable
    obtain ⟨count, written, next, success, -, -⟩ := represents.write found
      permitted.1 permitted.2.1 permitted.2.2 fresh
    exact ⟨_, _, success⟩

theorem Represents.usable_iff :
    (session.handle number).isSome ↔ (store.handles[number]?.join).isSome := by
  rw [represents.handles, List.getElem?_map, Session.handle]
  cases session.handles[number]? with
  | none => rfl
  | some slot => cases slot <;> rfl

theorem Represents.step {label : Operation × Reply} {after : Session}
    (permitted : label.1.Permitted) (taken : session.Step label after) :
    ∃ layout' store', NamedStore.Step store label store' ∧ after.Represents layout' store' := by
  obtain ⟨operation, reply⟩ := label
  obtain ⟨fresh, performed⟩ := taken
  cases operation with
  | create name initialSize =>
    rcases represents.valid.perform_create name permitted.2 fresh with
      failed | ⟨created, index, home, blocks, success, effect, valid⟩
    · rw [failed] at performed
      cases performed
      exact ⟨layout, store, .refuse, represents⟩
    · rw [success] at performed
      cases performed
      obtain ⟨next, step, kept⟩ :=
        represents.create permitted.1 effect valid
      exact ⟨_, next, step, kept⟩
  | remove name =>
    rcases represents.valid.perform_remove name fresh with
      ⟨absent, failed⟩ | ⟨removed, index, success, effect, valid⟩
    · rw [failed] at performed
      cases performed
      exact ⟨layout, store, .removeAbsent (represents.absent_of_none absent), represents⟩
    · rw [success] at performed
      cases performed
      obtain ⟨next, step, kept⟩ := represents.remove effect valid
      exact ⟨_, next, step, kept⟩
  | «open» name =>
    rcases represents.valid.perform_open name fresh with
      ⟨absent, failed⟩ | ⟨index, file, found, success, valid⟩
    · rw [failed] at performed
      cases performed
      exact ⟨layout, store, .openAbsent (represents.absent_of_none absent), represents⟩
    · rw [success] at performed
      cases performed
      obtain ⟨next, step, kept⟩ := represents.open found valid
      exact ⟨_, next, step, kept⟩
  | readAt number numBytes position =>
    obtain ⟨handle, usable, -⟩ := bind_ok_inv performed
    obtain ⟨data, success, step⟩ := represents.read
      (inBounds_inv usable) permitted.1 permitted.2 fresh
    rw [success] at performed
    cases performed
    exact ⟨layout, store, step, represents⟩
  | writeAt number source numBytes position =>
    obtain ⟨handle, usable, -⟩ := bind_ok_inv performed
    obtain ⟨count, written, next, success, step, kept⟩ :=
      represents.write (inBounds_inv usable) permitted.1 permitted.2.1 permitted.2.2 fresh
    rw [success] at performed
    cases performed
    exact ⟨layout, next, step, kept⟩

theorem Represents.advance (operation : Operation) (permitted : operation.Permitted)
    (usable : operation.Usable session) :
    ∃ reply after layout' store', session.Step (operation, reply) after ∧
      NamedStore.Step store (operation, reply) store' ∧ after.Represents layout' store' := by
  obtain ⟨reply, after, performed⟩ := represents.progress permitted usable fun _ _ => 0#8
  obtain ⟨layout', store', step, kept⟩ :=
    represents.step (show (operation, reply).1.Permitted from permitted) ⟨_, performed⟩
  exact ⟨reply, after, layout', store', ⟨_, performed⟩, step, kept⟩

omit represents in
theorem represents_of_format (disk : Disk) (fresh : Nat → Nat → Byte) :
    ∃ fs layout, FileSystem.format disk fresh = .ok fs ∧ Represents ⟨fs, []⟩ layout .empty := by
  obtain ⟨fs, layout, formatted, valid, unused⟩ := valid_of_format disk fresh
  refine ⟨fs, layout, formatted, valid, ?_, fun _ _ => rfl, rfl⟩
  intro index used
  rw [unused index] at used
  cases used

end Session

/-- Every run of a session from a formatted disk, whose requests are ones the
file system is specified for, is a run of the map from names to byte arrays
with the same replies; and every further such request gets a reply. -/
theorem session_simulates_named_store (disk : Disk) (fresh : Nat → Nat → Byte) :
    ∃ fs, FileSystem.format disk fresh = .ok fs ∧
      ∀ labels session, (∀ label ∈ labels, label.1.Permitted) →
        Run Session.Step ⟨fs, []⟩ labels session →
        ∃ store, Run NamedStore.Step .empty labels store ∧
          store.handles =
            session.handles.map (Option.map fun handle => handle.name.key) ∧
          ∀ operation, operation.Permitted → operation.Usable session →
            ∀ fresh, ∃ reply next, session.perform fresh operation = .ok (reply, next) := by
  obtain ⟨fs, layout, formatted, initial⟩ := Session.represents_of_format disk fresh
  refine ⟨fs, formatted, ?_⟩
  intro labels session permitted run
  obtain ⟨store, abstractRun, final, represents⟩ := run.simulate
    (fun session store => ∃ layout, session.Represents layout store) id
    (by
      rintro low label low' high ⟨current, represents⟩ allowed taken
      obtain ⟨layout', high', step, kept⟩ :=
        represents.step allowed taken
      exact ⟨high', step, layout', kept⟩)
    permitted ⟨layout, initial⟩
  rw [List.map_id] at abstractRun
  refine ⟨store, abstractRun, represents.handles, ?_⟩
  intro operation allowed usable fresh
  exact represents.progress allowed usable fresh

/-- A file is created, opened, written, read and removed. -/
def wholeLife : List (Operation × Reply) :=
  [(.create [97#8] 600#32, .flag true),
    (.open [97#8], .handle (some 0)),
    (.writeAt 0 [5#8, 6#8, 7#8] 3#32 1#32, .count 3),
    (.readAt 0 3#32 1#32, .bytes [5#8, 6#8, 7#8]),
    (.remove [97#8], .flag true)]

theorem wholeLife_runs :
    ∃ fs session, FileSystem.format ⟨fun _ _ => 0#8⟩ (fun _ _ => 0#8) = .ok fs ∧
      Run Session.Step ⟨fs, []⟩ wholeLife session := by
  obtain ⟨fs, layout, formatted, blank⟩ :=
    Session.represents_of_format ⟨fun _ _ => 0#8⟩ (fun _ _ => 0#8)
  obtain ⟨_, _, formatted', consistent, creatable⟩ :=
    FileSystem.format_creatable ⟨fun _ _ => 0#8⟩ (fun _ _ => 0#8)
  cases Except.ok.inj (formatted.symm.trans formatted')
  obtain ⟨reply, created, _, _, ⟨fresh, creating⟩, abstractStep, withFile⟩ :=
    blank.advance (.create [97#8] 600#32) (by decide) trivial
  cases abstractStep with
  | refuse =>
    obtain ⟨_, _, _, _, success, -, -⟩ :=
      consistent.create_of_creatable creatable (by decide) (by decide) fresh
    obtain ⟨_, failed, same⟩ := bind_ok_inv creating
    rw [show (600#32 : Word).toInt = 600 from by decide, success] at failed
    cases failed
    cases same
  | @create _ _ contents _ length =>
    obtain ⟨_, opened, _, _, opening, abstractStep, withHandle⟩ :=
      withFile.advance (.open [97#8]) trivial trivial
    cases abstractStep with
    | openAbsent absent => simp at absent
    | «open» present =>
      obtain ⟨_, written, _, _, writing, abstractStep, withBytes⟩ :=
        withHandle.advance (.writeAt 0 [5#8, 6#8, 7#8] 3#32 1#32) (by decide)
          (withHandle.usable_iff.mpr rfl)
      cases abstractStep with
      | write usable named =>
        cases usable
        obtain ⟨_, _, _, _, reading, abstractStep, afterRead⟩ :=
          withBytes.advance (.readAt 0 3#32 1#32) (by decide) (withBytes.usable_iff.mpr rfl)
        cases abstractStep with
        | read usable kept =>
          cases usable
          obtain ⟨_, _, _, _, removing, abstractStep, -⟩ :=
            afterRead.advance (.remove [97#8]) trivial trivial
          cases abstractStep with
          | removeAbsent absent => simp at absent
          | remove present =>
            rw [NamedStore.setFile_self, Option.some_inj] at named kept
            subst named kept
            have long : contents.length = 600 := Int.ofNat.inj length
            have whole : NamedStore.reach contents (3#32 : Word).toInt (1#32 : Word).toInt = 3 := by
              rw [NamedStore.reach, long]
              rfl
            have back : ((replace contents 1 [5#8, 6#8, 7#8]).drop 1).take 3 = [5#8, 6#8, 7#8] := by
              simp [replace, long]
            rw [whole] at writing reading
            exact ⟨fs, _, formatted, .snoc (.snoc (.snoc (.snoc (.single ⟨fresh, creating⟩) opening)
              writing) (back ▸ reading)) removing⟩

theorem session_simulates_named_store_whole_life :
    ∃ fs session store,
      FileSystem.format ⟨fun _ _ => 0#8⟩ (fun _ _ => 0#8) = .ok fs ∧
      Run Session.Step ⟨fs, []⟩ wholeLife session ∧
      Run NamedStore.Step .empty wholeLife store := by
  obtain ⟨fs, formatted, simulated⟩ :=
    session_simulates_named_store ⟨fun _ _ => 0#8⟩ (fun _ _ => 0#8)
  obtain ⟨_, session, formatted', run⟩ := wholeLife_runs
  cases Except.ok.inj (formatted.symm.trans formatted')
  obtain ⟨store, abstractRun, -, -⟩ := simulated _ session (by decide) run
  exact ⟨fs, session, store, formatted, run, abstractRun⟩

end Nachos
