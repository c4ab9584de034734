import Nachos.FileSys.Directory

/-!
# Directories as finite maps

A directory stands for a finite map from keys, the first `fileNameMaxLen`
characters of a name, to header sectors.  Whatever the fresh table held,
every sequence of `Add` and `Remove` is answered as the map answers it.  What
`List` prints does depend on the fresh table: `Add` leaves the last byte of a
name field as it finds it.
-/

open Words Memory Function

namespace Nachos

inductive DirectoryCall where
  | add (name : CString) (newSector : Word)
  | remove (name : CString)

def DirectoryCall.name : DirectoryCall → CString
  | .add name _ => name
  | .remove name => name

/-! ## The map -/

abbrev FileMap := Finmap fun _ : List Byte => Word

namespace FileMap

/-- What a map of at most `tableSize` keys does at a call. -/
def perform (tableSize : Nat) (files : FileMap) : DirectoryCall → Bool × FileMap
  | .add name newSector =>
    if name.key ∉ files ∧ files.keys.card < tableSize then
      (true, files.insert name.key newSector)
    else (false, files)
  | .remove name =>
    if name.key ∈ files then (true, files.erase name.key)
    else (false, files)

def performAll (tableSize : Nat) : FileMap → List DirectoryCall → List Bool × FileMap
  | files, [] => ([], files)
  | files, call :: calls =>
    let (reply, after) := files.perform tableSize call
    let (replies, finish) := performAll tableSize after calls
    (reply :: replies, finish)

/-- The sector of a key, or `-1`. -/
def find (files : FileMap) (key : List Byte) : Int :=
  match files.lookup key with
  | some sector => sector.toInt
  | none => -1

theorem find_perform_of_ne (tableSize : Nat) (files : FileMap)
    (call : DirectoryCall) {key : List Byte}
    (other : key ≠ call.name.key) :
    (files.perform tableSize call).2.find key = files.find key := by
  have same : (files.perform tableSize call).2.lookup key =
      files.lookup key := by
    cases call with
    | add name newSector =>
      simp only [perform]
      split
      · exact Finmap.lookup_insert_of_ne files other
      · rfl
    | remove name =>
      simp only [perform]
      split
      · exact Finmap.lookup_erase_ne other
      · rfl
  unfold find
  rw [same]

end FileMap

namespace Directory

variable {tableSize : Nat}

def perform (directory : Directory tableSize) : DirectoryCall → Bool × Directory tableSize
  | .add name newSector => directory.add name newSector.toInt
  | .remove name => directory.remove name

/-- A sequence of calls, with the replies. -/
def performAll : Directory tableSize → List DirectoryCall → List Bool × Directory tableSize
  | directory, [] => ([], directory)
  | directory, call :: calls =>
    let (reply, after) := directory.perform call
    let (replies, finish) := performAll after calls
    (reply :: replies, finish)

/-! ## The table as a map -/

/-- The entries in use are the associations of the map, each once. -/
structure Represents (directory : Directory tableSize) (files : FileMap) :
    Prop where
  stored : ∀ index, (directory.table index).inUse = true →
    files.lookup (directory.table index).key = some (directory.table index).sector
  present : ∀ key ∈ files, ∃ index,
    (directory.table index).inUse = true ∧ (directory.table index).key = key
  distinct : ∀ first second, (directory.table first).inUse = true →
    (directory.table second).inUse = true →
    (directory.table first).key = (directory.table second).key →
    first = second

variable {directory : Directory tableSize} {files : FileMap}

theorem represents_new (fresh : Fin tableSize → DirectoryEntry) : (new fresh).Represents ∅ where
  stored index used := by
    simp [new] at used
  present key member := by
    exact absurd member Finmap.notMem_empty
  distinct first second used := by
    simp [new] at used

/-- The slots which hold a file. -/
def usedSlots (directory : Directory tableSize) : Finset (Fin tableSize) :=
  Finset.univ.filter fun index => (directory.table index).inUse = true

theorem mem_usedSlots (directory : Directory tableSize) (index : Fin tableSize) :
    index ∈ directory.usedSlots ↔ (directory.table index).inUse = true := by
  simp [usedSlots]

theorem freeIndex_eq_none_iff (directory : Directory tableSize) :
    directory.freeIndex = none ↔ directory.usedSlots = Finset.univ := by
  unfold freeIndex
  rw [List.find?_eq_none, Finset.eq_univ_iff_forall]
  simp [mem_usedSlots]

namespace Represents

variable (represents : directory.Represents files)
include represents

theorem mem_of_used {index : Fin tableSize} (used : (directory.table index).inUse = true) :
    (directory.table index).key ∈ files :=
  Finmap.mem_of_lookup_eq_some (represents.stored index used)

theorem keys_eq :
    files.keys = directory.usedSlots.image fun index =>
      (directory.table index).key := by
  ext key
  rw [Finmap.mem_keys, Finset.mem_image]
  constructor
  · intro member
    obtain ⟨index, used, same⟩ := represents.present key member
    exact ⟨index, (directory.mem_usedSlots index).mpr used, same⟩
  · rintro ⟨index, slot, rfl⟩
    exact represents.mem_of_used ((directory.mem_usedSlots index).mp slot)

theorem card_keys : files.keys.card = directory.usedSlots.card := by
  rw [represents.keys_eq, Finset.card_image_of_injOn]
  intro first firstSlot second secondSlot same
  exact represents.distinct first second ((directory.mem_usedSlots first).mp firstSlot)
    ((directory.mem_usedSlots second).mp secondSlot) same

theorem room_iff : files.keys.card < tableSize ↔ directory.freeIndex ≠ none := by
  have bound : directory.usedSlots.card ≤ tableSize := by
    simpa using directory.usedSlots.card_le_univ
  rw [represents.card_keys, Ne, freeIndex_eq_none_iff,
    ← Finset.card_eq_iff_eq_univ, Fintype.card_fin]
  omega

theorem findIndex_eq_none_iff (name : CString) :
    directory.findIndex name = none ↔ name.key ∉ files := by
  rw [findIndex_none_iff]
  constructor
  · intro absent member
    obtain ⟨index, used, same⟩ := represents.present name.key member
    exact absent index used same
  · intro absent index used same
    apply absent
    rw [← same]
    exact represents.mem_of_used used

theorem find (name : CString) : directory.find name = files.find name.key := by
  unfold Directory.find FileMap.find
  cases found : directory.findIndex name with
  | none =>
    have absent := (represents.findIndex_eq_none_iff name).mp found
    rw [Finmap.lookup_eq_none.mpr absent]
  | some index =>
    obtain ⟨used, same⟩ := findIndex_inv found
    rw [← same, represents.stored index used]

theorem fill {name : CString} (sector : Word) {slot : Fin tableSize}
    (free : (directory.table slot).inUse = false) (absent : name.key ∉ files) :
    (Directory.mk (update directory.table slot
      (filledEntry (directory.table slot) name sector.toInt))).Represents
      (files.insert name.key sector) where
  stored index used := by
    by_cases here : index = slot
    · subst here
      dsimp only
      rw [update_self, filledEntry_key, Finmap.lookup_insert]
      simp [filledEntry]
    · dsimp only at used ⊢
      rw [update_of_ne here] at used ⊢
      have member := represents.mem_of_used used
      have other : (directory.table index).key ≠ name.key := by
        intro same
        exact absent (same ▸ member)
      rw [Finmap.lookup_insert_of_ne _ other]
      exact represents.stored index used
  present key member := by
    rcases Finmap.mem_insert.mp member with rfl | earlier
    · refine ⟨slot, ?_, ?_⟩
      · simp [filledEntry]
      · simp
    · obtain ⟨index, used, same⟩ := represents.present key earlier
      have other : index ≠ slot := by
        rintro rfl
        simp [free] at used
      refine ⟨index, ?_, ?_⟩
      · simpa only [update_of_ne other] using used
      · simpa only [update_of_ne other] using same
  distinct first second firstUsed secondUsed same := by
    have fresh : ∀ index, index ≠ slot →
        (directory.table index).inUse = true →
        (directory.table index).key ≠ name.key := by
      intro index _ used equal
      exact absent (equal ▸ represents.mem_of_used used)
    by_cases firstHere : first = slot
    · by_cases secondHere : second = slot
      · rw [firstHere, secondHere]
      · subst firstHere
        simp only [update_self, filledEntry_key, update_of_ne secondHere] at secondUsed same
        exact absurd same.symm (fresh second secondHere secondUsed)
    · by_cases secondHere : second = slot
      · subst secondHere
        simp only [update_self, filledEntry_key, update_of_ne firstHere] at firstUsed same
        exact absurd same (fresh first firstHere firstUsed)
      · simp only [update_of_ne firstHere, update_of_ne secondHere] at firstUsed secondUsed same
        exact represents.distinct first second firstUsed secondUsed same

theorem release {slot : Fin tableSize} (used : (directory.table slot).inUse = true) :
    (Directory.mk (update directory.table slot
      { directory.table slot with inUse := false })).Represents
      (files.erase (directory.table slot).key) := by
  have others : ∀ index, (update directory.table slot
      { directory.table slot with inUse := false } index).inUse = true →
      index ≠ slot := by
    rintro index stillUsed rfl
    simp at stillUsed
  refine ⟨?_, ?_, ?_⟩
  · intro index stillUsed
    have other := others index stillUsed
    dsimp only at stillUsed ⊢
    rw [update_of_ne other] at stillUsed ⊢
    rw [Finmap.lookup_erase_ne]
    · exact represents.stored index stillUsed
    · intro same
      exact other (represents.distinct index slot stillUsed used same)
  · intro key member
    obtain ⟨different, earlier⟩ := Finmap.mem_erase.mp member
    obtain ⟨index, stillUsed, same⟩ := represents.present key earlier
    have other : index ≠ slot := by
      rintro rfl
      exact different same.symm
    refine ⟨index, ?_, ?_⟩
    · simpa only [update_of_ne other] using stillUsed
    · simpa only [update_of_ne other] using same
  · intro first second firstUsed secondUsed same
    have firstOther := others first firstUsed
    have secondOther := others second secondUsed
    simp only [update_of_ne firstOther, update_of_ne secondOther] at firstUsed secondUsed same
    exact represents.distinct first second firstUsed secondUsed same

theorem perform (call : DirectoryCall) :
    (directory.perform call).1 = (files.perform tableSize call).1 ∧
      (directory.perform call).2.Represents (files.perform tableSize call).2 := by
  cases call with
  | add name newSector =>
    simp only [Directory.perform, FileMap.perform, add]
    cases found : directory.findIndex name with
    | some index =>
      have present : ¬(name.key ∉ files) := by
        rw [← represents.findIndex_eq_none_iff, found]
        simp
      simp [present, represents]
    | none =>
      have absent := (represents.findIndex_eq_none_iff name).mp found
      cases free : directory.freeIndex with
      | none =>
        have full : ¬files.keys.card < tableSize := by
          rw [represents.room_iff, free]
          simp
        simp [full, represents]
      | some slot =>
        have room : files.keys.card < tableSize := by
          rw [represents.room_iff, free]
          simp
        simp only [absent, room, not_false_eq_true, and_self, if_true, true_and]
        exact represents.fill newSector (freeIndex_inv free) absent
  | remove name =>
    simp only [Directory.perform, FileMap.perform, remove]
    cases found : directory.findIndex name with
    | none =>
      have absent := (represents.findIndex_eq_none_iff name).mp found
      simp [absent, represents]
    | some index =>
      obtain ⟨used, same⟩ := findIndex_inv found
      have present : name.key ∈ files := by
        rw [← same]
        exact represents.mem_of_used used
      simp only [present, if_true, true_and]
      rw [← same]
      exact represents.release used

theorem performAll (calls : List DirectoryCall) :
    (directory.performAll calls).1 =
        (files.performAll tableSize calls).1 ∧
      (directory.performAll calls).2.Represents (files.performAll tableSize calls).2 := by
  induction calls generalizing directory files with
  | nil => exact ⟨rfl, represents⟩
  | cons call calls induction =>
    obtain ⟨sameReply, after⟩ := represents.perform call
    obtain ⟨sameReplies, finish⟩ := induction after
    simp only [Directory.performAll, FileMap.performAll]
    rw [sameReply, sameReplies]
    exact ⟨rfl, finish⟩

end Represents

/-- A new directory answers every sequence of calls as the empty map does;
in the state which is reached the keys of the files are distinct, `Find`
gives the sector of a key or `-1`, and a further call leaves the answers for
the other keys alone. -/
theorem refines_file_map (tableSize : Nat)
    (fresh : Fin tableSize → DirectoryEntry) (calls : List DirectoryCall) :
    let (replies, directory) := (new fresh).performAll calls
    let (expected, files) := FileMap.performAll tableSize ∅ calls
    replies = expected ∧
      (∀ first second, (directory.table first).inUse = true →
        (directory.table second).inUse = true →
        (directory.table first).key = (directory.table second).key →
        first = second) ∧
      (∀ name : CString, directory.find name = files.find name.key) ∧
      ∀ (call : DirectoryCall) (name : CString),
        name.key ≠ call.name.key →
        (directory.perform call).2.find name = directory.find name := by
  obtain ⟨same, represents⟩ := (represents_new fresh).performAll calls
  refine ⟨same, represents.distinct, represents.find, ?_⟩
  intro call name other
  have after := (represents.perform call).2
  rw [after.find, FileMap.find_perform_of_ne _ _ _ other, represents.find]

end Directory

/-! ## What `List` prints -/

namespace DirectoryEntry

/-- What `printf("%s")` prints of the name: it goes on behind the field, to
the text `behind` it, when it finds no NUL inside. -/
def printed (entry : DirectoryEntry) (behind : List Byte) : List Byte :=
  (slice entry.nameAt 0 (fileNameMaxLen + 1) ++ behind).takeWhile fun byte => byte ≠ 0#8

/-- The byte of the name field which `strncpy` does not reach. -/
def lastByte (entry : DirectoryEntry) : Byte :=
  entry.name (Fin.last fileNameMaxLen)

/-- The field has a NUL. -/
def Terminated (entry : DirectoryEntry) : Prop :=
  ∃ index, entry.name index = 0#8

theorem nameAt_val (entry : DirectoryEntry) (index : Fin (fileNameMaxLen + 1)) :
    entry.nameAt index.val = entry.name index := by
  unfold nameAt
  rw [dif_pos index.isLt]

theorem terminated_iff (entry : DirectoryEntry) :
    entry.Terminated ↔ (entry.key.length = fileNameMaxLen → entry.lastByte = 0#8) := by
  unfold key
  rw [keyFrom_length_eq_iff]
  constructor
  · rintro ⟨index, isNul⟩ full
    cases index using Fin.lastCases with
    | last => exact isNul
    | cast earlier =>
      have nonzero := full earlier.val earlier.isLt
      rw [Nat.zero_add] at nonzero
      rw [← entry.nameAt_val] at isNul
      exact absurd isNul nonzero
  · intro ends
    by_cases full : ∀ position, position < fileNameMaxLen → entry.nameAt (0 + position) ≠ 0#8
    · exact ⟨Fin.last fileNameMaxLen, ends full⟩
    · push Not at full
      obtain ⟨position, inside, isNul⟩ := full
      rw [Nat.zero_add] at isNul
      have bound : position < fileNameMaxLen + 1 := by omega
      refine ⟨⟨position, bound⟩, ?_⟩
      rw [← entry.nameAt_val]
      exact isNul

theorem Terminated.printed_eq {entry : DirectoryEntry}
    (terminated : entry.Terminated) (behind : List Byte) :
    entry.printed behind = entry.key := by
  obtain ⟨index, isNul⟩ := terminated
  apply takeWhile_slice
  refine ⟨index.val, Nat.le_of_lt_succ index.isLt, ?_⟩
  rw [Nat.zero_add, nameAt_val, isNul]

end DirectoryEntry

namespace Directory

variable {tableSize : Nat}

def newline : Byte := 0x0a#8

/-- `Directory::List`, with the texts which stand behind the name fields. -/
def list (directory : Directory tableSize) (behind : Fin tableSize → List Byte) : List Byte :=
  (List.finRange tableSize).flatMap fun index =>
    if (directory.table index).inUse then
      (directory.table index).printed (behind index) ++ [newline]
    else []

/-- The stored names, a line each. -/
def storedNames (directory : Directory tableSize) : List Byte :=
  (List.finRange tableSize).flatMap fun index =>
    if (directory.table index).inUse then
      (directory.table index).key ++ [newline]
    else []

/-- Every name field in use has a NUL, and `List` prints the stored names
whatever stands behind the fields. -/
def ListsStoredNames (directory : Directory tableSize) : Prop :=
  (∀ index, (directory.table index).inUse = true →
    (directory.table index).Terminated) ∧
  ∀ behind, directory.list behind = directory.storedNames

theorem list_eq_storedNames {directory : Directory tableSize}
    (terminated : ∀ index, (directory.table index).inUse = true →
      (directory.table index).Terminated)
    (behind : Fin tableSize → List Byte) :
    directory.list behind = directory.storedNames := by
  unfold list storedNames
  congr 1
  funext index
  split
  · rename_i used
    rw [(terminated index used).printed_eq]
  · rfl

theorem perform_lastByte (directory : Directory tableSize)
    (call : DirectoryCall) (index : Fin tableSize) :
    ((directory.perform call).2.table index).lastByte = (directory.table index).lastByte := by
  cases call with
  | add name newSector =>
    simp only [perform, add]
    cases directory.findIndex name with
    | some found => rfl
    | none =>
      cases directory.freeIndex with
      | none => rfl
      | some slot =>
        by_cases here : index = slot
        · subst here
          simp [DirectoryEntry.lastByte, filledEntry, strncpy, DirectoryEntry.nameAt]
        · simp [here]
  | remove name =>
    simp only [perform, remove]
    cases directory.findIndex name with
    | none => rfl
    | some slot =>
      by_cases here : index = slot
      · subst here
        simp [DirectoryEntry.lastByte]
      · simp [here]

theorem performAll_lastByte (directory : Directory tableSize)
    (calls : List DirectoryCall) (index : Fin tableSize) :
    ((directory.performAll calls).2.table index).lastByte = (directory.table index).lastByte := by
  induction calls generalizing directory with
  | nil => rfl
  | cons call calls induction =>
    exact (induction (directory.perform call).2).trans (directory.perform_lastByte call index)

/-- The listing of a reached directory is right exactly when each file whose
stored name fills the field lies in a slot whose last byte was NUL when the
table was allocated. -/
theorem listsStoredNames_iff_fresh (tableSize : Nat)
    (fresh : Fin tableSize → DirectoryEntry) (calls : List DirectoryCall) :
    let directory := ((new fresh).performAll calls).2
    directory.ListsStoredNames ↔
      ∀ index, (directory.table index).inUse = true →
        (directory.table index).key.length = fileNameMaxLen →
        (fresh index).lastByte = 0#8 := by
  intro directory
  have kept : ∀ index, (directory.table index).lastByte = (fresh index).lastByte := by
    intro index
    exact performAll_lastByte (new fresh) calls index
  constructor
  · rintro ⟨terminated, -⟩ index used full
    rw [← kept]
    exact (DirectoryEntry.terminated_iff _).mp (terminated index used) full
  · intro clean
    have terminated : ∀ index, (directory.table index).inUse = true →
        (directory.table index).Terminated := by
      intro index used
      apply (DirectoryEntry.terminated_iff _).mpr
      intro full
      rw [kept]
      exact clean index used full
    exact ⟨terminated, list_eq_storedNames terminated⟩

/-- Nine letters, added to a table of one slot whose fresh bytes are letters
too: no NUL ends the name. -/
theorem unterminated_listing : ¬((new fun _ : Fin 1 => ⟨true, 0#32, fun _ => 0x61#8⟩).performAll
      [.add (List.replicate 9 0x62#8) 5#32]).2.ListsStoredNames := by
  rintro ⟨terminated, -⟩
  obtain ⟨index, isNul⟩ := terminated 0 (by decide)
  revert index
  decide

end Directory

end Nachos
