import Nachos.FileSys.Creation
import Nachos.FileSys.Sequential

/-!
# The commands on files

`nachos -cp`, `-p` and `-r` copy a UNIX file, print a file and remove one.
`Copy` creates a file of the right length and writes the bytes in small
pieces, and `Print` reads pieces of that size until nothing is left.  Whatever
commands are given, and however often Nachos is started anew on its disk, they
treat the disk as a map from names to byte strings.
-/

open Words Memory Transition Function

namespace Nachos

namespace FsTest

def transferSize : Nat := 10

/-- The pieces in which `fread` returns the bytes of a file. -/
def pieces : List Byte → List (List Byte)
  | [] => []
  | byte :: bytes =>
    (byte :: bytes).take transferSize :: pieces ((byte :: bytes).drop transferSize)
termination_by bytes => bytes.length
decreasing_by simp [transferSize]

def text (literal : String) : List Byte :=
  literal.toList.map fun char => BitVec.ofNat 8 char.toNat

/-- `printf` of a text with a name in it. -/
def message (literal : String) (name : CString) : List Byte :=
  text literal ++ name.takeWhile (· ≠ 0#8) ++ text "\n"

/-- `Copy`, with the bytes of the UNIX file, if it can be opened.  The result
is what is printed. -/
def copy (fs : FileSystem) (source : CString) (bytes : Option (List Byte))
    (target : CString) (fresh : Nat → Nat → Nat → Byte) :
    Result (List Byte × FileSystem) :=
  match bytes with
  | none => .ok (message "Copy: couldn't open input file " source, fs)
  | some bytes => do
    let (created, fs) ← fs.create target (wrap32 bytes.length) (fresh 0)
    if !created then
      return (message "Copy: couldn't create output file " target, fs)
    let openFile ← fs.open target (fresh 1)
    match openFile with
    | none => .error .assertion
    | some openFile =>
      let (_, disk) ← openFile.writeChunks (fun turn => fresh (turn + 2)) 0 (pieces bytes) fs.disk
      return ([], { fs with disk := disk })

/-- `Print`.  There is no result if the loop has not ended after `fuel`
calls. -/
def print (fs : FileSystem) (name : CString) (fuel : Nat)
    (fresh : Nat → Nat → Nat → Byte) : Result (Option (List Byte)) := do
  let openFile ← fs.open name (fresh 0)
  match openFile with
  | none => return some (message "Print: unable to open file " name)
  | some openFile =>
    let printed ← openFile.readUntilEmpty fs.disk
      (fun _ => BitVec.ofNat 32 transferSize) (fresh 1) fuel 0
    return printed.map Prod.fst

inductive Command where
  | copy (source : CString) (bytes : Option (List Byte)) (target : CString)
  | print (name : CString)
  | remove (name : CString)
  | restart

/-- A command, with what it prints.  `Initialize` opens the file system
without formatting the disk. -/
def perform (fs : FileSystem) (fuel : Nat) (fresh : Nat → Nat → Nat → Byte) :
    Command → Result (Option (List Byte) × FileSystem)
  | .copy source bytes target => do
    let (printed, fs) ← copy fs source bytes target fresh
    return (some printed, fs)
  | .print name => do
    let printed ← print fs name fuel fresh
    return (printed, fs)
  | .remove name => do
    let (_, fs) ← fs.remove name (fresh 0)
    return (some [], fs)
  | .restart => do
    let fs ← FileSystem.boot fs.disk
    return (some [], fs)

/-- A command which comes to its end. -/
def Step (fs : FileSystem) (label : Command × List Byte) (next : FileSystem) : Prop :=
  ∃ fresh enough, ∀ fuel, enough ≤ fuel → perform fs fuel fresh label.1 = .ok (some label.2, next)

/-- Only files which fit a header are copied. -/
def Command.Sized : Command → Prop
  | .copy _ (some bytes) _ => bytes.length ≤ maxFileSize
  | _ => True

abbrev FileMap := List Byte → Option (List Byte)

/-- What the commands do with a map from names to byte strings.  The map does
not say when a file is refused. -/
inductive MapStep (files : FileMap) : Command × List Byte → FileMap → Prop where
  | unopened {source target : CString} :
      MapStep files (.copy source none target,
        message "Copy: couldn't open input file " source) files
  | refused {source target : CString} {bytes : List Byte} :
      MapStep files (.copy source (some bytes) target,
        message "Copy: couldn't create output file " target) files
  | copied {source target : CString} {bytes : List Byte} :
      files target.key = none →
      MapStep files (.copy source (some bytes) target, []) (update files target.key (some bytes))
  | printed {name : CString} {bytes : List Byte} :
      files name.key = some bytes → MapStep files (.print name, bytes) files
  | unknown {name : CString} :
      files name.key = none →
      MapStep files (.print name, message "Print: unable to open file " name) files
  | removed {name : CString} :
      MapStep files (.remove name, []) (update files name.key none)
  | restarted : MapStep files (.restart, []) files

/-- There is a place for a file of this name and these bytes: no file has the
name, an entry of the directory is free, and there are sectors for the header
and for the bytes. -/
def Room (fs : FileSystem) (files : FileMap) (target : CString) (bytes : List Byte) : Prop :=
  files target.key = none ∧
    (∃ index, (fs.disk.directory.table index).inUse = false) ∧
    1 + ((bytes.length : Int) + (sectorSize - 1)) / sectorSize ≤ fs.disk.freeMap.numClear

/-! ## One command -/

theorem flatten_pieces (bytes : List Byte) : (pieces bytes).flatten = bytes := by
  fun_induction pieces bytes with
  | case1 => rfl
  | case2 byte bytes induction =>
    rw [List.flatten_cons, induction, List.take_append_drop]

theorem ne_nil_of_mem_pieces {bytes piece : List Byte} (member : piece ∈ pieces bytes) :
    piece ≠ [] := by
  fun_induction pieces bytes with
  | case1 => cases member
  | case2 byte bytes induction =>
    rcases List.mem_cons.mp member with rfl | later
    · exact List.cons_ne_nil _ _
    · exact induction later

variable {fs : FileSystem} {layout : Layout} {files : FileMap}

/-- The disk without open files stands for the map. -/
def Represents (fs : FileSystem) (files : FileMap) : Prop :=
  ∃ layout, Session.Represents ⟨fs, []⟩ layout ⟨files, []⟩

theorem requested_transferSize (turn : Nat) :
    OpenFile.requested (fun _ => BitVec.ofNat 32 transferSize) turn = 10 * turn := by
  induction turn with
  | zero => rfl
  | succ turn induction =>
    rw [OpenFile.requested, induction]
    change _ + (10 : Int) = _
    omega

/-- The loop of `Print` shows the whole file, also if its length is
negative. -/
theorem readUntilEmpty_whole {hdr : FileHeader} {sectors : List SectorIndex}
    (covers : hdr.Covers sectors) (disk : Disk) (fresh : Nat → Nat → Byte) {fuel : Nat}
    (enough : maxFileSize + 1 ≤ fuel) :
    ∃ calls, OpenFile.readUntilEmpty disk (fun _ => BitVec.ofNat 32 transferSize) fresh
      fuel 0 ⟨hdr, 0⟩ =
        .ok (some (slice (disk.fileByte sectors) 0 hdr.fileLength.toNat, calls)) := by
  have short := covers.length_le
  have limit : maxFileSize = 64512 := rfl
  by_cases negative : hdr.fileLength < 0
  · obtain ⟨fuel, rfl⟩ : ∃ less, fuel = less + 1 := ⟨fuel - 1, by omega⟩
    have none : OpenFile.read ⟨hdr, 0⟩ disk (BitVec.ofNat 32 transferSize).toInt
        (fresh 0) = .ok ([], ⟨hdr, 0⟩) :=
      @OpenFile.read_at_end hdr disk 0 (by omega) _ (by decide) _
    rw [Int.toNat_of_nonpos (by omega)]
    refine ⟨[⟨0, 0, 0⟩], ?_⟩
    simp only [OpenFile.readUntilEmpty, none, ok_bind]
    rfl
  · have positive : ∀ _ : Nat, 0 < (BitVec.ofNat 32 transferSize).toInt :=
      fun _ => by decide
    have fit : OpenFile.ReadsFit (fun _ => BitVec.ofNat 32 transferSize)
        hdr.fileLength := by
      intro turn inside
      rw [requested_transferSize] at inside ⊢
      omega
    obtain ⟨calls, success, -⟩ := OpenFile.readUntilEmpty_spec covers disk positive fit
      fresh (Int.toNat_of_nonneg (by omega)) fuel 0 0
      (by rw [requested_transferSize]; omega) (by omega)
    exact ⟨calls, success⟩

section

variable (represents : Represents fs files)
include represents

theorem print_ends (name : CString) (fresh : Nat → Nat → Nat → Byte) :
    ∃ printed, MapStep files (.print name, printed) files ∧
      ∀ fuel, maxFileSize + 1 ≤ fuel → print fs name fuel fresh = .ok (some printed) := by
  obtain ⟨layout, represents⟩ := represents
  have consistent := represents.valid.consistent
  rcases consistent.open name (fresh 0) with
    ⟨absent, failed⟩ | ⟨index, found, used, key, success⟩
  · refine ⟨_, .unknown (represents.absent_of_none absent), fun fuel _ => ?_⟩
    simp only [print, failed, ok_bind]
    rfl
  · refine ⟨_, .printed (represents.present_of_some found), fun fuel enough => ?_⟩
    obtain ⟨calls, shown⟩ := readUntilEmpty_whole
      (consistent.describes.maps index used).covers fs.disk (fresh 1) enough
    simp only [print, success, ok_bind, shown]
    rfl

theorem creatable_iff_room (target : CString) (bytes : List Byte) :
    fs.Creatable target bytes.length ↔ Room fs files target bytes := by
  obtain ⟨layout, represents⟩ := represents
  rw [FileSystem.creatable_iff (Int.natCast_nonneg _), Room, ← Directory.findIndex_none_iff]
  refine and_congr_left fun _ => ⟨represents.absent_of_none, fun absent => ?_⟩
  cases found : fs.disk.directory.findIndex target with
  | none => rfl
  | some index => cases (represents.present_of_some found).symm.trans absent

theorem copy_ends (source : CString) {bytes : List Byte} (small : bytes.length ≤ maxFileSize)
    (target : CString) (fresh : Nat → Nat → Nat → Byte) :
    ∃ printed copied changed,
      copy fs source (some bytes) target fresh = .ok (printed, copied) ∧
      MapStep files (.copy source (some bytes) target, printed) changed ∧
      Represents copied changed ∧ (printed = [] ↔ Room fs files target bytes) := by
  rw [← creatable_iff_room represents]
  obtain ⟨layout, represents⟩ := represents
  have limit : maxFileSize = 64512 := rfl
  have inRange : InRange bytes.length := by
    unfold InRange
    omega
  have size : (BitVec.ofInt 32 bytes.length).toInt = (bytes.length : Int) :=
    toInt_ofInt_eq inRange
  by_cases creatable : fs.Creatable target bytes.length
  case neg =>
    have failed := represents.valid.consistent.create_of_not_creatable creatable (fresh 0)
    refine ⟨_, fs, files, ?_, .refused, ⟨layout, represents⟩,
      iff_of_false (by simp [message, text]) creatable⟩
    simp only [copy, wrap32_eq inRange, failed, ok_bind]
    rfl
  case pos =>
    obtain ⟨created, index, home, blocks, success, effect, consistent⟩ :=
      represents.valid.consistent.create_of_creatable creatable inRange (by omega) (fresh 0)
    have valid : Session.Valid ⟨created, []⟩ (layout.set index home blocks) :=
      ⟨consistent, nofun⟩
    rw [← size] at effect
    obtain ⟨store, step, between⟩ := represents.create (by omega) effect valid
    cases step with
    | create absent length =>
      rcases consistent.open target (fresh 1) with
        ⟨missing, -⟩ | ⟨found, listed, used, key, opened⟩
      · cases effect.found consistent missing
      · cases effect.found consistent listed
        have covers := (consistent.describes.maps index used).covers
        have header : (created.disk.header
            ((layout.set index home blocks).home index)).fileLength =
              bytes.length := by
          rw [← size]
          simpa [Layout.set] using effect.length
        have nonempty : ∀ piece ∈ pieces bytes, piece ≠ [] :=
          fun _ => ne_nil_of_mem_pieces
        obtain ⟨calls, written, stored, -, contents, kept⟩ :=
          OpenFile.writeChunks_spec covers (fun turn => fresh (turn + 2)) nonempty 0
            created.disk 0 (by
              rw [flatten_pieces, header]
              omega)
        rw [flatten_pieces, Nat.zero_add] at contents
        obtain ⟨-, -, headers⟩ := consistent.frame used kept
        have own : (layout.set index home blocks).contents written index = bytes := by
          unfold Layout.contents
          rw [headers index used, header]
          exact contents
        have final := between.setContents used kept
        simp only [key, own, NamedStore.setFile, update_idem] at final
        refine ⟨[], { created with disk := written }, _, ?_, .copied absent, ⟨_, final⟩,
          iff_of_true rfl creatable⟩
        rw [Nat.cast_zero] at stored
        simp only [copy, wrap32_eq inRange, success, ok_bind, opened, Bool.not_true,
          Bool.false_eq_true, if_false, stored]
        rfl

theorem remove_ends (name : CString) (fresh : Nat → Nat → Byte) :
    ∃ success removed, fs.remove name fresh = .ok (success, removed) ∧
      Represents removed (update files name.key none) := by
  obtain ⟨layout, represents⟩ := represents
  rcases represents.valid.consistent.remove name fresh with
    ⟨absent, failed⟩ | ⟨removed, index, success, effect, consistent⟩
  · have missing : files name.key = none := represents.absent_of_none absent
    refine ⟨false, fs, failed, layout, ?_⟩
    rwa [← missing, update_eq_self]
  · have valid : Session.Valid ⟨removed, []⟩ layout := ⟨consistent, nofun⟩
    obtain ⟨store, step, final⟩ := represents.remove effect valid
    cases step
    exact ⟨true, removed, success, layout, final⟩

theorem boot_ends : ∃ booted, FileSystem.boot fs.disk = .ok booted ∧ Represents booted files := by
  obtain ⟨layout, valid, stored, absent, -⟩ := represents
  obtain ⟨⟨disk, freeMapFile, directoryFile⟩, success, rfl, mounted⟩ :=
    valid.consistent.mounted.boot
  exact ⟨_, success, layout, ⟨⟨mounted, valid.consistent.owns, valid.consistent.describes⟩, nofun⟩,
    stored, absent, rfl⟩

end

/-! ## Whole runs -/

/-- Every permitted command comes to its end, and does what it should. -/
theorem perform_ends (represents : Represents fs files) {command : Command}
    (sized : command.Sized) (fresh : Nat → Nat → Nat → Byte) :
    ∃ printed next changed, (∀ fuel, maxFileSize + 1 ≤ fuel →
        perform fs fuel fresh command = .ok (some printed, next)) ∧
      MapStep files (command, printed) changed ∧ Represents next changed ∧
      ∀ source bytes target, command = .copy source (some bytes) target →
        (printed = [] ↔ Room fs files target bytes) := by
  cases command with
  | copy source bytes target =>
    cases bytes with
    | none => exact ⟨_, fs, files, fun _ _ => rfl, .unopened, represents, by simp⟩
    | some bytes =>
      obtain ⟨printed, copied, changed, success, step, final, room⟩ :=
        copy_ends represents source sized target fresh
      refine ⟨printed, copied, changed, fun fuel _ => ?_, step, final, ?_⟩
      · simp only [perform, success, ok_bind]
        rfl
      · rintro _ _ _ ⟨⟩
        exact room
  | print name =>
    obtain ⟨printed, step, shown⟩ := print_ends represents name fresh
    refine ⟨printed, fs, files, fun fuel enough => ?_, step, represents, by simp⟩
    simp only [perform, shown fuel enough, ok_bind]
    rfl
  | remove name =>
    obtain ⟨success, removed, result, final⟩ := remove_ends represents name (fresh 0)
    refine ⟨[], removed, _, fun fuel _ => ?_, .removed, final, by simp⟩
    simp only [perform, result, ok_bind]
    rfl
  | restart =>
    obtain ⟨booted, result, final⟩ := boot_ends represents
    refine ⟨[], booted, files, fun fuel _ => ?_, .restarted, final, by simp⟩
    simp only [perform, result, ok_bind]
    rfl

/-- Every run of commands and restarts from a formatted disk, in which the
copied files fit a header, prints what the map from names to byte strings
says; and every further such command comes to its end, whatever new memory
holds, and refuses a file only if there is no place for it. -/
theorem commands_simulate_file_map (disk : Disk) (fresh : Nat → Nat → Byte) :
    ∃ fs, FileSystem.format disk fresh = .ok fs ∧
      ∀ labels final, (∀ label ∈ labels, label.1.Sized) → Run Step fs labels final →
        ∃ files, Run MapStep (fun _ => none) labels files ∧
          ∀ command, command.Sized → ∀ fresh, ∃ printed next,
            (∀ fuel, maxFileSize + 1 ≤ fuel →
              perform final fuel fresh command = .ok (some printed, next)) ∧
            ∀ source bytes target, command = .copy source (some bytes) target →
              (printed = [] ↔ Room final files target bytes) := by
  obtain ⟨fs, layout, formatted, valid, unused⟩ := Session.valid_of_format disk fresh
  refine ⟨fs, formatted, ?_⟩
  intro labels final sized run
  have initial : Represents fs fun _ => none := by
    refine ⟨layout, valid, ?_, fun _ _ => rfl, rfl⟩
    intro index used
    rw [unused index] at used
    cases used
  obtain ⟨files, abstractRun, represents⟩ := run.simulate Represents id (by
    rintro low ⟨command, printed⟩ low' files represents sized ⟨fresh, enough, ended⟩
    obtain ⟨expected, next, changed, performed, step, kept, -⟩ :=
      perform_ends represents sized fresh
    have same := performed (max enough (maxFileSize + 1)) (le_max_right _ _)
    rw [ended _ (le_max_left _ _)] at same
    cases same
    exact ⟨changed, step, kept⟩) sized initial
  rw [List.map_id] at abstractRun
  refine ⟨files, abstractRun, fun command sized fresh => ?_⟩
  obtain ⟨printed, next, -, performed, -, -, room⟩ := perform_ends represents sized fresh
  exact ⟨printed, next, performed, room⟩

/-- A file is copied to a blank disk and printed. -/
theorem commands_simulate_file_map_copy_and_print :
    ∃ fs final files,
      FileSystem.format ⟨fun _ _ => 0#8⟩ (fun _ _ => 0#8) = .ok fs ∧
      Run Step fs [(.copy [] (some [1#8, 2#8]) [97#8], []), (.print [97#8], [1#8, 2#8])] final ∧
      Run MapStep (fun _ => none)
        [(.copy [] (some [1#8, 2#8]) [97#8], []), (.print [97#8], [1#8, 2#8])] files := by
  obtain ⟨fs, formatted, simulated⟩ :=
    commands_simulate_file_map ⟨fun _ _ => 0#8⟩ (fun _ _ => 0#8)
  obtain ⟨_, layout, formatted', -, creatable⟩ :=
    FileSystem.format_creatable ⟨fun _ _ => 0#8⟩ (fun _ _ => 0#8)
  cases Except.ok.inj (formatted.symm.trans formatted')
  have sized : (Command.copy [] (some [1#8, 2#8]) [97#8]).Sized :=
    (by decide : 2 ≤ maxFileSize)
  obtain ⟨empty, begun, progress⟩ := simulated [] fs (by simp) .refl
  obtain ⟨printed, copied, performed, room⟩ := progress _ sized fun _ _ _ => 0#8
  have silent : printed = [] := by
    obtain ⟨-, free, clear⟩ := (FileSystem.creatable_iff (by decide)).mp creatable
    have size := sectorSize_eq
    have length : ([1#8, 2#8] : List Byte).length = 2 := rfl
    have absent : empty (CString.key [97#8]) = none := by rw [begun.nil_inv]
    rw [room _ _ _ rfl]
    refine ⟨absent, free, ?_⟩
    rw [size] at clear
    rw [length, size]
    omega
  subst silent
  have first : Run Step fs [(.copy [] (some [1#8, 2#8]) [97#8], [])] copied :=
    .single ⟨_, _, performed⟩
  obtain ⟨_, -, progress⟩ := simulated _ copied (by
    rintro label member
    rw [List.mem_singleton.mp member]
    exact sized) first
  obtain ⟨shown, final, performed, -⟩ := progress (.print [97#8]) trivial fun _ _ _ => 0#8
  have print : Step copied (.print [97#8], shown) final := ⟨_, _, performed⟩
  have both := first.append (.single print)
  obtain ⟨files, abstractRun, -⟩ := simulated _ final (by
    rintro label member
    rcases List.mem_pair.mp member with rfl | rfl
    · exact sized
    · exact True.intro) both
  have second : shown = [1#8, 2#8] := by
    obtain ⟨middle, early, print⟩ := @Run.snoc_inv _ _ _ _ _
      [(Command.copy [] (some [1#8, 2#8]) [97#8], [])] _ abstractRun
    obtain ⟨start, none, copy⟩ := @Run.snoc_inv _ _ _ _ _ [] _ early
    cases none.nil_inv
    cases copy
    cases print with
    | printed found =>
      rw [update_self] at found
      exact (Option.some.inj found).symm
    | unknown missing =>
      rw [update_self] at missing
      cases missing
  rw [second] at both abstractRun
  exact ⟨fs, final, files, formatted, both, abstractRun⟩

end FsTest

end Nachos
