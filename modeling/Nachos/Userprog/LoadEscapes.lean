import Nachos.Userprog.LoadContents

/-!
# Images which do not fit

For every header with an image that does not fit there is a file with these
sizes and a state of the bitmap such that the copies leave the frames of the
address space.  The file consists of its header and zeros, and at most one
frame is in use when the constructor starts.
-/

open Words Memory Semaphores Transition Function

namespace Nachos

namespace AddrSpace

/-! ## A file for given sizes -/

/-- The words of a header whose segments start at the beginning of the
file. -/
def headerWords (header : NoffHeader) : Nat → Word
  | 0 => Executable.noffMagic
  | 1 => header.code.virtualAddr
  | 3 => header.code.size
  | 6 => header.initData.size
  | 9 => header.uninitData.size
  | _ => 0#32

/-- More bytes than any segment has. -/
def zeros : Nat := 4294967296

def fileWith (header : NoffHeader) : Executable where
  contents := (List.range 40).map (wordsToBytes (headerWords header)) ++ List.replicate zeros 0#8
  fresh := fun _ => 0#8

theorem fileWith_wordAt (header : NoffHeader) {index : Nat} (inside : index < 10) :
    wordAt (fileWith header).headerBytes (4 * index) =
      headerWords header index := by
  apply wordAt_wordsToBytes
  intro offset lower upper
  have small : offset < 40 := by omega
  unfold Executable.headerBytes fileWith
  rw [List.getD_eq_getElem?_getD, List.getElem?_append_left (by simpa)]
  simp [small]

theorem fileWith_header (header : NoffHeader) :
    (fileWith header).header =
      { noffMagic := Executable.noffMagic
        code := ⟨header.code.virtualAddr, 0#32, header.code.size⟩
        initData := ⟨0#32, 0#32, header.initData.size⟩
        uninitData := ⟨0#32, 0#32, header.uninitData.size⟩ } := by
  have words := @fileWith_wordAt header
  have magic := words (show 0 < 10 by decide)
  have codeAddr := words (show 1 < 10 by decide)
  have codeFile := words (show 2 < 10 by decide)
  have codeSize := words (show 3 < 10 by decide)
  have dataAddr := words (show 4 < 10 by decide)
  have dataFile := words (show 5 < 10 by decide)
  have dataSize := words (show 6 < 10 by decide)
  have restAddr := words (show 7 < 10 by decide)
  have restFile := words (show 8 < 10 by decide)
  have restSize := words (show 9 < 10 by decide)
  simp only [Nat.reduceMul] at *
  simp only [Executable.header, Executable.segmentAt, Nat.reduceAdd, magic,
    codeAddr, codeFile, codeSize, dataAddr, dataFile, dataSize, restAddr,
    restFile, restSize, headerWords]

theorem fileWith_sameImage (header : NoffHeader) : SameImage (fileWith header).header header := by
  rw [fileWith_header]
  exact ⟨rfl, rfl, rfl, rfl⟩

theorem fileWith_complete {header : NoffHeader} (nonnegative : 0 ≤ header.code.size.toInt) :
    Complete (fileWith header) (imageSize header) := by
  have codeRange := toInt_inRange header.code.size
  have dataRange := toInt_inRange header.initData.size
  have bounds := gap_bounds header
  have page := pageSize_eq
  have length : (fileWith header).contents.length = 40 + 4294967296 := by
    simp only [fileWith, List.length_append, List.length_map,
      List.length_range, List.length_replicate]
    rfl
  have zero : (0#32 : Word).toInt = 0 := rfl
  intro address below
  unfold InRange at codeRange dataRange
  unfold imageSize at below
  rw [length]
  unfold filePosition
  rw [fileWith_header]
  simp only [zero]
  simp only at below
  split at below
  · split <;> omega
  · split at below <;> split <;> omega

/-! ## Page tables with one frame left out -/

/-- The frame of a page if all frames but one are free. -/
def frameOf (skipped page : Nat) : Nat :=
  if page < skipped then page else page + 1

def spacedTable (skipped count : Nat) : List TranslationEntry :=
  (List.range count).map fun page => entry page (frameOf skipped page : Nat)

/-- There are enough frames. -/
def Room (skipped count : Nat) : Prop :=
  ∀ page, page < count → frameOf skipped page < numPhysPages

section

variable {skipped count : Nat}

@[simp] theorem spacedTable_length :
    (spacedTable skipped count).length = count := by
  simp [spacedTable]

theorem spacedTable_succ :
    spacedTable skipped (count + 1) = spacedTable skipped count ++
      [entry (spacedTable skipped count).length (frameOf skipped count : Nat)] := by
  rw [spacedTable_length]
  simp [spacedTable, List.range_succ]

theorem spacedTable_getElem? {page : Nat} (inside : page < count) :
    (spacedTable skipped count)[page]? = some (entry page (frameOf skipped page : Nat)) := by
  simp [spacedTable, inside]

theorem entry_physicalPage {page : Nat} (frame : Fin numPhysPages) :
    (entry page (frame.val : Nat)).physicalPage = frameWord frame := by
  simp [entry, frameWord]

theorem spacedTable_framed (room : Room skipped count) : Framed (spacedTable skipped count) := by
  intro entry member
  obtain ⟨page, inside, rfl⟩ := List.mem_map.mp member
  exact ⟨⟨_, room page (List.mem_range.mp inside)⟩,
    entry_physicalPage ⟨_, room page (List.mem_range.mp inside)⟩⟩

theorem frameOf_ne (page : Nat) : frameOf skipped page ≠ skipped := by
  unfold frameOf
  split <;> omega

theorem frameOf_strictMono : StrictMono (frameOf skipped) := by
  intro first second less
  unfold frameOf
  split <;> split <;> omega

theorem spacedTable_distinct (room : Room skipped count) :
    ((spacedTable skipped count).map TranslationEntry.physicalPage).Nodup := by
  unfold spacedTable
  rw [List.map_map]
  refine List.Nodup.map_on ?_ List.nodup_range
  intro first inside second inside' same
  have one := room first (List.mem_range.mp inside)
  have two := room second (List.mem_range.mp inside')
  have frames := frameWord_injective
    (((entry_physicalPage ⟨_, one⟩).symm.trans same).trans (entry_physicalPage ⟨_, two⟩))
  exact frameOf_strictMono.injective (congrArg Fin.val frames)

theorem inFrames_spacedTable (room : Room skipped count) {address : Nat}
    (inside : InFrames (spacedTable skipped count) address) :
    address / pageSize ≠ skipped := by
  obtain ⟨entry, member, place⟩ := inside
  obtain ⟨page, listed, rfl⟩ := List.mem_map.mp member
  have frame := @entry_physicalPage page ⟨_, room page (List.mem_range.mp listed)⟩
  rw [frame, frameWord_toNat] at place
  rw [place]
  exact frameOf_ne page

end

/-- A bitmap with at most one marked frame. -/
def bitsWithout (skipped : Nat) : BitMap numPhysPages :=
  if inside : skipped < numPhysPages then
    (BitMap.new fun _ => 0#32).mark ⟨skipped, inside⟩
  else BitMap.new fun _ => 0#32

theorem test_bitsWithout (skipped : Nat) (frame : Fin numPhysPages) :
    (bitsWithout skipped).test frame = decide (frame.val = skipped) := by
  unfold bitsWithout
  split
  · rw [BitMap.test_mark, BitMap.test_new, Bool.or_false]
    simp only [Fin.ext_iff]
  · rename_i outside
    rw [BitMap.test_new, eq_comm, decide_eq_false_iff_not]
    intro same
    exact outside (same ▸ frame.isLt)

theorem numClear_new {numBits : Nat} (fresh : Fin (numWords numBits) → Word) :
    (BitMap.new fresh).numClear = numBits := by
  simp [BitMap.numClear]

theorem Room.numClear {skipped count : Nat} (room : Room skipped count) :
    count ≤ (bitsWithout skipped).numClear := by
  have all := numClear_new fun _ : Fin (numWords numPhysPages) => 0#32
  have frames : numPhysPages = 128 := rfl
  unfold Room frameOf at room
  unfold bitsWithout
  split
  · rename_i inside
    have fewer := BitMap.numClear_mark (BitMap.test_new (fun _ => 0#32) ⟨skipped, inside⟩)
    by_contra more
    have last := room 127 (by omega)
    split at last <;> omega
  · by_contra more
    have last := room 128 (by omega)
    split at last <;> omega

end AddrSpace

namespace Loading

variable {ι : Type} [DecidableEq ι]

/-- A thread which has the lock takes the frames in their order. -/
theorem exists_loading_of_allocating {state : Loading ι} {thread : ι}
    {file : Executable} {skipped done left : Nat}
    (room : AddrSpace.Room skipped (AddrSpace.numPages file.header))
    (counted : done + left = AddrSpace.numPages file.header)
    (alone : state.addrLock.queue = [])
    (allocating : state.points thread = .allocating file (AddrSpace.spacedTable skipped done))
    (marked : ∀ frame, state.gPhysPageBitMap.test frame =
      decide (frame.val < AddrSpace.frameOf skipped done ∨ frame.val = skipped)) :
    ∃ events after, Run Step state events after ∧ after.points thread = .loading file
        (AddrSpace.spacedTable skipped (AddrSpace.numPages file.header)) := by
  have awake : thread ∉ state.addrLock.queue := by
    rw [alone]
    exact List.not_mem_nil
  induction left generalizing state done with
  | zero =>
    have full : ¬(AddrSpace.spacedTable skipped done).length < AddrSpace.numPages file.header := by
      rw [AddrSpace.spacedTable_length]
      omega
    have step : Step state (.run thread) (state.release thread
        (.loading file (AddrSpace.spacedTable skipped done))) := by
      simp only [Step, next, if_neg awake, run, allocating, if_neg full]
    refine ⟨_, _, .single step, ?_⟩
    rw [← counted]
    exact update_self ..
  | succ left induction =>
    have more : (AddrSpace.spacedTable skipped done).length < AddrSpace.numPages file.header := by
      rw [AddrSpace.spacedTable_length]
      omega
    have inside := room done (by omega)
    have unset : state.gPhysPageBitMap.test ⟨AddrSpace.frameOf skipped done, inside⟩ = false := by
      rw [marked]
      have apart := @AddrSpace.frameOf_ne skipped done
      simp [apart]
    have found := BitMap.find_first unset (by
      intro other below
      rw [marked]
      have less : other.val < AddrSpace.frameOf skipped done := below
      simp [less])
    obtain ⟨events, after, run, loading⟩ := @induction
      (state.taken thread file (AddrSpace.spacedTable skipped done)
        ⟨AddrSpace.frameOf skipped done, inside⟩) (done + 1)
      (by omega) alone (by
        rw [AddrSpace.spacedTable_succ]
        exact update_self ..) (by
        intro frame
        simp only [taken, BitMap.test_mark, marked, Fin.ext_iff, ← Bool.decide_or, decide_eq_decide]
        unfold AddrSpace.frameOf
        split <;> split <;> omega) awake
    have step : Step state (.run thread)
        (state.taken thread file (AddrSpace.spacedTable skipped done)
          ⟨AddrSpace.frameOf skipped done, inside⟩) := by
      simp only [Step, next, if_neg awake, Loading.run, allocating, if_pos more, allocate_eq found]
      rfl
    exact ⟨_, after, (Run.single step).append run, loading⟩

theorem exists_loading (thread : ι) {file : Executable} {skipped : Nat}
    (valid : file.header.noffMagic = Executable.noffMagic)
    (room : AddrSpace.Room skipped (AddrSpace.numPages file.header))
    (mainMemory : Nat → Byte) :
    ∃ events state, Run Step
      (idle (AddrSpace.bitsWithout skipped) mainMemory) events state ∧
      state.points thread = .loading file (AddrSpace.spacedTable skipped
          (AddrSpace.numPages file.header)) := by
  let start : Loading ι := idle (AddrSpace.bitsWithout skipped) mainMemory
  let entering := start.setPoint thread (.acquiring file)
  let checking : Loading ι :=
    { entering.setPoint thread (.checking file) with
      addrLock := ⟨0, []⟩ }
  let allocating := checking.setPoint thread (.allocating file [])
  have opened : Step start (.start thread (some file)) entering := by
    simp only [Step, next, start, idle, Loading.start, if_pos valid]
    rfl
  have atLock : entering.points thread = .acquiring file :=
    update_self ..
  have entered : Step entering (.run thread) checking := by
    have awake : thread ∉ entering.addrLock.queue := List.not_mem_nil
    simp only [Step, next, if_neg awake, run, atLock]
    rfl
  have atCheck : checking.points thread = .checking file :=
    update_self ..
  have granted : Step checking (.run thread) allocating := by
    have awake : thread ∉ checking.addrLock.queue := List.not_mem_nil
    have fits : ¬AddrSpace.numPages file.header >
        checking.gPhysPageBitMap.numClear := Nat.not_lt.mpr room.numClear
    simp only [Step, next, if_neg awake, run, atCheck, check, if_neg fits]
    rfl
  obtain ⟨events, state, run, loading⟩ :=
    @exists_loading_of_allocating ι _ allocating thread file skipped 0
      (AddrSpace.numPages file.header) room (Nat.zero_add _) rfl
      (update_self ..) (by
        intro frame
        have bits : allocating.gPhysPageBitMap =
            AddrSpace.bitsWithout skipped := rfl
        rw [bits, AddrSpace.test_bitsWithout, decide_eq_decide]
        unfold AddrSpace.frameOf
        split <;> omega)
  exact ⟨_, state, (((Run.single opened).snoc entered).snoc granted).append run, loading⟩

end Loading

namespace AddrSpace

/-- The copies have stayed in the frames of every page table with one frame
left out. -/
def FitsSpaced (file : Executable) : Prop :=
  ∀ skipped, Room skipped (numPages file.header) → ∀ mainMemory,
    Contained (spacedTable skipped (numPages file.header)) mainMemory
      (copyAll file (spacedTable skipped (numPages file.header)) (copies file.header) mainMemory)

theorem FitsSpaced.target {file : Executable} (fits : FitsSpaced file)
    (nonnegative : 0 ≤ file.header.code.size.toInt)
    (complete : Complete file (imageSize file.header)) {skipped : Nat}
    (room : Room skipped (numPages file.header)) {address : Nat}
    (below : address < imageSize file.header) :
    address / pageSize < numPages file.header ∧
    ∃ target : Nat, (target : Int) =
        file.header.code.virtualAddr.toInt +
          (frameOf skipped (address / pageSize) * pageSize : Nat) +
          (address % pageSize : Nat) ∧
      target < memorySize ∧ target / pageSize ≠ skipped := by
  have covers := copies_cover nonnegative
  have framed := spacedTable_framed room
  have copied : ∀ mainMemory, ∃ after, copyAll file (spacedTable skipped (numPages file.header))
        (copies file.header) mainMemory = .ok after := by
    intro mainMemory
    have contained := fits skipped room mainMemory
    cases result : copyAll file (spacedTable skipped (numPages file.header))
        (copies file.header) mainMemory with
    | ok after => exact ⟨after, rfl⟩
    | error fault =>
      rw [result] at contained
      exact absurd (covers.bounds_of_error complete framed result) contained
  obtain ⟨zeros, zerosCopied⟩ := copied fun _ => 0#8
  obtain ⟨ones, onesCopied⟩ := copied fun _ => 1#8
  have distinct := spacedTable_distinct room
  obtain ⟨entry, frame, target, found, named, place, inMemory, same⟩ :=
    (covers.copied complete framed distinct zerosCopied).image address (Nat.zero_le _) below
  obtain ⟨entry', frame', target', found', named', place', -, same'⟩ :=
    (covers.copied complete framed distinct onesCopied).image address (Nat.zero_le _) below
  have inside : address / pageSize < numPages file.header := by
    have listed := (List.getElem?_eq_some_iff.mp found).1
    rwa [spacedTable_length] at listed
  have known := @spacedTable_getElem? skipped _ _ inside
  have actual : frame.val = frameOf skipped (address / pageSize) := by
    rw [known] at found
    cases found
    have words := (entry_physicalPage ⟨_, room _ inside⟩).symm.trans named
    exact (congrArg Fin.val (frameWord_injective words)).symm
  have twice : target' = target := by
    rw [found] at found'
    cases found'
    rw [← frameWord_injective (named.symm.trans named')] at place'
    omega
  refine ⟨inside, target, ?_, inMemory, ?_⟩
  · rw [place, byteTarget, actual]
  · apply inFrames_spacedTable room
    by_contra outside
    have first := fits skipped room fun _ => 0#8
    have second := fits skipped room fun _ => 1#8
    rw [zerosCopied] at first
    rw [onesCopied] at second
    have zero : zeros target = 0#8 := by
      by_contra changed
      exact outside (first target changed)
    have one : ones target = 1#8 := by
      by_contra changed
      exact outside (second target changed)
    rw [twice] at same'
    rw [zero] at same
    rw [one, ← same] at same'
    cases same'

theorem room_of_le {skipped count : Nat} (few : count ≤ 128)
    (spare : count ≤ 127 ∨ 128 ≤ skipped) : Room skipped count := by
  intro page inside
  have frames : numPhysPages = 128 := rfl
  unfold frameOf
  split <;> omega

/-- Only images which fit stay in all these frames. -/
theorem FitsSpaced.imageFits {file : Executable} (fits : FitsSpaced file)
    (complete : 0 ≤ file.header.code.size.toInt → Complete file (imageSize file.header)) :
    ImageFits file.header := by
  intro small
  have pages := numPages_eq file.header
  have bytes : pageSize = 512 := rfl
  have total : memorySize = 65536 := rfl
  have most : numPages file.header ≤ 128 := by
    rw [bytes] at pages
    omega
  have free : Room 128 (numPages file.header) :=
    room_of_le most (.inr le_rfl)
  split
  · rename_i negative
    by_contra wrong
    have something : 0 < file.header.initData.size.toInt ∨ Overflows file.header := by
      by_contra neither
      apply wrong
      rw [not_or] at neither
      exact ⟨Int.not_lt.mp neither.1, neither.2⟩
    obtain ⟨copy, rest, order, huge⟩ :=
      copies_of_negative negative something
    have contained := fits 128 free fun _ => 0#8
    rw [order, copyAll_cons, copyOne_behind (by
      rw [spacedTable_length]
      exact most.trans huge)] at contained
    exact contained rfl
  · rename_i nonnegative
    have positive := Int.not_lt.mp nonnegative
    by_cases empty : imageSize file.header = 0
    · exact .inl empty
    · right
      have present := complete positive
      obtain ⟨-, first, firstPlace, -, -⟩ := fits.target positive present
        free (show 0 < imageSize file.header by omega)
      obtain ⟨lastPage, last, lastPlace, lastBelow, -⟩ :=
        fits.target positive present free
          (show imageSize file.header - 1 < imageSize file.header by omega)
      rw [← pages]
      rw [bytes] at firstPlace lastPlace lastPage pages ⊢
      have same : frameOf 128 ((imageSize file.header - 1) / 512) =
          (imageSize file.header - 1) / 512 := if_pos (by omega)
      have zero : frameOf 128 (0 / 512) = 0 := rfl
      rw [same] at lastPlace
      rw [zero] at firstPlace
      refine ⟨by omega, by omega, ?_⟩
      by_contra wrong
      rw [not_or, not_or, total] at wrong
      obtain ⟨moved, beyond, elsewhere⟩ := wrong
      have shifted : file.header.code.virtualAddr.toInt ≠ 0 := by
        intro none
        exact moved (BitVec.eq_of_toInt_eq none)
      by_cases whole : 65536 - 512 < spaceSize file.header
      · exact elsewhere ⟨whole, by omega⟩
      · -- Byte `mark` is on page 0 and leaves frame 0 for the frame which
        -- is left out.
        obtain ⟨mark, markEq⟩ : ∃ mark, mark = min (imageSize file.header - 1) 511 := ⟨_, rfl⟩
        obtain ⟨target, targetEq⟩ : ∃ target : Nat, target =
            file.header.code.virtualAddr.toInt.toNat + mark := ⟨_, rfl⟩
        have room : Room (target / 512) (numPages file.header) :=
          room_of_le most (.inl (by omega))
        obtain ⟨-, reached, place, -, other⟩ := fits.target positive
          present room (show mark < imageSize file.header by omega)
        have page : mark / pageSize = 0 := by
          rw [bytes]
          omega
        have frame : frameOf (target / 512) 0 = 0 := if_pos (by omega)
        rw [page, frame, bytes] at place
        rw [bytes] at other
        omega

end AddrSpace

namespace Loading

variable {ι : Type} [DecidableEq ι]

/-- For every choice of the sizes and of the virtual address of the code: the
constructor stays in the frames which it has taken, and reads only entries of
its page table, for every file with this header, every state of memory and
all other threads, if and only if the image fits. -/
theorem constructor_confined_iff (thread : ι) (header : NoffHeader) :
    (∀ gPhysPageBitMap mainMemory events state file,
      Run Step (idle gPhysPageBitMap mainMemory) events state →
      (state.points thread).file = some file →
      AddrSpace.SameImage file.header header →
      Confined state thread) ↔
      AddrSpace.ImageFits header := by
  constructor
  · intro confined
    have same := AddrSpace.fileWith_sameImage header
    have valid : (AddrSpace.fileWith header).header.noffMagic =
        Executable.noffMagic := by
      rw [AddrSpace.fileWith_header]
    apply same.imageFits
    apply AddrSpace.FitsSpaced.imageFits
    · intro skipped room mainMemory
      obtain ⟨events, state, run, loading⟩ :=
        exists_loading thread valid room mainMemory
      have stays := confined _ _ events state _ run (by rw [loading]; rfl) same
      exact (stays.copies _ _ loading).2 _ [] (List.append_nil _).symm mainMemory
    · intro nonnegative
      rw [same.codeSize] at nonnegative
      have complete := AddrSpace.fileWith_complete nonnegative
      have size : AddrSpace.imageSize (AddrSpace.fileWith header).header =
          AddrSpace.imageSize header := by
        rw [AddrSpace.fileWith_header]
        rfl
      rw [size]
      exact complete
  · intro fits gPhysPageBitMap mainMemory events state file run opened same
    have kept : Sound state ∧ Orderly state :=
      run.history (fun _ state => Sound state ∧ Orderly state) ⟨idle_sound _ _, idle_orderly _ _⟩
        fun _ _ _ _ before step =>
          ⟨before.1.next step, before.2.next step⟩
    have back : AddrSpace.SameImage header file.header :=
      ⟨same.codeSize.symm, same.dataSize.symm, same.restSize.symm, same.virtualAddr.symm⟩
    exact confined_of_fits kept.1 kept.2 opened (back.imageFits fits)

/-- One instruction with `code.virtualAddr = -1024`. -/
def misplacedProgram : Executable where
  contents := [0xad#8, 0xdf#8, 0xba#8, 0x00#8, 0x00#8, 0xfc#8, 0xff#8,
    0xff#8, 0x28#8, 0x00#8, 0x00#8, 0x00#8, 0x04#8, 0x00#8, 0x00#8,
    0x00#8] ++ List.replicate 24 0#8 ++ [0x0c#8, 0x00#8, 0x00#8, 0x00#8]
  fresh := fun _ => 0#8

/-- 512 bytes of code and `uninitData.size = -1536`. -/
def shrunkProgram : Executable where
  contents := [0xad#8, 0xdf#8, 0xba#8] ++ List.replicate 10 0#8 ++
    [0x02#8] ++ List.replicate 23 0#8 ++ [0xfa#8, 0xff#8, 0xff#8]
  fresh := fun _ => 0#8

def threeLoaders : List (LoadEvent (Fin 3)) :=
  .start 0 (some emptyProgram) :: List.replicate 6 (.run 0) ++
    .start 1 (some misplacedProgram) :: List.replicate 6 (.run 1) ++
    .start 2 (some shrunkProgram) :: List.replicate 3 (.run 2)

/-- The second constructor overwrites the first byte of the first address
space, and the third one has a page table without entries and reads entry 0
of it. -/
theorem copies_leave_frames_and_table :
    ∃ state, Run Step (boot (fun _ => 0#32) fun _ => 0#8) threeLoaders
        state ∧
      (state.points 0).frames = [0#32, 1#32] ∧
      (state.points 1).file.isSome = true ∧
      (state.points 1).frames = [2#32, 3#32, 4#32] ∧
      state.mainMemory 0 = 0#8 ∧
      ((state.next (.run 1)).any fun after =>
        after.mainMemory 0 = 0x0c#8) = true ∧
      (state.points 2).pageTable = [] ∧
      (AddrSpace.copyAll shrunkProgram [] (AddrSpace.copies
        shrunkProgram.header) state.mainMemory).toOption.isNone = true :=
  @exists_run_of_replay _ _ next Step _ threeLoaders _ _ (fun _ _ _ => id) (by decide +kernel)

end Loading

end Nachos
