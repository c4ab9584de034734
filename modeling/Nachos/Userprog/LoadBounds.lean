import Nachos.Userprog.Frames
import Nachos.Userprog.Image

/-!
# Where the constructor writes

The copies of the constructor go to `code.virtualAddr` plus the address of a
frame.  They stay in the frames of the address space if the image fits into
the pages which have been allocated and `code.virtualAddr` does not move it
out of its frames.  For every other combination of sizes and virtual
address there is a state of memory in which a copy goes elsewhere.
-/

open Words Memory Semaphores Transition Function

namespace Nachos

namespace AddrSpace

/-- The byte lies in a frame of the page table. -/
def InFrames (pageTable : List TranslationEntry) (address : Nat) : Prop :=
  ∃ entry ∈ pageTable, address / pageSize = entry.physicalPage.toNat

/-- Every entry names a frame of main memory. -/
def Framed (pageTable : List TranslationEntry) : Prop :=
  ∀ entry ∈ pageTable, ∃ frame, entry.physicalPage = frameWord frame

/-- Copies which have stayed inside: what they have changed lies in the
frames, and they have read no entry behind the page table and written no
byte outside main memory.  They can have aborted the machine. -/
def Contained (pageTable : List TranslationEntry) (before : Nat → Byte) : Result (Nat → Byte) → Prop
  | .ok after => ∀ address, after address ≠ before address →
      InFrames pageTable address
  | .error fault => fault ≠ .bounds

variable {pageTable : List TranslationEntry}

theorem Contained.trans {before middle : Nat → Byte} {result : Result (Nat → Byte)}
    (first : Contained pageTable before (.ok middle))
    (second : Contained pageTable middle result) :
    Contained pageTable before result := by
  cases result with
  | error fault => exact second
  | ok after =>
    intro address changed
    by_cases same : middle address = before address
    · exact second address (by rw [same]; exact changed)
    · exact first address same

/-! ## One copy -/

/-- Where the byte of the image at an address goes if its page is in a
frame. -/
def byteTarget (header : NoffHeader) (frame : Fin numPhysPages) (address : Nat) : Int :=
  header.code.virtualAddr.toInt + (frame.val * pageSize : Nat) + (address % pageSize : Nat)

variable {header : NoffHeader} {entry : TranslationEntry}

theorem pageAddress_eq {page : Nat} {frame : Fin numPhysPages}
    (found : pageTable[page]? = some entry)
    (named : entry.physicalPage = frameWord frame) :
    pageAddress header pageTable page = .ok
      (header.code.virtualAddr.toInt + (frame.val * pageSize : Nat)) := by
  have small : frame.val < 128 := frame.isLt
  have product : (frameWord frame * pageSizeWord).toNat = frame.val * pageSize := by
    rw [BitVec.toNat_mul, frameWord_toNat]
    rw [show pageSizeWord.toNat = 512 from rfl, show pageSize = 512 from rfl]
    omega
  have signed : (frameWord frame * pageSizeWord).toInt = (frame.val * pageSize : Nat) := by
    rw [BitVec.toInt_eq_toNat_of_lt, product]
    rw [product, show pageSize = 512 from rfl]
    omega
  unfold pageAddress
  rw [found, inBounds_some, ok_bind, named, signed]
  rfl

/-- The bytes which a call finds in the file. -/
def chunk (file : Executable) (copy : Copy) : List Byte :=
  (file.contents.drop copy.position.toNat).take copy.count.toInt.toNat

section

variable {file : Executable} {pageTable : List TranslationEntry}
  {copy : Copy} {start stop : Nat} {entry : TranslationEntry}
  {frame : Fin numPhysPages} {mainMemory : Nat → Byte}

theorem copyOne_eq (fills : copy.Fills file.header start stop)
    (found : pageTable[start / pageSize]? = some entry)
    (named : entry.physicalPage = frameWord frame) :
    copyOne file pageTable mainMemory copy =
      file.readInto mainMemory (byteTarget file.header frame start) copy.count copy.position := by
  unfold copyOne
  rw [fills.page, pageAddress_eq found named, ok_bind, fills.offset]
  rfl

theorem copyOne_behind (behind : pageTable.length ≤ copy.page) :
    copyOne file pageTable mainMemory copy = .error .bounds := by
  unfold copyOne pageAddress
  rw [List.getElem?_eq_none behind]
  rfl

theorem readInto_cases (target : Int) :
    copy.position.toInt < 0 ∧
      file.readInto mainMemory target copy.count copy.position =
        .error .assertion ∨
    0 ≤ copy.position.toInt ∧
      (chunk file copy ≠ [] → 0 ≤ target ∧
        target + (chunk file copy).length ≤ memorySize) ∧
      file.readInto mainMemory target copy.count copy.position =
        .ok (splice mainMemory target.toNat (chunk file copy)) ∨
    0 ≤ copy.position.toInt ∧
      ¬(0 ≤ target ∧
        target + (chunk file copy).length ≤ memorySize) ∧
      file.readInto mainMemory target copy.count copy.position = .error .bounds := by
  unfold Executable.readInto assert
  by_cases position : 0 ≤ copy.position.toInt
  · right
    simp only [position, decide_true, if_true, ok_bind, true_and]
    rw [← chunk]
    by_cases empty : chunk file copy = []
    · left
      rw [if_pos empty, empty, splice_nil]
      exact ⟨fun some => absurd rfl some, rfl⟩
    · rw [if_neg empty]
      by_cases inside : 0 ≤ target ∧ target + (chunk file copy).length ≤ memorySize
      · left
        rw [if_pos inside]
        exact ⟨fun _ => inside, rfl⟩
      · right
        rw [if_neg inside]
        exact ⟨inside, rfl⟩
  · left
    refine ⟨by omega, ?_⟩
    simp only [position, decide_false]
    rfl

variable (fills : copy.Fills file.header start stop)
include fills

theorem chunk_length_le : (chunk file copy).length ≤ stop - start := by
  have count := fills.count
  have more := fills.more
  rw [chunk, List.length_take]
  omega

theorem byteTarget_add {index : Nat} (inside : index < stop - start) :
    byteTarget file.header frame (start + index) = byteTarget file.header frame start + index := by
  have samePage := fills.samePage
  have rest : (start + index) % pageSize = start % pageSize + index := by
    rw [show pageSize = 512 from rfl] at samePage ⊢
    omega
  unfold byteTarget
  rw [rest]
  omega

theorem copyOne_contained (found : pageTable[start / pageSize]? = some entry)
    (named : entry.physicalPage = frameWord frame)
    (inside : ∀ address, start ≤ address → address < stop →
      ∃ target : Nat, (target : Int) = byteTarget file.header frame address ∧
        target < memorySize ∧ InFrames pageTable target) :
    Contained pageTable mainMemory (copyOne file pageTable mainMemory copy) := by
  have most := chunk_length_le fills
  have more := fills.more
  rw [copyOne_eq fills found named]
  obtain ⟨first, firstTarget, -, -⟩ := inside start le_rfl more
  rcases @readInto_cases file copy mainMemory (byteTarget file.header frame start) with
    ⟨-, result⟩ | ⟨-, -, result⟩ | ⟨-, outside, result⟩
  · rw [result]
    nofun
  · rw [result]
    intro address changed
    have lower : (byteTarget file.header frame start).toNat ≤ address := by
      by_contra below
      exact changed (splice_outside _ (.inl (by omega)))
    have upper : address < (byteTarget file.header frame start).toNat +
        (chunk file copy).length := by
      by_contra above
      exact changed (splice_outside _ (.inr (by omega)))
    obtain ⟨index, rfl⟩ := Nat.exists_eq_add_of_le lower
    obtain ⟨target, same, -, framed⟩ := inside (start + index) (by omega) (by omega)
    rw [byteTarget_add fills (by omega)] at same
    have reached : target = (byteTarget file.header frame start).toNat + index := by omega
    rw [← reached]
    exact framed
  · exfalso
    apply outside
    refine ⟨by omega, ?_⟩
    by_cases empty : (chunk file copy).length = 0
    · obtain ⟨target, same, below, -⟩ := inside start le_rfl more
      omega
    · obtain ⟨target, same, below, -⟩ := inside
        (start + ((chunk file copy).length - 1)) (by omega) (by omega)
      rw [byteTarget_add fills (by omega)] at same
      omega

end

/-! ## All copies -/

theorem Framed.frame (framed : Framed pageTable) {page : Nat} (inside : page < pageTable.length) :
    ∃ entry frame, pageTable[page]? = some entry ∧ entry.physicalPage = frameWord frame := by
  obtain ⟨frame, named⟩ := framed _ (List.getElem_mem inside)
  exact ⟨_, frame, List.getElem?_eq_getElem inside, named⟩

theorem Covers.contained {file : Executable} {copies : List Copy}
    {start stop : Nat} (covers : Covers file.header start copies stop)
    (framed : Framed pageTable) (enough : stop ≤ pageTable.length * pageSize)
    (inside : ∀ address entry frame, start ≤ address → address < stop →
      pageTable[address / pageSize]? = some entry →
      entry.physicalPage = frameWord frame →
      ∃ target : Nat,
        (target : Int) = byteTarget file.header frame address ∧
        target < memorySize ∧ InFrames pageTable target)
    (mainMemory : Nat → Byte) :
    Contained pageTable mainMemory (copyAll file pageTable copies mainMemory) := by
  induction covers generalizing mainMemory with
  | done =>
    intro address changed
    exact absurd rfl changed
  | @copy start middle stop copy rest fills covers induction =>
    have more := fills.more
    have later := covers.le
    have indexed : start / pageSize < pageTable.length := by
      rw [show pageSize = 512 from rfl] at enough ⊢
      omega
    obtain ⟨entry, frame, found, named⟩ := framed.frame indexed
    have first : Contained pageTable mainMemory (copyOne file pageTable mainMemory copy) := by
      refine copyOne_contained fills found named ?_
      intro address lower upper
      refine inside address entry frame lower (by omega) ?_ named
      have samePage := fills.samePage
      have page : address / pageSize = start / pageSize := by
        rw [show pageSize = 512 from rfl] at samePage ⊢
        omega
      rw [page]
      exact found
    rw [copyAll_cons]
    cases result : copyOne file pageTable mainMemory copy with
    | error fault =>
      rw [result] at first
      exact first
    | ok after =>
      rw [result] at first
      rw [ok_bind]
      refine first.trans (induction enough ?_ after)
      intro address entry frame lower
      exact inside address entry frame (by omega)

theorem Covers.of_append {start stop : Nat} {done rest : List Copy}
    (covers : Covers header start (done ++ rest) stop) :
    ∃ middle, middle ≤ stop ∧ Covers header start done middle := by
  induction done generalizing start with
  | nil => exact ⟨start, covers.le, .done⟩
  | cons copy done induction =>
    cases covers with
    | copy fills covers =>
      obtain ⟨middle, upper, first⟩ := induction covers
      exact ⟨middle, upper, .copy fills first⟩

/-! ## Which images fit -/

/-- The size of the address space as the constructor adds it up. -/
def spaceSize (header : NoffHeader) : Nat :=
  (header.code.size + header.initData.size + header.uninitData.size + userStackSize).toNat

/-- The image stays in its frames wherever they are: either there is nothing
to copy, or the image has room in the pages of the address space and is not
moved out of page 0, if it has no other, or out of the whole memory, if the
address space takes all frames. -/
def ImageFits (header : NoffHeader) : Prop :=
  spaceSize header ≤ memorySize → if header.code.size.toInt < 0 then
      header.initData.size.toInt ≤ 0 ∧ ¬Overflows header
    else
      imageSize header = 0 ∨
        imageSize header ≤
          (spaceSize header + pageSize - 1) / pageSize * pageSize ∧
        0 ≤ header.code.virtualAddr.toInt ∧
        (header.code.virtualAddr = 0#32 ∨
          imageSize header + header.code.virtualAddr.toInt ≤ pageSize ∨
          memorySize - pageSize < spaceSize header ∧
          imageSize header + header.code.virtualAddr.toInt ≤ memorySize)

theorem numPages_eq (header : NoffHeader) :
    numPages header = (spaceSize header + pageSize - 1) / pageSize := by
  have same : numPages header = spaceSize header / pageSize +
      if spaceSize header % pageSize > 0 then 1 else 0 := rfl
  rw [same, show pageSize = 512 from rfl]
  split <;> omega

/-- Two headers with the same sizes and the same virtual address. -/
structure SameImage (header other : NoffHeader) : Prop where
  codeSize : header.code.size = other.code.size
  dataSize : header.initData.size = other.initData.size
  restSize : header.uninitData.size = other.uninitData.size
  virtualAddr : header.code.virtualAddr = other.code.virtualAddr

theorem SameImage.imageFits {other : NoffHeader}
    (same : SameImage header other) (fits : ImageFits header) :
    ImageFits other := by
  simp only [ImageFits, spaceSize, imageSize, Overflows, gap,
    same.codeSize, same.dataSize, same.restSize,
    same.virtualAddr] at fits ⊢
  exact fits

/-- Frames in the order in which `Find` gives them out. -/
def Ascending (pageTable : List TranslationEntry) : Prop :=
  (pageTable.map fun entry => entry.physicalPage.toNat).Pairwise (· < ·)

theorem add_le_of_pairwise_lt {values : List Nat}
    (increasing : values.Pairwise (· < ·)) {first count : Nat}
    (inside : first + count < values.length) :
    values[first] + count ≤ values[first + count] := by
  induction count with
  | zero => exact Nat.le_refl _
  | succ count induction =>
    have before := induction (by omega)
    have last := List.pairwise_iff_getElem.mp increasing (first + count)
      (first + count + 1) (by omega) inside (by omega)
    exact Nat.lt_of_le_of_lt before last

theorem Ascending.identity (ascending : Ascending pageTable)
    (framed : Framed pageTable) (full : pageTable.length = numPhysPages)
    {page : Nat} (found : pageTable[page]? = some entry) :
    entry.physicalPage.toNat = page := by
  obtain ⟨inside, rfl⟩ := List.getElem?_eq_some_iff.mp found
  have frames : numPhysPages = 128 := rfl
  have lower := @add_le_of_pairwise_lt _ ascending 0 page (by simp only [List.length_map]; omega)
  have upper := @add_le_of_pairwise_lt _ ascending page (127 - page)
    (by simp only [List.length_map]; omega)
  simp only [List.getElem_map, Nat.zero_add] at lower upper
  have last : page + (127 - page) < pageTable.length := by omega
  obtain ⟨frame, named⟩ := framed _ (List.getElem_mem last)
  rw [named, frameWord_toNat] at upper
  have bound : frame.val < 128 := frame.isLt
  omega

/-- The targets of the image, in the three cases of `ImageFits`. -/
theorem targets_inside (framed : Framed pageTable) (ascending : Ascending pageTable)
    (pages : pageTable.length = numPages header)
    (small : spaceSize header ≤ memorySize)
    (lower : 0 ≤ header.code.virtualAddr.toInt)
    (fits : header.code.virtualAddr = 0#32 ∨
      imageSize header + header.code.virtualAddr.toInt ≤ pageSize ∨
      memorySize - pageSize < spaceSize header ∧
      imageSize header + header.code.virtualAddr.toInt ≤ memorySize)
    {address : Nat} {frame : Fin numPhysPages}
    (below : address < imageSize header)
    (found : pageTable[address / pageSize]? = some entry)
    (named : entry.physicalPage = frameWord frame) :
    ∃ target : Nat, (target : Int) = byteTarget header frame address ∧
      target < memorySize ∧ InFrames pageTable target := by
  have last : frame.val < 128 := frame.isLt
  have member := List.mem_of_getElem? found
  have bytes : pageSize = 512 := rfl
  have total : memorySize = 65536 := rfl
  rw [numPages_eq, bytes] at pages
  rw [bytes] at found
  have here : ∀ target : Nat, target / pageSize = frame.val → InFrames pageTable target := by
    intro target within
    refine ⟨entry, member, ?_⟩
    rw [named, frameWord_toNat]
    exact within
  unfold byteTarget
  rw [bytes] at here ⊢
  rcases fits with zero | onPage | ⟨whole, inMemory⟩
  · rw [zero, show (0#32 : Word).toInt = 0 from rfl]
    exact ⟨frame.val * 512 + address % 512, by omega, by omega, here _ (by omega)⟩
  · rw [bytes] at onPage
    exact ⟨header.code.virtualAddr.toInt.toNat + frame.val * 512 +
      address % 512, by omega, by omega, here _ (by omega)⟩
  · rw [bytes, total] at whole
    rw [total] at inMemory small ⊢
    have full : pageTable.length = numPhysPages := by
      rw [show numPhysPages = 128 from rfl]
      omega
    have own := ascending.identity framed full found
    rw [named, frameWord_toNat] at own
    have inside : (header.code.virtualAddr.toInt.toNat +
        frame.val * 512 + address % 512) / 512 < pageTable.length := by
      have length : pageTable.length = 128 := full
      omega
    obtain ⟨other, place, listed, -⟩ := framed.frame inside
    have itself := ascending.identity framed full listed
    refine ⟨header.code.virtualAddr.toInt.toNat + frame.val * 512 +
      address % 512, by omega, by omega, other,
      List.mem_of_getElem? listed, ?_⟩
    rw [bytes]
    exact itself.symm

/-- An image which fits is copied into the frames. -/
theorem ImageFits.contained {file : Executable} (fits : ImageFits file.header)
    (framed : Framed pageTable) (ascending : Ascending pageTable)
    (pages : pageTable.length = numPages file.header)
    (small : spaceSize file.header ≤ memorySize) {done rest : List Copy}
    (order : copies file.header = done ++ rest) (mainMemory : Nat → Byte) :
    Contained pageTable mainMemory (copyAll file pageTable done mainMemory) := by
  have condition := fits small
  split at condition
  · rename_i negative
    have nothing := copies_eq_nil negative condition.1 condition.2
    rw [order, List.append_eq_nil_iff] at nothing
    rw [nothing.1]
    exact fun address changed => absurd rfl changed
  · rename_i nonnegative
    have covers := copies_cover (Int.not_lt.mp nonnegative)
    rw [order] at covers
    obtain ⟨middle, upper, first⟩ := covers.of_append
    rcases condition with empty | ⟨enough, lower, shift⟩
    · apply first.contained framed (by omega)
      intro address _ _ _ below
      omega
    · rw [← numPages_eq, ← pages] at enough
      apply first.contained framed (by omega)
      intro address entry frame _ below found named
      exact targets_inside framed ascending pages small lower shift (by omega) found named

end AddrSpace

/-! ## Page tables under construction -/

/-- The file which a constructor has opened and not yet finished with. -/
def LoadPoint.file : LoadPoint → Option Executable
  | .acquiring file => some file
  | .checking file => some file
  | .allocating file _ => some file
  | .loading file _ => some file
  | _ => none

namespace Loading

variable {ι : Type}

/-- How far page tables are filled, and that all frames up to one which has
been given out are in use. -/
structure Orderly (state : Loading ι) : Prop where
  short : ∀ thread file pageTable,
    state.points thread = .allocating file pageTable →
    pageTable.length ≤ AddrSpace.numPages file.header
  full : ∀ thread file pageTable,
    state.points thread = .loading file pageTable →
    pageTable.length = AddrSpace.numPages file.header
  below : ∀ thread, ∀ page ∈ (state.points thread).frames,
    ∀ frame : Fin numPhysPages, frame.val ≤ page.toNat → state.gPhysPageBitMap.test frame = true
  ascending : ∀ thread, AddrSpace.Ascending (state.points thread).pageTable

theorem idle_orderly (gPhysPageBitMap : BitMap numPhysPages) (mainMemory : Nat → Byte) :
    Orderly (idle gPhysPageBitMap mainMemory : Loading ι) where
  short := nofun
  full := nofun
  below := nofun
  ascending := fun _ => List.Pairwise.nil

variable {state : Loading ι}

theorem Sound.framed (sound : Sound state) (thread : ι) :
    AddrSpace.Framed (state.points thread).pageTable := by
  intro entry member
  obtain ⟨frame, named, -⟩ := sound.marked thread entry.physicalPage (List.mem_map_of_mem member)
  exact ⟨frame, named⟩

theorem Sound.length_le (sound : Sound state) (thread : ι) :
    (state.points thread).pageTable.length ≤ numPhysPages := by
  have within : (state.points thread).frames ⊆ (List.finRange numPhysPages).map frameWord := by
    intro page member
    obtain ⟨frame, rfl, -⟩ := sound.marked thread page member
    exact List.mem_map_of_mem (List.mem_finRange frame)
  have most := ((sound.distinct thread).subperm within).length_le
  simpa [LoadPoint.frames] using most

variable {file : Executable} {pageTable : List TranslationEntry} {thread : ι}

theorem copies_contained (sound : Sound state) (orderly : Orderly state)
    (loading : state.points thread = .loading file pageTable)
    (fits : AddrSpace.ImageFits file.header) {done rest : List AddrSpace.Copy}
    (order : AddrSpace.copies file.header = done ++ rest)
    (mainMemory : Nat → Byte) :
    AddrSpace.Contained pageTable mainMemory
      (AddrSpace.copyAll file pageTable done mainMemory) := by
  have framed := sound.framed thread
  have ascending := orderly.ascending thread
  have most := sound.length_le thread
  have pages := orderly.full thread file pageTable loading
  rw [loading] at framed ascending most
  refine fits.contained framed ascending pages ?_ order mainMemory
  change pageTable.length ≤ 128 at most
  rw [pages, AddrSpace.numPages_eq, show pageSize = 512 from rfl] at most
  rw [show memorySize = 65536 from rfl]
  omega

variable [DecidableEq ι]

theorem Orderly.move (orderly : Orderly state) {point : LoadPoint}
    {lock : Semaphore ι} {mainMemory : Nat → Byte}
    (table : point.pageTable = (state.points thread).pageTable ∨ point.pageTable = [])
    (short : ∀ file pageTable, point = .allocating file pageTable →
      pageTable.length ≤ AddrSpace.numPages file.header)
    (full : ∀ file pageTable, point = .loading file pageTable →
      pageTable.length = AddrSpace.numPages file.header) :
    Orderly { state with
      addrLock := lock
      mainMemory := mainMemory
      points := update state.points thread point } := by
  have tables : ∀ other,
      (update state.points thread point other).pageTable =
        (state.points other).pageTable ∨
      (update state.points thread point other).pageTable = [] :=
    update_cases table fun _ _ => .inl rfl
  refine ⟨?_, ?_, ?_, ?_⟩ <;> dsimp only
  · exact update_cases short fun other _ => orderly.short other
  · exact update_cases full fun other _ => orderly.full other
  · intro other page member
    unfold LoadPoint.frames at member
    rcases tables other with same | empty
    · rw [same] at member
      exact orderly.below other page member
    · rw [empty] at member
      cases member
  · intro other
    rcases tables other with same | empty
    · simp only [same]
      exact orderly.ascending other
    · simp only [empty]
      exact List.Pairwise.nil

theorem Orderly.take (orderly : Orderly state) {frame : Fin numPhysPages}
    (allocating : state.points thread = .allocating file pageTable)
    (more : pageTable.length < AddrSpace.numPages file.header)
    (unset : state.gPhysPageBitMap.test frame = false)
    (least : ∀ other, other < frame → state.gPhysPageBitMap.test other = true) :
    Orderly (state.taken thread file pageTable frame) := by
  have named : (AddrSpace.entry pageTable.length frame.val).physicalPage =
      frameWord frame := by
    simp [AddrSpace.entry, frameWord]
  refine ⟨?_, ?_, ?_, ?_⟩ <;> simp only [taken]
  · refine update_cases ?_ fun other _ => orderly.short other
    rintro _ _ ⟨⟩
    simp only [List.length_append, List.length_singleton]
    omega
  · exact update_cases (by rintro _ _ ⟨⟩) fun other _ => orderly.full other
  · simp only [BitMap.test_mark]
    refine update_cases ?_ fun other _ page member lower le => ?_
    · intro page member lower le
      rw [frames_append, List.mem_append, List.mem_singleton, ← allocating] at member
      rcases member with old | rfl
      · rw [orderly.below thread page old lower le, Bool.or_true]
      · rw [frameWord_toNat] at le
        rcases Nat.lt_or_eq_of_le le with less | same
        · rw [least lower less, Bool.or_true]
        · simp [Fin.ext same]
    · rw [orderly.below other page member lower le, Bool.or_true]
  · refine update_cases ?_ fun other _ => orderly.ascending other
    have before := orderly.ascending thread
    have kept := orderly.below thread
    rw [allocating] at before kept
    refine List.pairwise_map.mpr (List.pairwise_append.mpr
      ⟨List.pairwise_map.mp before, List.pairwise_singleton _ _, ?_⟩)
    intro entry member last single
    rw [List.mem_singleton.mp single, named, frameWord_toNat]
    by_contra above
    have set := kept entry.physicalPage (List.mem_map_of_mem member) frame (by omega)
    rw [unset] at set
    cases set

theorem Orderly.next {after : Loading ι} (orderly : Orderly state)
    {event : LoadEvent ι} (step : Step state event after) :
    Orderly after := by
  cases step.moves with
  | unopened absent | begin absent valid | enter awake acquiring available
  | refuse awake checking tooLarge | refused awake refusing | destroyed ready =>
    exact orderly.move (.inr rfl) nofun nofun
  | sleep awake acquiring unavailable =>
    exact ⟨orderly.short, orderly.full, orderly.below, orderly.ascending⟩
  | grant awake checking fits =>
    refine orderly.move (.inr rfl) ?_ nofun
    intro file pageTable same
    cases same
    exact Nat.zero_le _
  | take awake allocating more unset below =>
    exact orderly.take allocating more unset below
  | leave awake allocating done =>
    refine orderly.move (.inl ?_) nofun ?_
    · rw [allocating]
      rfl
    · intro file pageTable same
      cases same
      exact Nat.le_antisymm (orderly.short _ _ _ allocating) done
  | loaded awake loading copied =>
    refine orderly.move (.inl ?_) nofun nofun
    rw [loading]
    rfl

/-- The constructor of a thread changes only bytes of frames which it has
taken from the free ones, whatever its next step is, and its copies read
only entries of the page table and write only into its frames, also if they
end in the middle. -/
structure Confined (state : Loading ι) (thread : ι) : Prop where
  changed : ∀ after, Step state (.run thread) after →
    ∀ address, after.mainMemory address ≠ state.mainMemory address →
      ∃ page ∈ (after.points thread).frames, address / pageSize = page.toNat
  taken : ∀ after, Step state (.run thread) after →
    ∀ page ∈ (after.points thread).frames,
      page ∈ (state.points thread).frames ∨
        ∃ frame, page = frameWord frame ∧ state.gPhysPageBitMap.test frame = false
  copies : ∀ file pageTable,
    state.points thread = .loading file pageTable →
    pageTable.length = AddrSpace.numPages file.header ∧
    ∀ done rest, AddrSpace.copies file.header = done ++ rest →
      ∀ mainMemory, AddrSpace.Contained pageTable mainMemory
        (AddrSpace.copyAll file pageTable done mainMemory)

theorem confined_of_fits (sound : Sound state) (orderly : Orderly state)
    (opened : (state.points thread).file = some file)
    (fits : AddrSpace.ImageFits file.header) : Confined state thread := by
  refine ⟨?_, ?_, ?_⟩
  · intro after step address changed
    cases step.moves with
    | @take _ file pageTable frame awake allocating more unset below =>
      simp only [Loading.taken, update_self] at changed ⊢
      refine ⟨frameWord frame, ?_, ?_⟩
      · rw [frames_append]
        simp
      · rw [frameWord_toNat]
        by_contra elsewhere
        apply changed
        apply splice_outside
        rw [List.length_replicate]
        rw [show pageSize = 512 from rfl] at elsewhere ⊢
        omega
    | @loaded _ other pageTable mainMemory awake loading copied =>
      rw [loading] at opened
      cases opened
      have contained := copies_contained sound orderly loading fits
        (List.append_nil _).symm state.mainMemory
      rw [← AddrSpace.load_eq, copied] at contained
      obtain ⟨entry, member, frame⟩ := contained address changed
      simp only [setPoint, update_self]
      exact ⟨_, List.mem_map_of_mem member, frame⟩
    | _ => exact absurd rfl changed
  · intro after step page member
    cases step.moves with
    | @take _ file pageTable frame awake allocating more unset below =>
      simp only [Loading.taken, update_self] at member
      rw [frames_append, ← allocating, List.mem_append, List.mem_singleton] at member
      rcases member with old | rfl
      · exact .inl old
      · exact .inr ⟨frame, rfl, unset⟩
    | leave awake allocating done =>
      simp only [release, setPoint, update_self] at member
      rw [allocating]
      exact .inl member
    | loaded awake loading copied =>
      simp only [setPoint, update_self] at member
      rw [loading]
      exact .inl member
    | sleep awake acquiring unavailable => exact .inl member
    | _ =>
      simp only [release, setPoint, update_self] at member
      cases member
  · intro other pageTable loading
    rw [loading] at opened
    cases opened
    exact ⟨orderly.full thread file pageTable loading, fun done rest order =>
        copies_contained sound orderly loading fits order⟩

end Loading

end Nachos
