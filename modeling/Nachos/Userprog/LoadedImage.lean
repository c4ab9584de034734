import Nachos.Userprog.LoadEscapes

/-!
# The address space of a loaded program

The constructor clears every frame which it takes and copies the code and
the initialised data behind each other from address 0 on.  If the program is
linked to start there, the user sees through the new page table its code, its
initialised data and then only zeros, wherever the segments end within their
pages.
-/

open Words Memory Semaphores Transition Function

namespace Nachos

namespace AddrSpace

/-- All bytes of the segment are in the file. -/
def Present (file : Executable) (segment : Segment) : Prop :=
  ∀ index : Nat, (index : Int) < segment.size.toInt →
    0 ≤ segment.inFileAddr.toInt + index ∧
    segment.inFileAddr.toInt + index < file.contents.length

def segmentByte (file : Executable) (segment : Segment) (index : Int) :
    Byte :=
  file.contents.getD (segment.inFileAddr.toInt + index).toNat 0#8

/-- A program which is linked to start at address 0 and is in the file as a
whole.  Where the header places the other segments does not matter, as the
constructor does not look at it.  Positions in a file are host integers. -/
structure Linked (file : Executable) : Prop where
  magic : file.header.noffMagic = Executable.noffMagic
  codeSize : 0 ≤ file.header.code.size.toInt
  dataSize : 0 ≤ file.header.initData.size.toInt
  restSize : 0 ≤ file.header.uninitData.size.toInt
  base : file.header.code.virtualAddr = 0#32
  code : Present file file.header.code
  initData : Present file file.header.initData
  short : file.contents.length ≤ 2147483648

/-- The byte which the program expects at an address. -/
def expectedByte (file : Executable) (address : Nat) : Byte :=
  if (address : Int) < file.header.code.size.toInt then
    segmentByte file file.header.code address
  else if (address : Int) < file.header.code.size.toInt + file.header.initData.size.toInt then
    segmentByte file file.header.initData (address - file.header.code.size.toInt)
  else 0#8

/-- The user finds the program behind the page table. -/
def Shows (file : Executable) (pageTable : List TranslationEntry)
    (mainMemory : Nat → Byte) : Prop :=
  ∀ address, address < pageTable.length * pageSize →
    ∃ place mmu, Mmu.translate ⟨some pageTable, none⟩ (BitVec.ofNat 32 address) 1
        false = .ok (place, mmu) ∧
      mainMemory place = expectedByte file address

/-- The memory which all segments and the stack take. -/
def programSize (header : NoffHeader) : Int :=
  header.code.size.toInt + header.initData.size.toInt +
    header.uninitData.size.toInt + userStackSize.toInt

/-! ## The image -/

theorem Linked.imageSize_eq {file : Executable} (linked : Linked file) :
    (imageSize file.header : Int) =
      file.header.code.size.toInt + file.header.initData.size.toInt := by
  have codeSize := linked.codeSize
  have dataSize := linked.dataSize
  have gapBounds := gap_bounds file.header
  have size : pageSize = 512 := rfl
  have regular : ¬Overflows file.header := by
    unfold Overflows
    omega
  simp only [imageSize, if_neg regular]
  split <;> omega

theorem Linked.complete {file : Executable} (linked : Linked file) :
    Complete file (imageSize file.header) := by
  intro address below
  have size := linked.imageSize_eq
  have short := linked.short
  unfold filePosition
  split
  · have present := linked.code address (by omega)
    omega
  · have present := linked.initData (address - file.header.code.size.toInt).toNat (by omega)
    omega

theorem Linked.imageByte_eq {file : Executable} (linked : Linked file)
    {address : Nat} (below : address < imageSize file.header) :
    imageByte file address = expectedByte file address := by
  have size := linked.imageSize_eq
  unfold imageByte filePosition expectedByte segmentByte
  split
  · rfl
  · rw [if_pos (by omega)]

theorem Linked.expectedByte_behind {file : Executable} (linked : Linked file) {address : Nat}
    (behind : imageSize file.header ≤ address) :
    expectedByte file address = 0#8 := by
  have size := linked.imageSize_eq
  have dataSize := linked.dataSize
  unfold expectedByte
  rw [if_neg (by omega), if_neg (by omega)]

/-- The sizes of a program which fits into memory add up without a wrap. -/
theorem Linked.spaceSize_eq {file : Executable} (linked : Linked file)
    (fits : programSize file.header ≤ memorySize) :
    (spaceSize file.header : Int) = programSize file.header := by
  have codeSize := linked.codeSize
  have dataSize := linked.dataSize
  have restSize := linked.restSize
  have memory : memorySize = 65536 := rfl
  have stack : userStackSize.toNat = 1024 := rfl
  have stackInt : userStackSize.toInt = 1024 := rfl
  have codeValue := toInt_eq_toNat codeSize
  have dataValue := toInt_eq_toNat dataSize
  have restValue := toInt_eq_toNat restSize
  unfold programSize at fits ⊢
  simp only [spaceSize, BitVec.toNat_add]
  omega

/-- A program which fits into the clear frames gets enough pages. -/
theorem Linked.programSize_le {file : Executable} (linked : Linked file)
    {clear : Nat} (few : clear ≤ numPhysPages)
    (fits : programSize file.header ≤ clear * pageSize) :
    numPages file.header ≤ clear ∧
      programSize file.header ≤ (numPages file.header * pageSize : Nat) := by
  have page : pageSize = 512 := rfl
  have frames : numPhysPages = 128 := rfl
  have memory : memorySize = 65536 := rfl
  rw [page] at fits
  have size := linked.spaceSize_eq (by omega)
  rw [numPages_eq, page]
  omega

theorem Linked.numPages_le {file : Executable} (linked : Linked file)
    {clear : Nat} (few : clear ≤ numPhysPages)
    (fits : programSize file.header ≤ clear * pageSize) :
    numPages file.header ≤ clear ∧ imageSize file.header ≤ numPages file.header * pageSize := by
  obtain ⟨enough, covered⟩ := linked.programSize_le few fits
  have restSize := linked.restSize
  have image := linked.imageSize_eq
  have stack : userStackSize.toInt = 1024 := rfl
  unfold programSize at covered
  exact ⟨enough, by omega⟩

/-! ## Frames which have been cleared -/

/-- A page table with different frames, which are marked and empty. -/
structure Prepared (pageTable : List TranslationEntry)
    (bits : BitMap numPhysPages) (mainMemory : Nat → Byte) : Prop where
  marked : ∀ entry ∈ pageTable, ∃ frame,
    entry.physicalPage = frameWord frame ∧ bits.test frame = true
  usable : ∀ entry ∈ pageTable, entry.valid = true ∧ entry.readOnly = false
  distinct : (pageTable.map TranslationEntry.physicalPage).Nodup
  cleared : ∀ place, InFrames pageTable place → mainMemory place = 0#8

namespace Prepared

variable {pageTable : List TranslationEntry} {bits : BitMap numPhysPages} {mainMemory : Nat → Byte}

theorem nil : Prepared [] bits mainMemory := by
  constructor
  · simp
  · simp
  · exact List.nodup_nil
  · rintro place ⟨entry, member, _⟩
    cases member

theorem framed (prepared : Prepared pageTable bits mainMemory) :
    Framed pageTable := by
  intro entry member
  obtain ⟨frame, named, -⟩ := prepared.marked entry member
  exact ⟨frame, named⟩

theorem take (prepared : Prepared pageTable bits mainMemory)
    {frame : Fin numPhysPages} (unset : bits.test frame = false)
    (index : Nat) :
    Prepared (pageTable ++ [entry index frame.val]) (bits.mark frame)
      (splice mainMemory (frame.val * pageSize) (List.replicate pageSize 0#8)) := by
  have named : (entry index frame.val).physicalPage = frameWord frame :=
    BitVec.ofInt_natCast ..
  constructor
  · intro entry member
    rcases List.mem_append.mp member with before | last
    · obtain ⟨other, known, set⟩ := prepared.marked entry before
      exact ⟨other, known, by simp [set]⟩
    · rw [List.mem_singleton.mp last]
      exact ⟨frame, named, by simp⟩
  · intro entry member
    rcases List.mem_append.mp member with before | last
    · exact prepared.usable entry before
    · rw [List.mem_singleton.mp last]
      exact ⟨rfl, rfl⟩
  · rw [List.map_append, List.map_singleton, named]
    apply List.Nodup.append prepared.distinct (List.nodup_singleton _)
    rw [List.disjoint_singleton]
    intro member
    obtain ⟨entry, known, same⟩ := List.mem_map.mp member
    obtain ⟨other, otherNamed, set⟩ := prepared.marked entry known
    rw [otherNamed] at same
    rw [frameWord_injective same, unset] at set
    cases set
  · rintro place ⟨entry, member, page⟩
    have size : pageSize = 512 := rfl
    by_cases inside : place / pageSize = frame.val
    · rw [splice_inside]
      · apply List.getD_replicate
        rw [size] at inside ⊢
        omega
      · rw [size] at inside ⊢
        omega
      · rw [List.length_replicate, size]
        rw [size] at inside
        omega
    · rw [splice_outside]
      · apply prepared.cleared
        rcases List.mem_append.mp member with before | last
        · exact ⟨entry, before, page⟩
        · rw [List.mem_singleton.mp last, named, frameWord_toNat] at page
          exact absurd page inside
      · rw [List.length_replicate, size]
        rw [size] at inside
        omega

end Prepared

/-! ## The copies -/

section

variable {file : Executable} {pageTable : List TranslationEntry}
  {bits : BitMap numPhysPages} {mainMemory : Nat → Byte}

/-- Without a displacement a byte of the image goes to its place in the frame
of its page. -/
theorem Linked.byteTarget_eq (linked : Linked file) (frame : Fin numPhysPages) (address : Nat) :
    byteTarget file.header frame address =
      ((frame.val * pageSize + address % pageSize : Nat) : Int) := by
  have base : file.header.code.virtualAddr.toInt = 0 := by
    rw [linked.base]
    rfl
  unfold byteTarget
  omega

theorem place_lt (frame : Fin numPhysPages) (address : Nat) :
    frame.val * pageSize + address % pageSize < memorySize := by
  have below := frame.isLt
  have page : pageSize = 512 := rfl
  have frames : numPhysPages = 128 := rfl
  have memory : memorySize = 65536 := rfl
  rw [page, memory]
  omega

theorem Linked.load (linked : Linked file) (prepared : Prepared pageTable bits mainMemory)
    (room : imageSize file.header ≤ pageTable.length * pageSize) :
    ∃ after, load file pageTable mainMemory = .ok after ∧
      ∀ address entry frame,
        pageTable[address / pageSize]? = some entry →
        entry.physicalPage = frameWord frame →
        after (frame.val * pageSize + address % pageSize) =
          expectedByte file address := by
  have covers := copies_cover linked.codeSize
  rw [load_eq]
  cases result : copyAll file pageTable (copies file.header) mainMemory with
  | error fault =>
    have contained := covers.contained prepared.framed room (by
      intro address entry frame _ below found named
      refine ⟨_, (linked.byteTarget_eq frame address).symm,
        place_lt frame address, entry, List.mem_of_getElem? found, ?_⟩
      rw [named, frameWord_toNat]
      have page : pageSize = 512 := rfl
      rw [page]
      omega) mainMemory
    rw [result] at contained
    exact absurd (covers.bounds_of_error linked.complete prepared.framed result) contained
  | ok after =>
    have copied := covers.copied linked.complete prepared.framed prepared.distinct result
    refine ⟨after, rfl, ?_⟩
    intro address entry frame found named
    by_cases below : address < imageSize file.header
    · obtain ⟨entry', frame', target, found', named', place, -, stored⟩ :=
        copied.image address (Nat.zero_le _) below
      rw [found] at found'
      cases found'
      rw [named] at named'
      rw [← frameWord_injective named', linked.byteTarget_eq] at place
      rw [← linked.imageByte_eq below, ← stored, Int.ofNat_inj.mp place]
    · rw [linked.expectedByte_behind (not_lt.mp below), copied.rest]
      · apply prepared.cleared
        refine ⟨entry, List.mem_of_getElem? found, ?_⟩
        rw [named, frameWord_toNat]
        have page : pageSize = 512 := rfl
        rw [page]
        omega
      · intro other entry' frame' _ inside found' named' same
        rw [← linked.byteTarget_eq] at same
        have equal := byteTarget_injective prepared.distinct found named found' named' same
        omega

theorem translate_eq {address : Nat} {entry : TranslationEntry}
    {frame : Fin numPhysPages} (small : address < 4294967296)
    (found : pageTable[address / pageSize]? = some entry)
    (usable : entry.valid = true ∧ entry.readOnly = false)
    (named : entry.physicalPage = frameWord frame) :
    ∃ mmu, Mmu.translate ⟨some pageTable, none⟩ (BitVec.ofNat 32 address)
      1 false = .ok (frame.val * pageSize + address % pageSize, mmu) := by
  have value : (BitVec.ofNat 32 address).toNat = address :=
    Nat.mod_eq_of_lt small
  have inside : ¬frame.val ≥ numPhysPages := not_le.mpr frame.isLt
  have fits := Nat.succ_le_of_lt (place_lt frame address)
  simp only [Mmu.translate, Mmu.misaligned, value, found, usable,
    Mmu.translateEntry, named, frameWord_toNat, if_neg inside]
  rw [if_pos fits]
  exact ⟨_, rfl⟩

theorem Linked.shows (linked : Linked file) (prepared : Prepared pageTable bits mainMemory)
    (room : imageSize file.header ≤ pageTable.length * pageSize)
    (short : pageTable.length ≤ numPhysPages) :
    ∃ after, AddrSpace.load file pageTable mainMemory = .ok after ∧
      Shows file pageTable after := by
  obtain ⟨after, success, stored⟩ := linked.load prepared room
  refine ⟨after, success, ?_⟩
  intro address below
  have page : pageSize = 512 := rfl
  have frames : numPhysPages = 128 := rfl
  have inside : address / pageSize < pageTable.length := by
    rw [page] at below ⊢
    omega
  obtain ⟨entry, frame, found, named⟩ := prepared.framed.frame inside
  obtain ⟨mmu, translated⟩ := translate_eq (by rw [page] at below; omega)
    found (prepared.usable entry (List.mem_of_getElem? found)) named
  exact ⟨_, mmu, translated, stored address entry frame found named⟩

end

end AddrSpace

namespace Loading

variable {ι : Type} [DecidableEq ι]

/-- The thread, if it runs alone, gets a page table of the right length which
shows its program. -/
def LoadsImage (state : Loading ι) (thread : ι) (file : Executable) :
    Prop :=
  ∃ count final pageTable,
    replay next state (List.replicate count (.run thread)) = some final ∧
    final.points thread = .ready (some pageTable) ∧
    pageTable.length = AddrSpace.numPages file.header ∧
    AddrSpace.Shows file pageTable final.mainMemory

variable {state middle : Loading ι} {thread : ι} {file : Executable}
  {pageTable : List TranslationEntry}

theorem next_run_alone (alone : state.addrLock.queue = []) :
    state.next (.run thread) = state.run thread := by
  simp only [next, alone, List.not_mem_nil, if_false]

theorem next_check_eq (alone : state.addrLock.queue = [])
    (checking : state.points thread = .checking file)
    (enough : AddrSpace.numPages file.header ≤ state.gPhysPageBitMap.numClear) :
    state.next (.run thread) = some (state.setPoint thread (.allocating file [])) := by
  simp only [next_run_alone alone, run, checking, check, if_neg (not_lt.mpr enough)]

theorem next_start_eq (absent : state.points thread = .absent)
    (magic : file.header.noffMagic = Executable.noffMagic) :
    state.next (.start thread (some file)) = some (state.setPoint thread (.acquiring file)) := by
  simp only [next, absent, start, if_pos magic]

theorem next_acquire_eq (free : state.addrLock = .new 1)
    (acquiring : state.points thread = .acquiring file) :
    state.next (.run thread) = some { state.setPoint thread (.checking file) with
        addrLock := .new 0 } := by
  rw [next_run_alone (by rw [free]; rfl), run, acquiring]
  simp only [acquire, setPoint, free]
  rfl

theorem LoadsImage.of_step (step : state.next (.run thread) = some middle)
    (later : LoadsImage middle thread file) :
    LoadsImage state thread file := by
  obtain ⟨count, final, pageTable, replayed, rest⟩ := later
  exact ⟨count + 1, final, pageTable, replay_replicate_succ.mpr ⟨middle, step, replayed⟩, rest⟩

theorem loadsImage_loading (alone : state.addrLock.queue = [])
    (loading : state.points thread = .loading file pageTable)
    (length : pageTable.length = AddrSpace.numPages file.header)
    {after : Nat → Byte}
    (success : AddrSpace.load file pageTable state.mainMemory = .ok after)
    (shows : AddrSpace.Shows file pageTable after) :
    LoadsImage state thread file := by
  refine LoadsImage.of_step (by
    simp only [next_run_alone alone, run, loading, success]
    rfl) ⟨0, _, pageTable, rfl, ?_, length, shows⟩
  exact update_self ..

/-- The rounds of the loop which are left keep the page table prepared. -/
theorem loadsImage_allocating (linked : AddrSpace.Linked file)
    (room : AddrSpace.imageSize file.header ≤ AddrSpace.numPages file.header * pageSize)
    (short : AddrSpace.numPages file.header ≤ numPhysPages) {left : Nat}
    (alone : state.addrLock.queue = [])
    (allocating : state.points thread = .allocating file pageTable)
    (prepared : AddrSpace.Prepared pageTable state.gPhysPageBitMap state.mainMemory)
    (counted : pageTable.length + left = AddrSpace.numPages file.header)
    (enough : left ≤ state.gPhysPageBitMap.numClear) :
    LoadsImage state thread file := by
  induction left generalizing state pageTable with
  | zero =>
    have length : pageTable.length = AddrSpace.numPages file.header :=
      counted
    have full : ¬pageTable.length < AddrSpace.numPages file.header := by
      omega
    obtain ⟨after, success, shows⟩ := linked.shows prepared
      (by rw [length]; exact room) (by rw [length]; exact short)
    refine LoadsImage.of_step (by
      simp only [next_run_alone alone, run, allocating, if_neg full]
      rfl) ?_
    refine loadsImage_loading ?_ (update_self ..) length success shows
    simp only [release, Semaphore.release, setPoint, alone]
    rfl
  | succ left induction =>
    have more : pageTable.length < AddrSpace.numPages file.header := by
      omega
    obtain ⟨frame, unset, found⟩ :=
      @BitMap.find_of_clear _ state.gPhysPageBitMap (by omega)
    have fewer := BitMap.numClear_mark unset
    have step : state.next (.run thread) = some (state.taken thread file pageTable frame) := by
      simp only [next_run_alone alone, run, allocating, if_pos more, allocate_eq found]
      rfl
    apply LoadsImage.of_step step
    refine @induction (state.taken thread file pageTable frame)
      (pageTable ++ [AddrSpace.entry pageTable.length frame.val]) alone
      (update_self ..) (prepared.take unset _) ?_ ?_
    · rw [List.length_append, List.length_singleton]
      omega
    · simp only [taken]
      omega

section

variable (absent : state.points thread = .absent) (free : state.addrLock = .new 1)
  (linked : AddrSpace.Linked file)
  (fits : AddrSpace.programSize file.header ≤ state.gPhysPageBitMap.numClear * pageSize)
include absent free linked fits

theorem exists_loadsImage : ∃ begun, state.next (.start thread (some file)) = some begun ∧
    LoadsImage begun thread file := by
  obtain ⟨enough, room⟩ := linked.numPages_le (BitMap.numClear_le state.gPhysPageBitMap) fits
  refine ⟨_, next_start_eq absent linked.magic, ?_⟩
  refine LoadsImage.of_step (next_acquire_eq free (update_self ..)) ?_
  refine LoadsImage.of_step (next_check_eq rfl (update_self ..) enough) ?_
  exact loadsImage_allocating linked room (enough.trans
    (BitMap.numClear_le _)) rfl (update_self ..) .nil
    (Nat.zero_add _) enough

end

/-- A program which is linked to start at address 0, is in its file as a
whole and fits into the clear frames is loaded: behind the new page table are
its code, its initialised data, and zeros up to the end of its last page. -/
theorem constructor_loads_image (state : Loading ι) (thread : ι)
    (file : Executable) (absent : state.points thread = .absent)
    (free : state.addrLock = .new 1) (linked : AddrSpace.Linked file)
    (fits : AddrSpace.programSize file.header ≤ state.gPhysPageBitMap.numClear * pageSize) :
    ∃ begun, state.next (.start thread (some file)) = some begun ∧
      LoadsImage begun thread file :=
  exists_loadsImage absent free linked fits

/-- Four bytes of code and four of initialised data, which share a page. -/
def smallProgram : Executable where
  contents :=
    [0xad#8, 0xdf#8, 0xba#8, 0#8,
      0#8, 0#8, 0#8, 0#8, 40#8, 0#8, 0#8, 0#8, 4#8, 0#8, 0#8, 0#8,
      4#8, 0#8, 0#8, 0#8, 44#8, 0#8, 0#8, 0#8, 4#8, 0#8, 0#8, 0#8,
      8#8, 0#8, 0#8, 0#8, 48#8, 0#8, 0#8, 0#8, 4#8, 0#8, 0#8, 0#8,
      1#8, 2#8, 3#8, 4#8, 5#8, 6#8, 7#8, 8#8]
  fresh := fun _ => 0#8

theorem smallProgram_linked : AddrSpace.Linked smallProgram := by
  have codeSize : smallProgram.header.code.size.toInt = 4 := by decide
  have codeAddr : smallProgram.header.code.inFileAddr.toInt = 40 := by
    decide
  have dataSize : smallProgram.header.initData.size.toInt = 4 := by decide
  have dataAddr : smallProgram.header.initData.inFileAddr.toInt = 44 := by
    decide
  have length : smallProgram.contents.length = 48 := rfl
  constructor
  · decide
  · decide
  · decide
  · decide
  · decide
  · intro index inside
    omega
  · intro index inside
    omega
  · decide

theorem constructor_loads_image_small_program :
    ∃ begun, next (boot (fun _ => 0#32) fun _ => 0#8 : Loading Bool)
        (.start true (some smallProgram)) = some begun ∧
      LoadsImage begun true smallProgram :=
  constructor_loads_image _ true smallProgram rfl rfl smallProgram_linked (by decide +kernel)

end Loading

end Nachos
