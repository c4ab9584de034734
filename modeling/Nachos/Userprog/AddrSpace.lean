import Nachos.BitMap
import Nachos.Lib.Semaphore
import Nachos.Lib.Transition
import Nachos.Machine.Memory

/-!
# Address spaces

The constructor of `AddrSpace` reads the header of a NOFF file, takes the
frames for the whole program between `P` and `V` of `addrLock`, and then
copies the code and the initialised data into them.  Any number of threads
can be in the constructor; `Loading` lets them take turns between any two of
its steps, also inside the loop which takes the frames.
-/

open Words Memory Semaphores Transition

namespace Nachos

structure Segment where
  virtualAddr : Word
  inFileAddr : Word
  size : Word

structure NoffHeader where
  noffMagic : Word
  code : Segment
  initData : Segment
  uninitData : Segment

/-- An open program file, with what the header variable on the stack of the
constructor holds before it is read. -/
structure Executable where
  contents : List Byte
  fresh : Nat → Byte

namespace Executable

def noffMagic : Word := 0xbadfad#32

/-- The bytes of the header variable after the read. -/
def headerBytes (file : Executable) (index : Nat) : Byte :=
  file.contents.getD index (file.fresh index)

def segmentAt (file : Executable) (offset : Nat) : Segment where
  virtualAddr := wordAt file.headerBytes offset
  inFileAddr := wordAt file.headerBytes (offset + 4)
  size := wordAt file.headerBytes (offset + 8)

def header (file : Executable) : NoffHeader where
  noffMagic := wordAt file.headerBytes 0
  code := file.segmentAt 4
  initData := file.segmentAt 16
  uninitData := file.segmentAt 28

/-- `ReadAt` of the stub into main memory. -/
def readInto (file : Executable) (mainMemory : Nat → Byte) (target : Int)
    (numBytes position : Word) : Result (Nat → Byte) := do
  assert (0 ≤ position.toInt)
  let bytes := (file.contents.drop position.toNat).take numBytes.toInt.toNat
  if bytes = [] then return mainMemory
  else if 0 ≤ target ∧ target + bytes.length ≤ memorySize then
    return splice mainMemory target.toNat bytes
  else .error .bounds

end Executable

namespace AddrSpace

def userStackSize : Word := 1024#32

def pageSizeWord : Word := BitVec.ofNat 32 pageSize

/-- `divRoundUp(size, PageSize)` for the size of the address space, which is
unsigned. -/
def numPages (header : NoffHeader) : Nat :=
  let size := header.code.size + header.initData.size + header.uninitData.size + userStackSize
  size.toNat / pageSize + if size.toNat % pageSize > 0 then 1 else 0

/-- The entry for page `index`. -/
def entry (index : Nat) (physicalPage : Int) : TranslationEntry where
  virtualPage := BitVec.ofNat 32 index
  physicalPage := BitVec.ofInt 32 physicalPage
  valid := true
  readOnly := false
  use := false
  dirty := false

/-- The sizes which the constructor computes before it copies. -/
structure Layout where
  numCodePage : Word
  lastCodePageSize : Word
  numDataPage : Word
  lastDataPageSize : Word
  firstDataPageSize : Word

def layout (header : NoffHeader) : Layout :=
  let numCodePage :=
    BitVec.ofInt 32 (divRoundUp header.code.size.toInt pageSize)
  let lastCodePageSize :=
    header.code.size - (numCodePage - 1#32) * pageSizeWord
  let tempDataSize :=
    header.initData.size - (pageSizeWord - lastCodePageSize)
  if tempDataSize.toInt < 0 then
    { numCodePage := numCodePage
      lastCodePageSize := lastCodePageSize
      numDataPage := 0#32
      lastDataPageSize := 0#32
      firstDataPageSize := header.initData.size }
  else
    let numDataPage :=
      BitVec.ofInt 32 (divRoundUp tempDataSize.toInt pageSize)
    { numCodePage := numCodePage
      lastCodePageSize := lastCodePageSize
      numDataPage := numDataPage
      lastDataPageSize :=
        tempDataSize - (numDataPage - 1#32) * pageSizeWord
      firstDataPageSize := pageSizeWord - lastCodePageSize }

/-- `&mainMemory[code.virtualAddr] + pageTable[index].physicalPage *
PageSize`. -/
def pageAddress (header : NoffHeader) (pageTable : List TranslationEntry)
    (index : Nat) : Result Int := do
  let entry ← inBounds pageTable[index]?
  return header.code.virtualAddr.toInt + (entry.physicalPage * pageSizeWord).toInt

/-- The loop over the code pages, with the number of pages left. -/
def loadCode (file : Executable) (pageTable : List TranslationEntry) :
    Nat → Nat → (Nat → Byte) → Result (Nat → Byte)
  | 0, _, mainMemory => .ok mainMemory
  | left + 1, i, mainMemory => do
    let header := file.header
    let sizes := layout header
    if 0 < header.code.size.toInt then
      let target ← pageAddress header pageTable i
      let index := BitVec.ofNat 32 i
      let count := if index < sizes.numCodePage - 1#32 then pageSizeWord
        else sizes.lastCodePageSize
      let mainMemory ← file.readInto mainMemory target count
        (header.code.inFileAddr + index * pageSizeWord)
      loadCode file pageTable left (i + 1) mainMemory
    else loadCode file pageTable left (i + 1) mainMemory

/-- The start of the initialised data goes behind the code on its last
page. -/
def loadFirstData (file : Executable) (pageTable : List TranslationEntry)
    (mainMemory : Nat → Byte) : Result (Nat → Byte) :=
  let header := file.header
  let sizes := layout header
  if sizes.lastCodePageSize.toInt < pageSize ∧ 0 < sizes.firstDataPageSize.toInt then do
    let target ← pageAddress header pageTable (sizes.numCodePage - 1#32).toNat
    file.readInto mainMemory (target + sizes.lastCodePageSize.toInt)
      sizes.firstDataPageSize header.initData.inFileAddr
  else .ok mainMemory

/-- The loop over the other pages of initialised data, with the number of
pages left. -/
def loadData (file : Executable) (pageTable : List TranslationEntry) :
    Nat → Nat → (Nat → Byte) → Result (Nat → Byte)
  | 0, _, mainMemory => .ok mainMemory
  | left + 1, j, mainMemory => do
    let header := file.header
    let sizes := layout header
    if 0 < header.initData.size.toInt then
      let index := BitVec.ofNat 32 j
      let target ← pageAddress header pageTable (sizes.numCodePage + index).toNat
      let count := if index < sizes.numDataPage - 1#32 then pageSizeWord
        else sizes.lastDataPageSize
      let mainMemory ← file.readInto mainMemory target count
        (header.initData.inFileAddr + index * pageSizeWord + sizes.firstDataPageSize)
      loadData file pageTable left (j + 1) mainMemory
    else loadData file pageTable left (j + 1) mainMemory

/-- The copies at the end of the constructor. -/
def load (file : Executable) (pageTable : List TranslationEntry)
    (mainMemory : Nat → Byte) : Result (Nat → Byte) := do
  let sizes := layout file.header
  let mainMemory ←
    loadCode file pageTable sizes.numCodePage.toNat 0 mainMemory
  let mainMemory ← loadFirstData file pageTable mainMemory
  loadData file pageTable sizes.numDataPage.toNat 0 mainMemory

end AddrSpace

/-- Where a thread is in the constructor of its address space. -/
inductive LoadPoint where
  | absent
  | acquiring (file : Executable)
  | checking (file : Executable)
  | refusing
  | allocating (file : Executable) (pageTable : List TranslationEntry)
  | loading (file : Executable) (pageTable : List TranslationEntry)
  | ready (pageTable : Option (List TranslationEntry))

/-- The threads which construct or have address spaces, with what they
share. -/
structure Loading (ι : Type) where
  gPhysPageBitMap : BitMap numPhysPages
  addrLock : Semaphore ι
  mainMemory : Nat → Byte
  points : ι → LoadPoint

/-- A thread calls the constructor for a file which opens or not, takes its
next step, or is deleted together with its address space. -/
inductive LoadEvent (ι : Type) where
  | start (thread : ι) (file : Option Executable)
  | run (thread : ι)
  | destroy (thread : ι)

namespace Loading

variable {ι : Type} [DecidableEq ι]

def boot (freshWords : Fin (numWords numPhysPages) → Word)
    (mainMemory : Nat → Byte) : Loading ι where
  gPhysPageBitMap := BitMap.new freshWords
  addrLock := Semaphore.new 1
  mainMemory := mainMemory
  points := fun _ => .absent

def setPoint (state : Loading ι) (thread : ι) (point : LoadPoint) :
    Loading ι :=
  { state with points := Function.update state.points thread point }

/-- Open the file and check the magic number.  A constructor which cannot
open its file leaves the page table unset; a wrong magic number aborts the
machine. -/
def start (state : Loading ι) (thread : ι) : Option Executable → Option (Loading ι)
  | none => some (state.setPoint thread (.ready none))
  | some file =>
    if file.header.noffMagic = Executable.noffMagic then
      some (state.setPoint thread (.acquiring file))
    else none

/-- `addrLock->P()`: take the lock or go to sleep. -/
def acquire (state : Loading ι) (thread : ι) (file : Executable) :
    Loading ι :=
  match state.addrLock.take with
  | some taken =>
    { state.setPoint thread (.checking file) with addrLock := taken }
  | none => { state with addrLock := state.addrLock.sleep thread }

/-- The comparison of `numPages` with the number of clear bits. -/
def check (state : Loading ι) (thread : ι) (file : Executable) :
    Loading ι :=
  if AddrSpace.numPages file.header > state.gPhysPageBitMap.numClear then
    state.setPoint thread .refusing
  else state.setPoint thread (.allocating file [])

/-- One round of the loop: take a frame, enter it and clear it.  The frame
`-1` lies outside main memory. -/
def allocate (state : Loading ι) (thread : ι) (file : Executable)
    (pageTable : List TranslationEntry) : Option (Loading ι) :=
  let (frame, bits) := state.gPhysPageBitMap.find
  if 0 ≤ frame then
    some { state with
      gPhysPageBitMap := bits
      mainMemory := splice state.mainMemory (frame.toNat * pageSize) (List.replicate pageSize 0#8)
      points := Function.update state.points thread (.allocating file
          (pageTable ++ [AddrSpace.entry pageTable.length frame])) }
  else none

/-- `addrLock->V()` and what follows it. -/
def release (state : Loading ι) (thread : ι) (point : LoadPoint) :
    Loading ι :=
  { state.setPoint thread point with addrLock := state.addrLock.release }

/-- The next step of a thread which is not asleep. -/
def run (state : Loading ι) (thread : ι) : Option (Loading ι) :=
  match state.points thread with
  | .acquiring file => some (state.acquire thread file)
  | .checking file => some (state.check thread file)
  | .refusing => some (state.release thread (.ready none))
  | .allocating file pageTable =>
    if pageTable.length < AddrSpace.numPages file.header then
      state.allocate thread file pageTable
    else some (state.release thread (.loading file pageTable))
  | .loading file pageTable =>
    match AddrSpace.load file pageTable state.mainMemory with
    | .ok mainMemory =>
      some { state.setPoint thread (.ready (some pageTable)) with
        mainMemory := mainMemory }
    | .error _ => none
  | .absent => none
  | .ready _ => none

/-- One event; there is no next state if it is not possible or the machine
stops.  `~AddrSpace` deletes the page table and does nothing else. -/
def next (state : Loading ι) : LoadEvent ι → Option (Loading ι)
  | .start thread file =>
    match state.points thread with
    | .absent => state.start thread file
    | _ => none
  | .run thread =>
    if thread ∈ state.addrLock.queue then none else state.run thread
  | .destroy thread =>
    match state.points thread with
    | .ready _ => some (state.setPoint thread .absent)
    | _ => none

abbrev Step (before : Loading ι) (event : LoadEvent ι) (after : Loading ι) : Prop :=
  before.next event = some after

end Loading

end Nachos
