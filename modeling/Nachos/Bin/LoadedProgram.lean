import Nachos.Bin.BssSections
import Nachos.Userprog.LoadedImage

/-!
# From a COFF file to memory

`coff2noff` writes the file which the constructor of `AddrSpace` reads.  The
constructor copies the code and the initialised data behind each other from
address 0 on and never looks at the address which the converter has recorded
for the data.  If the linker has placed the sections in this way, the two
programs together bring each section to its address.
-/

open Words Memory Transition Function

namespace Nachos

namespace Coff2Noff

/-- The end of the initialised data, or of the text without any. -/
def dataEnd (coff : List Byte) (text : Scnhdr) : Word :=
  match (ofKind .initialised (sectionsOf coff)).getLast? with
  | some data => data.sPaddr + data.sSize
  | none => text.sSize

/-- The file is linked with its text at address 0, its data right behind it,
and then one uninitialised section at most. -/
structure LinkedAtZero (coff : List Byte) (text : Scnhdr) : Prop where
  only : ofKind .text (sectionsOf coff) = [text]
  base : text.sPaddr = 0#32
  behind : ∀ data ∈ ofKind .initialised (sectionsOf coff), data.sPaddr = text.sSize
  inFile : ∀ scnhdr ∈ sectionsOf coff, scnhdr.InFile
  few : (bssOf coff).length ≤ 1
  last : ∀ bss ∈ bssOf coff, 0 ≤ bss.sSize.toInt ∧ bss.sPaddr = dataEnd coff text

/-- The section is linked to the address. -/
def Scnhdr.Occupies (scnhdr : Scnhdr) (address : Nat) : Prop :=
  scnhdr.sPaddr.toNat ≤ address ∧ address < scnhdr.sPaddr.toNat + scnhdr.sSize.toNat

instance (scnhdr : Scnhdr) (address : Nat) : Decidable (scnhdr.Occupies address) :=
  inferInstanceAs (Decidable (_ ∧ _))

/-- The section with bytes in the file which is linked to an address. -/
def linkedSection (coff : List Byte) (address : Nat) : Option Scnhdr :=
  (ofKind .text (sectionsOf coff) ++ ofKind .initialised (sectionsOf coff)).find? fun scnhdr =>
    scnhdr.Occupies address

/-- The byte which the linker has placed at an address. -/
def linkedByte (coff : List Byte) (address : Nat) : Byte :=
  match linkedSection coff address with
  | some scnhdr => coff.getD (scnhdr.sScnptr.toNat + (address - scnhdr.sPaddr.toNat)) 0#8
  | none => 0#8

variable {coff output : List Byte} {fresh : NoffHeader} {text scnhdr : Scnhdr} {segment : Segment}

theorem Placed.segmentByte {file : Executable} (placed : Placed coff file.contents segment scnhdr)
    {index : Nat} (inside : index < scnhdr.sSize.toNat) :
    AddrSpace.segmentByte file segment index = coff.getD (scnhdr.sScnptr.toNat + index) 0#8 := by
  obtain ⟨bytes, input, found⟩ := placed.bytes
  obtain ⟨nonneg, -, -, same⟩ := bytesAt_eq_some.mp found
  obtain ⟨-, -, -, copied⟩ := bytesAt_eq_some.mp input
  have byte := congrArg (·[index]?) (same.trans copied.symm)
  simp only [placed.size, List.getElem?_take, if_pos inside, List.getElem?_drop] at byte
  have place : (segment.inFileAddr.toInt + index).toNat = segment.inFileAddr.toNat + index := by
    rw [toInt_eq_toNat nonneg]
    omega
  rw [AddrSpace.segmentByte, place, List.getD_eq_getElem?_getD, List.getD_eq_getElem?_getD, byte]

theorem Holds.present (file : Executable) {sections : List Scnhdr}
    (holds : Holds coff file.contents segment sections) :
    0 ≤ segment.size.toInt ∧ AddrSpace.Present file segment := by
  cases sections with
  | nil =>
    rw [AddrSpace.Present, holds.1 rfl]
    refine ⟨by decide, ?_⟩
    intro index inside
    exact absurd inside (by simp)
  | cons scnhdr rest =>
    obtain ⟨-, -, -, bytes, -, found⟩ := holds.2 scnhdr (by simp)
    obtain ⟨nonneg, sizeNonneg, within, -⟩ := bytesAt_eq_some.mp found
    refine ⟨sizeNonneg, ?_⟩
    intro index inside
    rw [toInt_eq_toNat nonneg]
    rw [toInt_eq_toNat sizeNonneg] at inside
    omega

theorem noffMagic_of_turn {state after : Conversion} (turn : Turn loadSection state scnhdr after) :
    after.noffH.noffMagic = state.noffH.noffMagic := by
  cases loads_of_turn turn with
  | empty kind | uninitialised kind apart => rfl
  | text kind copied | initialised kind first copied =>
    obtain ⟨-, -, -, -, -, -, -, same⟩ := copyIn_inv copied
    exact congrArg (·.noffMagic) same

theorem known_of_run {fdIn : HostFile} {state : Conversion} {past : List Scnhdr}
    (run : Run (Turn loadSection) (start fresh fdIn) past state) :
    ∀ scnhdr ∈ past, scnhdr.kind ≠ .unknown := by
  refine run.history (fun past _ => ∀ scnhdr ∈ past, scnhdr.kind ≠ .unknown) (by simp) ?_
  intro past before scnhdr after known turn other member
  rcases List.mem_append.mp member with old | new
  · exact known other old
  · rw [List.mem_singleton.mp new]
    cases loads_of_turn turn <;> simp_all

/-- At most one section gives its size to the segment. -/
theorem size_of_few {bss : List Scnhdr} (few : bss.length ≤ 1) :
    (bss = [] → (bss.foldl gather (uncollected fresh)).size = 0#32) ∧
      ∀ scnhdr ∈ bss, (bss.foldl gather (uncollected fresh)).size = scnhdr.sSize := by
  rcases bss with _ | ⟨first, _ | ⟨second, others⟩⟩
  · simp [uncollected]
  · simp [uncollected, gather]
  · simp at few

section

variable (linked : LinkedAtZero coff text) (accepted : coff2noff coff fresh = .ok output)
include linked accepted

/-- What the loader needs to know of the output. -/
theorem LinkedAtZero.converted (stack : Nat → Byte) :
    (Executable.mk output stack).header.noffMagic = Executable.noffMagic ∧
      output.length ≤ 2147483648 ∧
      Holds coff output (Executable.mk output stack).header.code [text] ∧
      Holds coff output (Executable.mk output stack).header.initData
        (ofKind .initialised (sectionsOf coff)) ∧
      (bssOf coff = [] → (Executable.mk output stack).header.uninitData.size = 0#32) ∧
      ∀ bss ∈ bssOf coff, (Executable.mk output stack).header.uninitData.size = bss.sSize := by
  obtain ⟨fdIn, state, input, run, rfl⟩ := coff2noff_inv accepted
  have layout := layout_of_run input run linked.inFile (by rw [linked.only]; rfl)
  have header : state.noffH.bytes.length = 40 := by simp [NoffHeader.bytes]
  have extent := layout.inStep.extent
  have limit := layout.inStep.limit
  have maximum : HostFile.offsetMax = 2147483647 := rfl
  rw [header_overwrite]
  refine ⟨?_, ?_, ?_, ?_, ?_⟩
  · refine run.invariant (fun state => state.noffH.noffMagic = Executable.noffMagic)
      (fun _ _ => trivial) rfl ?_
    intro before scnhdr after magic _ turn
    exact (noffMagic_of_turn turn).trans magic
  · rw [length_overwrite _ _ (List.ne_nil_of_length_pos (by omega))]
    omega
  · rw [← linked.only]
    exact layout.code.overwrite (.inr (by omega))
  · exact layout.initData.overwrite (.inr (by omega))
  · rw [(collected_of_run run).1]
    exact size_of_few linked.few

theorem LinkedAtZero.expectedByte (stack : Nat → Byte) (address : Nat) :
    AddrSpace.expectedByte ⟨output, stack⟩ address = linkedByte coff address := by
  obtain ⟨-, -, code, initData, -⟩ := linked.converted accepted stack
  have placed := code.2 text (by simp)
  have base : text.sPaddr.toNat = 0 := by rw [linked.base]; rfl
  have codeSize := toInt_eq_toNat (code.present ⟨output, stack⟩).1
  have dataSize := toInt_eq_toNat (initData.present ⟨output, stack⟩).1
  rw [placed.size] at codeSize
  unfold AddrSpace.expectedByte linkedByte
  rw [placed.size, codeSize, dataSize]
  cases found : linkedSection coff address with
  | some scnhdr =>
    have inside := List.find?_some found
    rw [decide_eq_true_eq, Scnhdr.Occupies] at inside
    dsimp only
    rcases List.mem_append.mp (List.mem_of_find?_eq_some found) with member | member
    · rw [linked.only, List.mem_singleton] at member
      subst member
      rw [base, Nat.zero_add] at inside
      rw [if_pos (by omega), base, Nat.sub_zero]
      exact placed.segmentByte inside.2
    · have data : Placed coff (Executable.mk output stack).contents _ _ :=
        initData.2 scnhdr member
      rw [linked.behind scnhdr member] at inside ⊢
      rw [if_neg (by omega), data.size, if_pos (by omega), ← data.segmentByte (by omega),
        Nat.cast_sub inside.1]
  | none =>
    have outside := List.find?_eq_none.mp found
    have behind := outside text (by simp [linked.only])
    rw [decide_eq_true_eq, Scnhdr.Occupies, base] at behind
    rw [if_neg (by omega), if_neg]
    intro below
    cases sections : ofKind .initialised (sectionsOf coff) with
    | nil =>
      rw [initData.1 sections] at below
      exact behind ⟨Nat.zero_le _, by simpa using below⟩
    | cons data rest =>
      have member : data ∈ ofKind .initialised (sectionsOf coff) := by simp [sections]
      have beyond := outside data (List.mem_append_right _ member)
      rw [(initData.2 data member).size] at below
      rw [decide_eq_true_eq, Scnhdr.Occupies, linked.behind data member] at beyond
      omega

theorem LinkedAtZero.toLinked (stack : Nat → Byte) : AddrSpace.Linked ⟨output, stack⟩ := by
  obtain ⟨magic, short, code, initData, rest⟩ := linked.converted accepted stack
  refine ⟨magic, (code.present ⟨output, stack⟩).1, (initData.present ⟨output, stack⟩).1, ?_,
    (code.2 text (by simp)).virtualAddr.trans linked.base, (code.present ⟨output, stack⟩).2,
    (initData.present ⟨output, stack⟩).2, short⟩
  cases sections : bssOf coff with
  | nil =>
    rw [rest.1 sections]
    decide
  | cons bss others =>
    have member : bss ∈ bssOf coff := by simp [sections]
    rw [rest.2 bss member]
    exact (linked.last bss member).1

/-- The sizes in the header of the output reach to the end of each
section. -/
theorem LinkedAtZero.below_of_occupies (stack : Nat → Byte) {address : Nat}
    (member : scnhdr ∈ sectionsOf coff) (occupies : scnhdr.Occupies address) :
    (address : Int) < (Executable.mk output stack).header.code.size.toInt +
      (Executable.mk output stack).header.initData.size.toInt +
      (Executable.mk output stack).header.uninitData.size.toInt := by
  have program := linked.toLinked accepted stack
  obtain ⟨-, -, code, initData, rest⟩ := linked.converted accepted stack
  have codeSize := toInt_eq_toNat program.codeSize
  have dataSize := toInt_eq_toNat program.dataSize
  have restSize := toInt_eq_toNat program.restSize
  have codeNonneg := program.codeSize
  have dataNonneg := program.dataSize
  have textSize := (code.2 text (by simp)).size
  obtain ⟨lower, upper⟩ := occupies
  have ofKind_of : ∀ kind, scnhdr.kind = kind → scnhdr ∈ ofKind kind (sectionsOf coff) :=
    fun kind same => List.mem_filter.mpr ⟨member, by simp [same]⟩
  cases kind : scnhdr.kind with
  | empty =>
    have zero : scnhdr.sSize = 0#32 := by
      by_contra nonzero
      simp only [Scnhdr.kind, if_neg nonzero] at kind
      split_ifs at kind
    rw [zero, BitVec.toNat_zero] at upper
    omega
  | text =>
    have same := ofKind_of .text kind
    rw [linked.only, List.mem_singleton] at same
    subst same
    rw [linked.base, BitVec.toNat_zero, Nat.zero_add, ← textSize] at upper
    omega
  | initialised =>
    have data := ofKind_of .initialised kind
    rw [linked.behind scnhdr data, ← textSize, ← (initData.2 scnhdr data).size] at upper
    omega
  | uninitialised =>
    have bss := ofKind_of .uninitialised kind
    rw [(linked.last scnhdr bss).2, ← rest.2 scnhdr bss] at upper
    have reached : ((dataEnd coff text).toNat : Int) ≤
        (Executable.mk output stack).header.code.size.toNat +
          (Executable.mk output stack).header.initData.size.toNat := by
      unfold dataEnd
      split
      · rename_i data found
        have member := List.mem_of_getLast? found
        rw [linked.behind data member, ← textSize, ← (initData.2 data member).size,
          BitVec.toNat_add]
        omega
      · rw [textSize]
        omega
    omega
  | unknown =>
    obtain ⟨fdIn, state, -, run, -⟩ := coff2noff_inv accepted
    exact absurd kind (known_of_run run scnhdr member)

end

/-- The thread, if it runs alone, gets a page table for all sections of the
COFF file, through which the user finds them where they are linked, and
zeros elsewhere. -/
def LoadsSections {ι : Type} [DecidableEq ι] (state : Loading ι) (thread : ι)
    (coff : List Byte) (file : Executable) : Prop :=
  ∃ begun count final pageTable,
    state.next (.start thread (some file)) = some begun ∧
    replay Loading.next begun (List.replicate count (.run thread)) = some final ∧
    final.points thread = .ready (some pageTable) ∧
    (∀ scnhdr ∈ sectionsOf coff, ∀ address, scnhdr.Occupies address →
      address < pageTable.length * pageSize) ∧
    ∀ address, address < pageTable.length * pageSize →
      ∃ place mmu, Mmu.translate ⟨some pageTable, none⟩ (BitVec.ofNat 32 address) 1 false =
          .ok (place, mmu) ∧
        final.mainMemory place = linkedByte coff address

/-- A file which is linked at address 0, converted by `coff2noff` and given
to the constructor of `AddrSpace`, with clear frames for all of it, is in
memory as the linker has laid it out. -/
theorem converted_program_loads {ι : Type} [DecidableEq ι]
    (linked : LinkedAtZero coff text) (accepted : coff2noff coff fresh = .ok output)
    (stack : Nat → Byte) (state : Loading ι) (thread : ι)
    (absent : state.points thread = .absent) (free : state.addrLock = .new 1)
    (fits : AddrSpace.programSize (Executable.mk output stack).header ≤
      state.gPhysPageBitMap.numClear * pageSize) :
    LoadsSections state thread coff ⟨output, stack⟩ := by
  have program := linked.toLinked accepted stack
  obtain ⟨begun, started, count, final, pageTable, replayed, ready, length, shows⟩ :=
    Loading.exists_loadsImage absent free program fits
  refine ⟨begun, count, final, pageTable, started, replayed, ready, ?_, ?_⟩
  · intro scnhdr member address occupies
    have below := linked.below_of_occupies accepted stack member occupies
    have covered := program.programSize_le (BitMap.numClear_le state.gPhysPageBitMap) fits
    have positive : 0 < AddrSpace.userStackSize.toInt := by decide
    unfold AddrSpace.programSize at covered
    rw [length]
    omega
  · intro address below
    obtain ⟨place, mmu, translated, stored⟩ := shows address below
    exact ⟨place, mmu, translated, stored.trans (linked.expectedByte accepted stack address)⟩

/-- The data come first in the file, then the text and an uninitialised
section behind both. -/
def threeSections : List Scnhdr :=
  [dataAt 200#32, textAt 196#32, bssAt 8#32]

/-- Text and data are loaded into an empty memory in the order of their
addresses. -/
theorem converted_program_loads_three_sections :
    ∃ output, coff2noff (coffFile threeSections [1, 2, 3, 4, 5, 6, 7, 8]) blank = .ok output ∧
      LoadsSections (Loading.boot (fun _ => 0#32) fun _ => 0#8 : Loading Bool) true
        (coffFile threeSections [1, 2, 3, 4, 5, 6, 7, 8]) ⟨output, fun _ => 0#8⟩ := by
  let coff := coffFile threeSections [1, 2, 3, 4, 5, 6, 7, 8]
  have sections : sectionsOf coff = threeSections := by decide +kernel
  have linked : LinkedAtZero coff (textAt 196#32) := by
    constructor
    · rw [sections]
      decide +kernel
    · rfl
    · rw [sections]
      decide +kernel
    · rw [sections]
      intro scnhdr member
      unfold Scnhdr.InFile
      revert scnhdr member
      decide +kernel
    · rw [bssOf, sections]
      decide +kernel
    · rw [bssOf, dataEnd, sections]
      decide +kernel
  have fits : (coff2noff coff blank).toOption.any (fun output =>
      AddrSpace.programSize (Executable.mk output fun _ => 0#8).header ≤
        (Loading.boot (fun _ => 0#32) (fun _ => 0#8) : Loading Bool).gPhysPageBitMap.numClear *
          pageSize) = true := by
    decide +kernel
  obtain ⟨output, accepted, fits⟩ := (Option.any_eq_true ..).mp fits
  have accepted := eq_ok_of_toOption accepted
  exact ⟨output, accepted, converted_program_loads linked accepted _ _ true rfl rfl
    (of_decide_eq_true fits)⟩

end Coff2Noff

end Nachos
