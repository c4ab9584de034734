import Nachos.Bin.Coff2Noff

/-!
# What `coff2noff` writes

The position of the output and `inNoffFile` stay in step while the sections
are copied, so each segment is where the header says.  This needs sections
whose bytes are in the input: `lseek` to a negative `s_scnptr` fails, and
with a size of -1 neither `Read` nor `Write` notices that it has failed.
-/

open Words Memory Transition

namespace Nachos

namespace Coff2Noff

section

variable {fd after : HostFile} {nBytes : Word} {buf : List Byte}

theorem read_contents (success : read fd nBytes = .ok (buf, after)) :
    after.contents = fd.contents := by
  by_cases negative : nBytes.toInt < 0 <;>
    simp only [read, HostFile.read, negative, if_true, if_false] at success <;>
    split at success <;> cases success <;> rfl

theorem read_inv (success : read fd nBytes = .ok (buf, after)) (proper : nBytes ≠ -1#32) :
    0 ≤ nBytes.toInt ∧ buf.length = nBytes.toNat ∧
      buf = (fd.contents.drop fd.position).take nBytes.toNat := by
  by_cases negative : nBytes.toInt < 0
  · simp only [read, HostFile.read, if_pos negative, if_pos proper.symm] at success
    cases success
  · simp only [read, HostFile.read, if_neg negative] at success
    split at success
    · cases success
    · rename_i all
      cases success
      exact ⟨not_lt.mp negative, HostFile.count_eq (List.length_take_le _ _) (not_not.mp all), rfl⟩

theorem write_inv (success : write fd buf nBytes = .ok after)
    (nonneg : 0 ≤ nBytes.toInt) (length : buf.length = nBytes.toNat) :
    buf.length ≤ HostFile.offsetMax - fd.position ∧
      after = ⟨Unix.overwrite fd.contents fd.position buf, fd.position + buf.length⟩ := by
  unfold write HostFile.write at success
  rw [if_neg (not_lt.mpr nonneg)] at success
  dsimp only at success
  rw [List.take_of_length_le length.le] at success
  split at success
  · cases success
  · rename_i all
    cases success
    have count := HostFile.count_eq (by simp [length]) (not_not.mp all)
    rw [List.length_take, ← length] at count
    rw [List.take_of_length_le (by omega)]
    exact ⟨by omega, rfl⟩

end

/-- What a turn of the loop has done. -/
inductive Loads (state : Conversion) (scnhdr : Scnhdr) :
    Conversion → Prop where
  | empty (kind : scnhdr.kind = .empty) : Loads state scnhdr state
  | text {segment : Segment} {after : Conversion}
      (kind : scnhdr.kind = .text)
      (copied : copyIn state scnhdr = .ok (segment, after)) :
      Loads state scnhdr { after with noffH := { after.noffH with code := segment } }
  | initialised {segment : Segment} {after : Conversion}
      (kind : scnhdr.kind = .initialised)
      (first : state.noffH.initData.size = 0#32)
      (copied : copyIn state scnhdr = .ok (segment, after)) :
      Loads state scnhdr { after with noffH := { after.noffH with initData := segment } }
  | uninitialised (kind : scnhdr.kind = .uninitialised)
      (apart : ¬(state.noffH.uninitData.size ≠ 0#32 ∧
        scnhdr.sPaddr = state.noffH.uninitData.virtualAddr + state.noffH.uninitData.size)) :
      Loads state scnhdr { state with noffH := { state.noffH with
        uninitData := gather state.noffH.uninitData scnhdr } }

variable {state after : Conversion} {scnhdr : Scnhdr}

theorem loads_of_turn (turn : Turn loadSection state scnhdr after) :
    Loads state scnhdr after := by
  unfold Turn loadSection at turn
  cases kind : scnhdr.kind <;> simp only [kind] at turn
  case empty =>
    cases turn
    exact .empty kind
  case text =>
    obtain ⟨⟨segment, middle⟩, copied, turn⟩ := bind_ok_inv turn
    cases turn
    exact .text kind copied
  case initialised =>
    split at turn
    · cases turn
    · rename_i first
      obtain ⟨⟨segment, middle⟩, copied, turn⟩ := bind_ok_inv turn
      cases turn
      exact .initialised kind (not_not.mp first) copied
  case uninitialised =>
    split at turn
    · cases turn
    · rename_i apart
      cases turn
      exact .uninitialised kind apart
  case unknown => cases turn

theorem copyIn_inv {segment : Segment} (copied : copyIn state scnhdr = .ok (segment, after)) :
    ∃ buffer fdIn, read (state.fdIn.lseek scnhdr.sScnptr) scnhdr.sSize =
        .ok (buffer, fdIn) ∧
      write state.fdOut buffer scnhdr.sSize = .ok after.fdOut ∧
      segment = ⟨scnhdr.sPaddr, state.inNoffFile, scnhdr.sSize⟩ ∧
      after.inNoffFile = state.inNoffFile + scnhdr.sSize ∧
      after.fdIn.contents = state.fdIn.contents ∧
      after.noffH = state.noffH := by
  obtain ⟨⟨buffer, fdIn⟩, readIn, copied⟩ := bind_ok_inv copied
  obtain ⟨fdOut, written, copied⟩ := bind_ok_inv copied
  cases copied
  exact ⟨buffer, fdIn, readIn, written, rfl, rfl,
    (read_contents readIn).trans (HostFile.lseek_contents _ _), rfl⟩

/-- The sections of a kind. -/
def ofKind (kind : Kind) (sections : List Scnhdr) : List Scnhdr :=
  sections.filter fun scnhdr => scnhdr.kind = kind

theorem ofKind_snoc {kind : Kind} (past : List Scnhdr) (same : scnhdr.kind = kind) :
    ofKind kind (past ++ [scnhdr]) = ofKind kind past ++ [scnhdr] := by
  simp [ofKind, same]

theorem ofKind_snoc_of_ne {kind : Kind} (past : List Scnhdr) (other : scnhdr.kind ≠ kind) :
    ofKind kind (past ++ [scnhdr]) = ofKind kind past := by
  simp [ofKind, other]

theorem size_ne_zero {kind : Kind} {sections : List Scnhdr}
    (member : scnhdr ∈ ofKind kind sections) (nonempty : kind ≠ .empty) :
    scnhdr.sSize ≠ 0#32 := by
  intro zero
  have same : scnhdr.kind = kind := by simpa [ofKind] using (List.mem_filter.mp member).2
  rw [Scnhdr.kind, if_pos zero] at same
  exact nonempty same.symm

/-! ## The segments in the output -/

/-- The segment is that of the section: it has its place and size in memory,
and its bytes lie behind the header of the output. -/
structure Placed (coff output : List Byte) (segment : Segment)
    (scnhdr : Scnhdr) : Prop where
  virtualAddr : segment.virtualAddr = scnhdr.sPaddr
  size : segment.size = scnhdr.sSize
  behind : noffHeaderSize.toInt ≤ segment.inFileAddr.toInt
  bytes : ∃ bytes, bytesAt coff scnhdr.sScnptr scnhdr.sSize = some bytes ∧
    bytesAt output segment.inFileAddr segment.size = some bytes

/-- A segment holds the only one of some sections, or is empty without
any. -/
def Holds (coff output : List Byte) (segment : Segment) (sections : List Scnhdr) : Prop :=
  (sections = [] → segment.size = 0#32) ∧ ∀ scnhdr ∈ sections, Placed coff output segment scnhdr

def range (start size : Word) : Set Int :=
  Set.Ico start.toInt (start.toInt + size.toInt)

/-- The place of a segment in the file. -/
def fileRange (segment : Segment) : Set Int :=
  range segment.inFileAddr segment.size

/-- The segments of the output, as the loader reads its header, are the
sections of the input. -/
structure Faithful (coff : List Byte) (output : Executable) : Prop where
  code : Holds coff output.contents output.header.code (ofKind .text (sectionsOf coff))
  initData : Holds coff output.contents output.header.initData
    (ofKind .initialised (sectionsOf coff))
  apart : Disjoint (fileRange output.header.code) (fileRange output.header.initData)

/-- The bytes of a section which is copied are in the input. -/
def Scnhdr.InFile (scnhdr : Scnhdr) : Prop :=
  scnhdr.kind = .text ∨ scnhdr.kind = .initialised → 0 ≤ scnhdr.sScnptr.toInt ∧ scnhdr.sSize ≠ -1#32

variable {coff output : List Byte} {segment : Segment} {sections past : List Scnhdr}

/-- What is written behind the end of a file, or over its header, leaves the
segments as they are. -/
theorem Holds.overwrite (holds : Holds coff output segment sections)
    {position : Nat} {data : List Byte}
    (outside : output.length ≤ position ∨ position + data.length ≤ 40) :
    Holds coff (Unix.overwrite output position data) segment sections := by
  refine ⟨holds.1, ?_⟩
  intro scnhdr member
  obtain ⟨virtualAddr, size, behind, bytes, input, found⟩ :=
    holds.2 scnhdr member
  obtain ⟨nonneg, -, inside, -⟩ := bytesAt_eq_some.mp found
  refine ⟨virtualAddr, size, behind, bytes, input, bytesAt_overwrite_outside found ?_⟩
  have place : (40 : Int) ≤ segment.inFileAddr.toInt := behind
  rw [toInt_eq_toNat nonneg] at place
  omega

theorem Holds.lt_length (holds : Holds coff output segment sections)
    {offset : Int} (inside : offset ∈ fileRange segment) :
    offset < output.length := by
  obtain ⟨lower, upper⟩ := inside
  cases sections with
  | nil =>
    rw [holds.1 rfl] at upper
    exact absurd (lower.trans_lt upper) (by simp)
  | cons scnhdr rest =>
    obtain ⟨-, -, -, bytes, -, found⟩ := holds.2 scnhdr (by simp)
    obtain ⟨nonneg, sizeNonneg, within, -⟩ := bytesAt_eq_some.mp found
    rw [toInt_eq_toNat nonneg, toInt_eq_toNat sizeNonneg] at upper
    omega

theorem Holds.eq_nil {kind : Kind} (holds : Holds coff output segment (ofKind kind sections))
    (nonempty : kind ≠ .empty) (zero : segment.size = 0#32) :
    ofKind kind sections = [] := by
  apply List.eq_nil_iff_forall_not_mem.mpr
  intro scnhdr member
  apply size_ne_zero member nonempty
  rw [← (holds.2 scnhdr member).size, zero]

/-! ## The loop -/

/-- The output is written up to `inNoffFile`. -/
structure InStep (coff : List Byte) (state : Conversion) : Prop where
  input : state.fdIn.contents = coff
  cursor : state.fdOut.position = state.inNoffFile.toNat
  behind : 40 ≤ state.fdOut.position
  limit : state.fdOut.position ≤ HostFile.offsetMax
  extent : state.fdOut.contents.length ≤ state.fdOut.position

theorem InStep.setHeader (inStep : InStep coff state)
    (header : NoffHeader) : InStep coff { state with noffH := header } :=
  ⟨inStep.input, inStep.cursor, inStep.behind, inStep.limit, inStep.extent⟩

theorem InStep.copyIn (inStep : InStep coff state)
    (copied : copyIn state scnhdr = .ok (segment, after))
    (nonempty : scnhdr.sSize ≠ 0#32) (nonneg : 0 ≤ scnhdr.sScnptr.toInt)
    (proper : scnhdr.sSize ≠ -1#32) :
    InStep coff after ∧ after.noffH = state.noffH ∧
      Placed coff after.fdOut.contents segment scnhdr ∧
      ∀ (other : Segment) (others : List Scnhdr),
        Holds coff state.fdOut.contents other others →
        Holds coff after.fdOut.contents other others ∧
          Disjoint (fileRange other) (fileRange segment) := by
  obtain ⟨buffer, fdIn, readIn, written, rfl, offset, input, same⟩ :=
    copyIn_inv copied
  obtain ⟨sizeNonneg, length, bytes⟩ := read_inv readIn proper
  obtain ⟨fits, out⟩ := write_inv written sizeNonneg length
  have limit := inStep.limit
  have behind := inStep.behind
  have cursor := inStep.cursor
  have extent := inStep.extent
  have maximum : HostFile.offsetMax = 2147483647 := rfl
  have placeNonneg : 0 ≤ state.inNoffFile.toInt := by
    rw [BitVec.toInt_eq_toNat_of_lt (by omega)]
    omega
  have place := toInt_eq_toNat placeNonneg
  have positive : scnhdr.sSize.toNat ≠ 0 := by
    intro zero
    exact nonempty (BitVec.eq_of_toNat_eq zero)
  have some : buffer ≠ [] := by
    rintro rfl
    exact positive length.symm
  refine ⟨⟨input.trans inStep.input, ?_, ?_, ?_, ?_⟩, same, ⟨rfl, rfl, ?_, buffer, ?_, ?_⟩, ?_⟩
  · rw [out, offset, BitVec.toNat_add, Nat.mod_eq_of_lt (by omega)]
    dsimp only
    omega
  · rw [out]
    dsimp only
    omega
  · rw [out]
    dsimp only
    omega
  · rw [out, length_overwrite _ _ some]
    dsimp only
    omega
  · change (40 : Int) ≤ state.inNoffFile.toInt
    omega
  · rw [HostFile.lseek_contents, HostFile.lseek_position _ nonneg, inStep.input] at bytes
    refine bytesAt_eq_some.mpr ⟨nonneg, sizeNonneg, ?_, bytes.symm⟩
    rw [bytes, List.length_take, List.length_drop] at length
    omega
  · rw [out, cursor]
    exact bytesAt_overwrite_inside placeNonneg sizeNonneg length some
  · intro other others holds
    constructor
    · rw [out]
      exact holds.overwrite (.inl extent)
    · refine Set.disjoint_left.mpr fun position first second => ?_
      have before := holds.lt_length first
      have later : state.inNoffFile.toInt ≤ position := second.1
      omega

/-- The segments of the sections so far are in the output. -/
structure Layout (coff : List Byte) (past : List Scnhdr)
    (state : Conversion) : Prop where
  inStep : InStep coff state
  code : Holds coff state.fdOut.contents state.noffH.code (ofKind .text past)
  initData : Holds coff state.fdOut.contents state.noffH.initData (ofKind .initialised past)
  apart : Disjoint (fileRange state.noffH.code) (fileRange state.noffH.initData)

theorem Layout.turn (layout : Layout coff past state)
    (turn : Turn loadSection state scnhdr after) (inFile : scnhdr.InFile)
    (first : scnhdr.kind = .text → ofKind .text past = []) :
    Layout coff (past ++ [scnhdr]) after := by
  have alone : ∀ {output segment}, Placed coff output segment scnhdr →
      Holds coff output segment ([] ++ [scnhdr]) := by
    intro output segment placed
    refine ⟨fun empty => absurd empty (by simp), ?_⟩
    intro other member
    rwa [List.mem_singleton.mp member]
  have nonempty : scnhdr.kind ≠ .empty → scnhdr.sSize ≠ 0#32 :=
    fun other => mt (fun zero => if_pos zero) other
  cases loads_of_turn turn with
  | empty kind =>
    refine ⟨layout.inStep, ?_, ?_, layout.apart⟩
    · rw [ofKind_snoc_of_ne past (by simp [kind])]
      exact layout.code
    · rw [ofKind_snoc_of_ne past (by simp [kind])]
      exact layout.initData
  | text kind copied =>
    obtain ⟨nonneg, proper⟩ := inFile (.inl kind)
    obtain ⟨inStep, same, placed, others⟩ := layout.inStep.copyIn copied
      (nonempty (by simp [kind])) nonneg proper
    obtain ⟨kept, apart⟩ := others _ _ layout.initData
    rw [← same] at kept apart
    refine ⟨inStep.setHeader _, ?_, ?_, apart.symm⟩
    · rw [ofKind_snoc past kind, first kind]
      exact alone placed
    · rw [ofKind_snoc_of_ne past (by simp [kind])]
      exact kept
  | initialised kind zero copied =>
    obtain ⟨nonneg, proper⟩ := inFile (.inr kind)
    obtain ⟨inStep, same, placed, others⟩ := layout.inStep.copyIn copied
      (nonempty (by simp [kind])) nonneg proper
    obtain ⟨kept, apart⟩ := others _ _ layout.code
    rw [← same] at kept apart
    refine ⟨inStep.setHeader _, ?_, ?_, apart⟩
    · rw [ofKind_snoc_of_ne past (by simp [kind])]
      exact kept
    · rw [ofKind_snoc past kind, layout.initData.eq_nil (by simp) zero]
      exact alone placed
  | uninitialised kind apart =>
    refine ⟨layout.inStep.setHeader _, ?_, ?_, layout.apart⟩
    · rw [ofKind_snoc_of_ne past (by simp [kind])]
      exact layout.code
    · rw [ofKind_snoc_of_ne past (by simp [kind])]
      exact layout.initData

/-! ## The whole output -/

theorem readHeaders_contents {fdIn after : HostFile}
    (success : readHeaders fdIn = .ok (sections, after)) :
    after.contents = fdIn.contents := by
  obtain ⟨⟨fileh, first⟩, readFileh, success⟩ := bind_ok_inv success
  dsimp only at success
  split at success
  · cases success
  · obtain ⟨⟨systemh, second⟩, readSystemh, success⟩ := bind_ok_inv success
    dsimp only at success
    split at success
    · cases success
    · obtain ⟨⟨headers, third⟩, readSections, success⟩ :=
        bind_ok_inv success
      cases success
      rw [read_contents readSections, read_contents readSystemh, read_contents readFileh]

variable {fresh : NoffHeader}

/-- An accepted input has been read, its sections have been loaded, and the
header has been written over the start of the output. -/
theorem coff2noff_inv (accepted : coff2noff coff fresh = .ok output) :
    ∃ fdIn state, fdIn.contents = coff ∧
      Run (Turn loadSection) (start fresh fdIn) (sectionsOf coff) state ∧
      output = Unix.overwrite state.fdOut.contents 0 state.noffH.bytes := by
  obtain ⟨⟨sections, fdIn⟩, headers, accepted⟩ := bind_ok_inv accepted
  obtain ⟨state, loaded, accepted⟩ := bind_ok_inv accepted
  obtain ⟨fdOut, written, accepted⟩ := bind_ok_inv accepted
  cases accepted
  have same : sectionsOf coff = sections := by rw [sectionsOf, headers]
  obtain ⟨-, rfl⟩ := write_inv written (by decide) (by simp [NoffHeader.bytes, noffHeaderSize])
  refine ⟨fdIn, state, readHeaders_contents headers, ?_, ?_⟩
  · rw [same]
    exact run_of_foldlM loaded
  · rw [HostFile.lseek_contents, HostFile.lseek_position _ (by decide)]
    rfl

theorem header_overwrite (contents : List Byte) (header : NoffHeader) (stack : Nat → Byte) :
    (Executable.mk (Unix.overwrite contents 0 header.bytes) stack).header =
      header := by
  let bytes := Executable.headerBytes ⟨Unix.overwrite contents 0 header.bytes, stack⟩
  have word : ∀ index, index < 10 → wordAt bytes (4 * index) = header.words.getD index 0#32 := by
    intro index inside
    apply wordAt_wordsToBytes (fun index => header.words.getD index 0#32)
    intro offset lower upper
    have position : offset < header.bytes.length := by
      rw [NoffHeader.bytes, slice_length]
      omega
    change (Unix.overwrite contents 0 header.bytes).getD offset _ = _
    rw [Unix.overwrite_of_le (Nat.zero_le _), List.take_zero, List.nil_append,
      List.getD_append _ _ _ _ position, NoffHeader.bytes,
      List.getD_eq_getElem?_getD, slice_getElem?, if_pos (by omega),
      Option.getD_some, Nat.zero_add]
  calc _ = NoffHeader.mk (wordAt bytes (4 * 0))
        ⟨wordAt bytes (4 * 1), wordAt bytes (4 * 2), wordAt bytes (4 * 3)⟩
        ⟨wordAt bytes (4 * 4), wordAt bytes (4 * 5), wordAt bytes (4 * 6)⟩
        ⟨wordAt bytes (4 * 7), wordAt bytes (4 * 8), wordAt bytes (4 * 9)⟩ := rfl
    _ = header := by
      repeat rw [word _ (by decide)]
      rfl

theorem layout_start {fdIn : HostFile} (input : fdIn.contents = coff) :
    Layout coff [] (start fresh fdIn) where
  inStep := ⟨input, rfl, le_refl 40, (by decide : 40 ≤ _), Nat.zero_le 40⟩
  code := ⟨fun _ => rfl, by simp [ofKind]⟩
  initData := ⟨fun _ => rfl, by simp [ofKind]⟩
  apart := by
    have empty : fileRange { fresh.code with size := 0#32 } = ∅ := by
      simp [fileRange, range]
    exact empty ▸ Set.empty_disjoint _

theorem layout_of_run {fdIn : HostFile} (input : fdIn.contents = coff)
    (run : Run (Turn loadSection) (start fresh fdIn) sections state)
    (inFile : ∀ scnhdr ∈ sections, scnhdr.InFile)
    (oneText : (ofKind .text sections).length ≤ 1) :
    Layout coff sections state := by
  revert inFile oneText
  refine run.history (fun past state =>
    (∀ scnhdr ∈ past, scnhdr.InFile) →
    (ofKind .text past).length ≤ 1 → Layout coff past state) ?_ ?_
  · exact fun _ _ => layout_start input
  · intro past before scnhdr after layout turn inFile oneText
    have shorter : (ofKind .text past).length ≤ (ofKind .text (past ++ [scnhdr])).length := by
      simp [ofKind]
    refine (layout (fun other member => inFile other (by simp [member]))
      (shorter.trans oneText)).turn turn (inFile scnhdr (by simp)) ?_
    intro kind
    rw [ofKind_snoc past kind, List.length_append] at oneText
    exact List.length_eq_zero_iff.mp (by simpa using oneText)

/-- The output for an accepted input with one text section at most is
faithful exactly when the bytes of the sections which are copied are in the
input. -/
theorem faithful_iff_inFile (accepted : coff2noff coff fresh = .ok output)
    (oneText : (ofKind .text (sectionsOf coff)).length ≤ 1)
    (stack : Nat → Byte) :
    Faithful coff ⟨output, stack⟩ ↔ ∀ scnhdr ∈ sectionsOf coff, scnhdr.InFile := by
  obtain ⟨fdIn, state, input, run, rfl⟩ := coff2noff_inv accepted
  constructor
  · intro faithful scnhdr member copied
    have placed : ∃ output segment, Placed coff output segment scnhdr := by
      rcases copied with kind | kind
      · exact ⟨_, _, faithful.code.2 scnhdr (List.mem_filter.mpr ⟨member, by simp [kind]⟩)⟩
      · exact ⟨_, _, faithful.initData.2 scnhdr (List.mem_filter.mpr ⟨member, by simp [kind]⟩)⟩
    obtain ⟨_, segment, -, -, -, bytes, found, -⟩ := placed
    obtain ⟨nonneg, sizeNonneg, -⟩ := bytesAt_eq_some.mp found
    refine ⟨nonneg, ?_⟩
    intro negative
    rw [negative] at sizeNonneg
    exact absurd sizeNonneg (by decide)
  · intro inFile
    have layout := layout_of_run input run inFile oneText
    have header : 0 + state.noffH.bytes.length ≤ 40 := by
      simp [NoffHeader.bytes]
    constructor <;> rw [header_overwrite]
    · exact layout.code.overwrite (.inr header)
    · exact layout.initData.overwrite (.inr header)
    · exact layout.apart

/-! ## Two inputs -/

/-- A COFF file with some sections and bytes behind their headers. -/
def coffFile (sections : List Scnhdr) (data : List Byte) : List Byte :=
  let words : List Word → List Byte := fun words =>
    slice (wordsToBytes fun index => words.getD index 0#32) 0 (4 * words.length)
  words [0x162#32 ||| BitVec.ofNat 32 sections.length <<< 16, 0, 0, 0, 0] ++
    words (0x107#32 :: List.replicate 13 0) ++
    sections.flatMap (fun scnhdr => scnhdr.sName ++
      words [scnhdr.sPaddr, 0, scnhdr.sSize, scnhdr.sScnptr, 0, 0, 0, 0]) ++
    data

/-- The section header of `.text`, with four bytes at `sScnptr`. -/
def textAt (sScnptr : Word) : Scnhdr :=
  ⟨[0x2e, 0x74, 0x65, 0x78, 0x74, 0, 0, 0], 0#32, 4#32, sScnptr⟩

def textFile (sScnptr : Word) : List Byte :=
  coffFile [textAt sScnptr] [1, 2, 3, 4]

def blank : NoffHeader :=
  ⟨0#32, ⟨0#32, 0#32, 0#32⟩, ⟨0#32, 0#32, 0#32⟩, ⟨0#32, 0#32, 0#32⟩⟩

/-- The section header of `.data`, with four bytes at `sScnptr` and linked
behind the text. -/
def dataAt (sScnptr : Word) : Scnhdr :=
  ⟨[0x2e, 0x64, 0x61, 0x74, 0x61, 0, 0, 0], 4#32, 4#32, sScnptr⟩

/-- The data come before the text in the headers, and behind it in the
file. -/
def dataFirst : List Byte :=
  coffFile [dataAt 160#32, textAt 156#32] [1, 2, 3, 4, 5, 6, 7, 8]

/-- The text goes behind the data in the output. -/
theorem faithful_iff_inFile_data_first :
    ∃ output, coff2noff dataFirst blank = .ok output ∧
      output.drop 40 = [5, 6, 7, 8, 1, 2, 3, 4] ∧
      Faithful dataFirst ⟨output, fun _ => 0#8⟩ := by
  have sections : sectionsOf dataFirst = [dataAt 160#32, textAt 156#32] := by rfl
  refine ⟨_, rfl, by rfl, (faithful_iff_inFile rfl ?_ _).mpr ?_⟩
  · rw [sections]
    decide
  · rw [sections]
    intro scnhdr member _
    rcases List.mem_pair.mp member with rfl | rfl <;> decide

/-- The offset of the section is negative, and the bytes behind the headers
are copied. -/
theorem negative_scnptr_copied :
    sectionsOf (textFile 0x80000000#32) = [textAt 0x80000000#32] ∧
      ∃ output, coff2noff (textFile 0x80000000#32) blank = .ok output ∧
        output.drop 40 = [1, 2, 3, 4] ∧
        ∀ stack, ¬Faithful (textFile 0x80000000#32) ⟨output, stack⟩ := by
  have sections : sectionsOf (textFile 0x80000000#32) = [textAt 0x80000000#32] := by rfl
  refine ⟨sections, _, rfl, by rfl, ?_⟩
  intro stack faithful
  have holds := faithful.code
  rw [sections] at holds
  obtain ⟨-, -, -, bytes, found, -⟩ :=
    holds.2 (textAt 0x80000000#32) (by decide)
  exact absurd (bytesAt_eq_some.mp found).1 (by decide)

end Coff2Noff

end Nachos
