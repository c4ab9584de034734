import Nachos.Userprog.AddrSpace

/-!
# The image which the loader copies

Which calls of `ReadAt` the constructor of `AddrSpace` makes depends on the
header alone.  If the size of the code is not negative, these calls cover
the code and the initialised data from address 0 on without a gap: each one
stays on one page and in one segment.  A negative size of the code leads to
an index far behind the page table, or to no call at all.
-/

open Words Memory

namespace Nachos

namespace AddrSpace

/-- A call of `ReadAt`: where it starts on which page, how many bytes it
asks for, and where they are in the file. -/
structure Copy where
  page : Nat
  offset : Int
  count : Word
  position : Word

def codeCopy (header : NoffHeader) (i : Nat) : Copy :=
  let sizes := layout header
  let index := BitVec.ofNat 32 i
  { page := i
    offset := 0
    count := if index < sizes.numCodePage - 1#32 then pageSizeWord
      else sizes.lastCodePageSize
    position := header.code.inFileAddr + index * pageSizeWord }

def codeCopies (header : NoffHeader) : List Copy :=
  if 0 < header.code.size.toInt then
    (List.range (layout header).numCodePage.toNat).map (codeCopy header)
  else []

def firstCopies (header : NoffHeader) : List Copy :=
  let sizes := layout header
  if sizes.lastCodePageSize.toInt < pageSize ∧ 0 < sizes.firstDataPageSize.toInt then
    [{ page := (sizes.numCodePage - 1#32).toNat
       offset := sizes.lastCodePageSize.toInt
       count := sizes.firstDataPageSize
       position := header.initData.inFileAddr }]
  else []

def dataCopy (header : NoffHeader) (j : Nat) : Copy :=
  let sizes := layout header
  let index := BitVec.ofNat 32 j
  { page := (sizes.numCodePage + index).toNat
    offset := 0
    count := if index < sizes.numDataPage - 1#32 then pageSizeWord
      else sizes.lastDataPageSize
    position := header.initData.inFileAddr + index * pageSizeWord + sizes.firstDataPageSize }

def dataCopies (header : NoffHeader) : List Copy :=
  if 0 < header.initData.size.toInt then
    (List.range (layout header).numDataPage.toNat).map (dataCopy header)
  else []

/-- All calls in their order. -/
def copies (header : NoffHeader) : List Copy :=
  codeCopies header ++ firstCopies header ++ dataCopies header

/-- What one call does to main memory. -/
def copyOne (file : Executable) (pageTable : List TranslationEntry)
    (mainMemory : Nat → Byte) (copy : Copy) : Result (Nat → Byte) := do
  let target ← pageAddress file.header pageTable copy.page
  file.readInto mainMemory (target + copy.offset) copy.count copy.position

def copyAll (file : Executable) (pageTable : List TranslationEntry)
    (copies : List Copy) (mainMemory : Nat → Byte) : Result (Nat → Byte) :=
  copies.foldlM (copyOne file pageTable) mainMemory

section

variable {file : Executable} {pageTable : List TranslationEntry}

@[simp] theorem copyAll_nil (mainMemory : Nat → Byte) :
    copyAll file pageTable [] mainMemory = .ok mainMemory := rfl

@[simp] theorem copyAll_cons (copy : Copy) (rest : List Copy)
    (mainMemory : Nat → Byte) :
    copyAll file pageTable (copy :: rest) mainMemory = copyOne file pageTable mainMemory copy >>=
        copyAll file pageTable rest := by
  simp only [copyAll, List.foldlM_cons]
  rfl

@[simp] theorem copyAll_singleton (copy : Copy)
    (mainMemory : Nat → Byte) :
    copyAll file pageTable [copy] mainMemory =
      copyOne file pageTable mainMemory copy := by
  simp only [copyAll, List.foldlM_cons, List.foldlM_nil, bind_pure]

theorem copyAll_append (first second : List Copy) (mainMemory : Nat → Byte) :
    copyAll file pageTable (first ++ second) mainMemory =
      copyAll file pageTable first mainMemory >>=
        copyAll file pageTable second := by
  simp only [copyAll, List.foldlM_append]
  rfl

theorem loadCode_eq (left i : Nat) (mainMemory : Nat → Byte) :
    loadCode file pageTable left i mainMemory =
      copyAll file pageTable (if 0 < file.header.code.size.toInt then
        (List.range' i left).map (codeCopy file.header) else [])
        mainMemory := by
  induction left generalizing i mainMemory with
  | zero => simp [loadCode]
  | succ left induction =>
    by_cases positive : 0 < file.header.code.size.toInt
    · simp only [if_pos positive] at induction ⊢
      simp only [loadCode, if_pos positive, List.range'_succ,
        List.map_cons, copyAll_cons, copyOne, bind_assoc, induction]
      simp only [codeCopy, Int.add_zero]
    · simp only [if_neg positive] at induction ⊢
      simp only [loadCode, if_neg positive, induction]

theorem loadFirstData_eq (mainMemory : Nat → Byte) :
    loadFirstData file pageTable mainMemory =
      copyAll file pageTable (firstCopies file.header) mainMemory := by
  unfold loadFirstData firstCopies
  simp only
  split
  · rw [copyAll_singleton]
    rfl
  · rfl

theorem loadData_eq (left j : Nat) (mainMemory : Nat → Byte) :
    loadData file pageTable left j mainMemory =
      copyAll file pageTable (if 0 < file.header.initData.size.toInt then
        (List.range' j left).map (dataCopy file.header) else [])
        mainMemory := by
  induction left generalizing j mainMemory with
  | zero => simp [loadData]
  | succ left induction =>
    by_cases positive : 0 < file.header.initData.size.toInt
    · simp only [if_pos positive] at induction ⊢
      simp only [loadData, if_pos positive, List.range'_succ,
        List.map_cons, copyAll_cons, copyOne, bind_assoc, induction]
      simp only [dataCopy, Int.add_zero]
    · simp only [if_neg positive] at induction ⊢
      simp only [loadData, if_neg positive, induction]

theorem load_eq (mainMemory : Nat → Byte) :
    load file pageTable mainMemory = copyAll file pageTable (copies file.header) mainMemory := by
  have code := @loadCode_eq file pageTable (layout file.header).numCodePage.toNat 0
  have data := @loadData_eq file pageTable (layout file.header).numDataPage.toNat 0
  simp only [← List.range_eq_range'] at code data
  simp only [load, copies, copyAll_append, bind_assoc, code, data,
    loadFirstData_eq, codeCopies, dataCopies]

end

/-! ## The layout in integers -/

/-- The bytes between the end of the code and the end of its last page. -/
def gap (header : NoffHeader) : Int := -header.code.size.toInt % pageSize

theorem gap_bounds (header : NoffHeader) : 0 ≤ gap header ∧ gap header < pageSize := by
  unfold gap
  have positive : (0 : Int) < pageSize := by decide
  exact ⟨Int.emod_nonneg _ (by omega), Int.emod_lt_of_pos _ positive⟩

theorem divRoundUp_mul (value : Int) :
    divRoundUp value pageSize * pageSize = value + -value % pageSize := by
  have size := pageSize_eq
  unfold divRoundUp
  rw [size]
  rcases Int.le_total 0 value with nonnegative | negative
  · rw [Int.tdiv_eq_ediv_of_nonneg nonnegative, Int.tmod_eq_emod_of_nonneg nonnegative]
    split <;> omega
  · obtain ⟨amount, rfl⟩ : ∃ amount, value = -amount := ⟨-value, by omega⟩
    have nonnegative : 0 ≤ amount := by omega
    rw [Int.neg_tdiv, Int.neg_tmod,
      Int.tdiv_eq_ediv_of_nonneg nonnegative,
      Int.tmod_eq_emod_of_nonneg nonnegative]
    split <;> omega

/-- The subtraction which finds out how much is on a last page. -/
theorem lastPageSize_eq (size : Word) :
    size - (BitVec.ofInt 32 (divRoundUp size.toInt pageSize) - 1#32) *
      pageSizeWord =
      BitVec.ofInt 32 (pageSize - -size.toInt % pageSize) := by
  have one : (1#32 : Word) = BitVec.ofInt 32 1 := rfl
  have page : pageSizeWord = BitVec.ofInt 32 pageSize := rfl
  nth_rewrite 1 [← @BitVec.ofInt_toInt 32 size]
  rw [one, page, ← ofInt_sub, ← BitVec.ofInt_mul, ← ofInt_sub]
  congr 1
  rw [Int.sub_mul, divRoundUp_mul]
  omega

/-- The initialised data which is left for pages of its own. -/
def tempDataSize (header : NoffHeader) : Word :=
  BitVec.ofInt 32 (header.initData.size.toInt - gap header)

theorem layout_eq (header : NoffHeader) : layout header = if (tempDataSize header).toInt < 0 then
        { numCodePage :=
            BitVec.ofInt 32 (divRoundUp header.code.size.toInt pageSize)
          lastCodePageSize := BitVec.ofInt 32 (pageSize - gap header)
          numDataPage := 0#32
          lastDataPageSize := 0#32
          firstDataPageSize := header.initData.size }
      else
        { numCodePage :=
            BitVec.ofInt 32 (divRoundUp header.code.size.toInt pageSize)
          lastCodePageSize := BitVec.ofInt 32 (pageSize - gap header)
          numDataPage := BitVec.ofInt 32 (divRoundUp (tempDataSize header).toInt pageSize)
          lastDataPageSize := BitVec.ofInt 32 (pageSize - -(tempDataSize header).toInt % pageSize)
          firstDataPageSize := BitVec.ofInt 32 (gap header) } := by
  have page : pageSizeWord = BitVec.ofInt 32 pageSize := rfl
  have lastCode : BitVec.ofInt 32
      (pageSize - -header.code.size.toInt % pageSize) =
      BitVec.ofInt 32 (pageSize - gap header) := rfl
  have first : pageSizeWord - BitVec.ofInt 32 (pageSize - gap header) =
      BitVec.ofInt 32 (gap header) := by
    rw [page, ← ofInt_sub, Int.sub_sub_self]
  have temp : header.initData.size - BitVec.ofInt 32 (gap header) =
      tempDataSize header := by
    rw [tempDataSize, ofInt_sub, BitVec.ofInt_toInt]
  unfold layout
  simp only [lastPageSize_eq, lastCode, first, temp]

theorem numCodePage_eq (header : NoffHeader) :
    (layout header).numCodePage = BitVec.ofInt 32 (divRoundUp header.code.size.toInt pageSize) := by
  rw [layout_eq]
  split <;> rfl

theorem lastCodePageSize_eq (header : NoffHeader) :
    (layout header).lastCodePageSize = BitVec.ofInt 32 (pageSize - gap header) := by
  rw [layout_eq]
  split <;> rfl

theorem lastCodePageSize_toInt (header : NoffHeader) :
    (layout header).lastCodePageSize.toInt = pageSize - gap header := by
  have bounds := gap_bounds header
  have size := pageSize_eq
  rw [lastCodePageSize_eq]
  apply toInt_ofInt_eq
  unfold InRange
  omega

variable {header : NoffHeader}

theorem layout_short (short : (tempDataSize header).toInt < 0) :
    (layout header).numDataPage = 0#32 ∧
      (layout header).firstDataPageSize = header.initData.size := by
  rw [layout_eq, if_pos short]
  exact ⟨rfl, rfl⟩

theorem layout_long (long : 0 ≤ (tempDataSize header).toInt) :
    (layout header).numDataPage = BitVec.ofInt 32
        (divRoundUp (tempDataSize header).toInt pageSize) ∧
      (layout header).lastDataPageSize = BitVec.ofInt 32
        (pageSize - -(tempDataSize header).toInt % pageSize) ∧
      (layout header).firstDataPageSize = BitVec.ofInt 32 (gap header) := by
  rw [layout_eq, if_neg (Int.not_lt.mpr long)]
  exact ⟨rfl, rfl, rfl⟩

/-! ## Coverage -/

/-- Where the byte of the image at an address is in the file. -/
def filePosition (header : NoffHeader) (address : Nat) : Int :=
  if (address : Int) < header.code.size.toInt then
    header.code.inFileAddr.toInt + address
  else header.initData.inFileAddr.toInt + (address - header.code.size.toInt)

/-- A call copies the image from `start` to `stop`, on one page and out of
one segment. -/
structure Copy.Fills (copy : Copy) (header : NoffHeader)
    (start stop : Nat) : Prop where
  page : copy.page = start / pageSize
  offset : copy.offset = (start % pageSize : Nat)
  count : copy.count.toInt = (stop : Int) - start
  more : start < stop
  samePage : stop ≤ start - start % pageSize + pageSize
  position : copy.position = BitVec.ofInt 32 (filePosition header start)
  sameSegment : (start : Int) < header.code.size.toInt → (stop : Int) ≤ header.code.size.toInt

inductive Covers (header : NoffHeader) : Nat → List Copy → Nat → Prop where
  | done {start : Nat} : Covers header start [] start
  | copy {start middle stop : Nat} {copy : Copy} {rest : List Copy} :
      copy.Fills header start middle →
      Covers header middle rest stop →
      Covers header start (copy :: rest) stop

namespace Covers

theorem append {header : NoffHeader} {start middle stop : Nat}
    {first second : List Copy} (left : Covers header start first middle)
    (right : Covers header middle second stop) :
    Covers header start (first ++ second) stop := by
  induction left with
  | done => exact right
  | copy fills _ induction => exact .copy fills (induction right)

theorem le {header : NoffHeader} {start stop : Nat} {copies : List Copy}
    (covers : Covers header start copies stop) : start ≤ stop := by
  induction covers with
  | done => exact Nat.le_refl _
  | copy fills _ induction => exact fills.more.le.trans induction

theorem pages {header : NoffHeader} {copyOf : Nat → Copy} {start stop count : Nat}
    (fills : ∀ index, index < count → (copyOf index).Fills header (start + index * pageSize)
      (if index + 1 < count then start + (index + 1) * pageSize
        else stop))
    (nothing : count = 0 → stop = start) :
    Covers header start ((List.range count).map copyOf) stop := by
  induction count generalizing copyOf start with
  | zero =>
    rw [nothing rfl]
    exact .done
  | succ count induction =>
    have first := fills 0 (Nat.succ_pos count)
    rw [List.range_succ_eq_map, List.map_cons, List.map_map]
    rw [Nat.zero_mul, Nat.add_zero] at first
    refine .copy first ?_
    apply induction
    · intro index inside
      have later := fills (index + 1) (Nat.succ_lt_succ inside)
      have shift : ∀ amount, (if 0 + 1 < count + 1 then
          start + (0 + 1) * pageSize else stop) + amount * pageSize =
          start + (amount + 1) * pageSize := by
        intro amount
        rw [if_pos (by omega)]
        ring
      rw [shift, shift]
      simp only [Nat.add_lt_add_iff_right] at later
      exact later
    · intro zero
      rw [if_neg (by omega)]

end Covers

theorem pages_toNat {size : Int} (nonnegative : 0 ≤ size) (inRange : InRange size) :
    ((BitVec.ofInt 32 (divRoundUp size pageSize)).toNat : Int) * pageSize =
      size + -size % pageSize := by
  have total := divRoundUp_mul size
  rw [show (pageSize : Int) = 512 from rfl] at total ⊢
  have small : (divRoundUp size 512) % (2 ^ 32 : Nat) =
      divRoundUp size 512 := by
    unfold InRange at inRange
    omega
  rw [BitVec.toNat_ofInt, small, Int.toNat_of_nonneg (by omega), total]

theorem pageCount_eq {pages last : Word} {index : Nat} (inside : index < pages.toNat) :
    (if BitVec.ofNat 32 index < pages - 1#32 then pageSizeWord
      else last) =
      if index + 1 < pages.toNat then pageSizeWord else last := by
  have small := pages.isLt
  have same : BitVec.ofNat 32 index < pages - 1#32 ↔ index + 1 < pages.toNat := by
    rw [BitVec.lt_def, BitVec.toNat_ofNat, BitVec.toNat_sub]
    rw [show (1#32 : Word).toNat = 1 from rfl]
    omega
  simp only [same]

/-- The calls for a segment which starts on a new page. -/
theorem Covers.segment {copyOf : Nat → Copy} {start stop : Nat} {size : Int}
    (aligned : start % pageSize = 0) (positive : 0 < size)
    (inRange : InRange size) (ends : (stop : Int) = start + size)
    (page : ∀ index,
      index < (BitVec.ofInt 32 (divRoundUp size pageSize)).toNat →
      (copyOf index).page = (start + index * pageSize) / pageSize)
    (offset : ∀ index, (copyOf index).offset = 0)
    (count : ∀ index, (copyOf index).count =
      if BitVec.ofNat 32 index < BitVec.ofInt 32 (divRoundUp size pageSize) - 1#32 then
        pageSizeWord
      else BitVec.ofInt 32 (pageSize - -size % pageSize))
    (position : ∀ index,
      index < (BitVec.ofInt 32 (divRoundUp size pageSize)).toNat →
      (copyOf index).position = BitVec.ofInt 32 (filePosition header (start + index * pageSize)))
    (sameSegment : (start : Int) < header.code.size.toInt → (stop : Int) ≤ header.code.size.toInt) :
    Covers header start ((List.range (BitVec.ofInt 32 (divRoundUp size pageSize)).toNat).map copyOf)
      stop := by
  have bytes : pageSize = 512 := rfl
  have total := pages_toNat positive.le inRange
  generalize BitVec.ofInt 32 (divRoundUp size pageSize) = pages at *
  rw [bytes] at aligned total
  apply Covers.pages
  · intro index inside
    have length := count index
    rw [pageCount_eq inside] at length
    refine ⟨page index inside, ?_, ?_, ?_, ?_, position index inside, ?_⟩
    · rw [offset, bytes]
      omega
    · rw [length]
      by_cases more : index + 1 < pages.toNat
      · rw [if_pos more, if_pos more]
        have one : pageSizeWord.toInt = 512 := rfl
        rw [one, bytes]
        omega
      · rw [if_neg more, if_neg more, toInt_ofInt_eq]
        · rw [bytes]
          omega
        · unfold InRange
          rw [bytes]
          omega
    · split <;> rw [bytes] <;> omega
    · split <;> rw [bytes] <;> omega
    · intro below
      rw [bytes] at below
      have fits := sameSegment (by omega)
      split
      · rw [bytes]
        omega
      · exact fits
  · intro zero
    omega

theorem pagePosition_eq (inFileAddr : Word) (index : Nat) :
    inFileAddr + BitVec.ofNat 32 index * pageSizeWord =
      BitVec.ofInt 32 (inFileAddr.toInt + (index * pageSize : Nat)) := by
  have page : pageSizeWord = BitVec.ofInt 32 pageSize := rfl
  rw [BitVec.ofInt_add, BitVec.ofInt_toInt, Nat.cast_mul,
    BitVec.ofInt_mul, BitVec.ofInt_natCast, page]

/-- The subtraction for `tempDataSize` overflows. -/
def Overflows (header : NoffHeader) : Prop :=
  header.initData.size.toInt - gap header < -2147483648

instance (header : NoffHeader) : Decidable (Overflows header) :=
  inferInstanceAs (Decidable (_ < _))

theorem tempDataSize_toInt (regular : ¬Overflows header) :
    (tempDataSize header).toInt = header.initData.size.toInt - gap header := by
  have limits := toInt_inRange header.initData.size
  have bounds := gap_bounds header
  apply toInt_ofInt_eq
  unfold Overflows at regular
  unfold InRange at limits ⊢
  omega

theorem tempDataSize_of_overflow (overflow : Overflows header) :
    0 ≤ (tempDataSize header).toInt := by
  have limits := toInt_inRange header.initData.size
  have bounds := gap_bounds header
  have page := pageSize_eq
  unfold Overflows at overflow
  unfold InRange at limits
  rw [tempDataSize, toInt_ofInt, wrap32]
  omega

theorem firstDataPageSize_toInt (header : NoffHeader) :
    (layout header).firstDataPageSize.toInt =
      if header.initData.size.toInt < gap header ∧ ¬Overflows header then
        header.initData.size.toInt
      else gap header := by
  have bounds := gap_bounds header
  have page := pageSize_eq
  have inRange : InRange (gap header) := by
    unfold InRange
    omega
  by_cases overflow : Overflows header
  · rw [if_neg (fun both => both.2 overflow),
      (layout_long (tempDataSize_of_overflow overflow)).2.2,
      toInt_ofInt_eq inRange]
  · have temp := tempDataSize_toInt overflow
    split
    · rename_i small
      rw [(layout_short (by omega)).2]
    · rename_i large
      have enough : gap header ≤ header.initData.size.toInt := by
        by_contra less
        exact large ⟨by omega, overflow⟩
      rw [(layout_long (by omega)).2.2, toInt_ofInt_eq inRange]

theorem codeCopies_cover (nonnegative : 0 ≤ header.code.size.toInt) :
    Covers header 0 (codeCopies header) header.code.size.toInt.toNat := by
  unfold codeCopies
  by_cases positive : 0 < header.code.size.toInt
  · rw [if_pos positive, numCodePage_eq]
    have total := pages_toNat nonnegative (toInt_inRange _)
    have bounds := gap_bounds header
    have bytes : pageSize = 512 := rfl
    unfold gap at bounds
    refine Covers.segment rfl positive (toInt_inRange _) (by omega) ?_ ?_ ?_ ?_ ?_
    · intro index inside
      rw [Nat.zero_add, bytes, Nat.mul_div_cancel _ (by decide)]
      rfl
    · intro index
      rfl
    · intro index
      simp only [codeCopy, numCodePage_eq, lastCodePageSize_eq, gap]
    · intro index inside
      have below : ((0 + index * pageSize : Nat) : Int) <
          header.code.size.toInt := by
        rw [bytes] at inside bounds total ⊢
        omega
      rw [filePosition, if_pos below, Nat.zero_add]
      exact pagePosition_eq _ _
    · intro _
      omega
  · rw [if_neg positive]
    have zero : header.code.size.toInt.toNat = 0 := by omega
    rw [zero]
    exact .done

theorem firstCopies_cover {amount : Nat}
    (nonnegative : 0 ≤ header.code.size.toInt) (positive : 0 < amount)
    (fits : (amount : Int) ≤ gap header)
    (first : (layout header).firstDataPageSize.toInt = amount) :
    Covers header header.code.size.toInt.toNat (firstCopies header)
      (header.code.size.toInt.toNat + amount) := by
  have bytes : pageSize = 512 := rfl
  have last := lastCodePageSize_toInt header
  have bounds := gap_bounds header
  have total := pages_toNat nonnegative (toInt_inRange _)
  have pages := numCodePage_eq header
  have between : -header.code.size.toInt % pageSize = gap header := rfl
  have taken : (layout header).lastCodePageSize.toInt < pageSize ∧
      0 < (layout header).firstDataPageSize.toInt := by omega
  unfold firstCopies
  simp only [if_pos taken]
  rw [between, ← pages] at total
  rw [bytes] at last bounds total between
  refine .copy ⟨?_, ?_, ?_, by omega, ?_, ?_, by omega⟩ .done
  · have small := (layout header).numCodePage.isLt
    simp only [BitVec.toNat_sub]
    rw [show (1#32 : Word).toNat = 1 from rfl, bytes]
    omega
  · simp only [last]
    rw [bytes]
    omega
  · simp only [first]
    omega
  · rw [bytes]
    omega
  · have behind : ¬(header.code.size.toInt.toNat : Int) <
        header.code.size.toInt := by omega
    rw [filePosition, if_neg behind, Int.toNat_of_nonneg nonnegative,
      Int.sub_self, Int.add_zero, BitVec.ofInt_toInt]

theorem firstCopies_eq_nil
    (nothing : gap header = 0 ∨ (layout header).firstDataPageSize.toInt ≤ 0) :
    firstCopies header = [] := by
  have last := lastCodePageSize_toInt header
  unfold firstCopies
  simp only
  rw [if_neg (by omega)]

theorem firstCopies_eq_nil_of_no_data (noData : header.initData.size.toInt ≤ 0)
    (regular : ¬Overflows header) : firstCopies header = [] := by
  have bounds := gap_bounds header
  apply firstCopies_eq_nil
  by_cases small : header.initData.size.toInt < gap header
  · right
    rw [firstDataPageSize_toInt, if_pos ⟨small, regular⟩]
    exact noData
  · left
    omega

theorem dataCopies_cover (nonnegative : 0 ≤ header.code.size.toInt)
    (rest : gap header < header.initData.size.toInt) :
    Covers header (header.code.size.toInt + gap header).toNat (dataCopies header)
      (header.code.size.toInt + header.initData.size.toInt).toNat := by
  have bytes : pageSize = 512 := rfl
  have bounds := gap_bounds header
  have total := pages_toNat nonnegative (toInt_inRange _)
  have between : -header.code.size.toInt % pageSize = gap header := rfl
  have limits := toInt_inRange header.initData.size
  have inRange : InRange (header.initData.size.toInt - gap header) := by
    unfold InRange at limits ⊢
    omega
  have temp := tempDataSize_toInt (Int.not_lt.mpr inRange.1)
  obtain ⟨pages, last, first⟩ := layout_long (show 0 ≤ (tempDataSize header).toInt by omega)
  have positive : 0 < header.initData.size.toInt - gap header := by omega
  have dataTotal := pages_toNat positive.le inRange
  rw [temp] at pages last
  unfold dataCopies
  rw [if_pos (by omega), pages]
  rw [between, ← numCodePage_eq] at total
  have small := toInt_inRange header.code.size
  unfold InRange at small limits
  rw [bytes] at total bounds
  refine Covers.segment ?_ positive inRange (by omega) ?_ ?_ ?_ ?_ ?_
  · rw [bytes]
    omega
  · intro index inside
    simp only [dataCopy, BitVec.toNat_add, BitVec.toNat_ofNat]
    rw [bytes] at dataTotal inside ⊢
    omega
  · intro index
    rfl
  · intro index
    simp only [dataCopy, pages, last]
  · intro index inside
    have behind : ¬((header.code.size.toInt + gap header).toNat +
        index * pageSize : Nat) < header.code.size.toInt := by omega
    rw [filePosition, if_neg behind]
    simp only [dataCopy, first, pagePosition_eq]
    rw [← BitVec.ofInt_add]
    congr 1
    omega
  · intro below
    omega

theorem dataCopies_eq_nil (nothing : header.initData.size.toInt ≤ gap header) :
    dataCopies header = [] := by
  have bounds := gap_bounds header
  unfold dataCopies
  split
  · rename_i positive
    have regular : ¬Overflows header := by
      unfold Overflows
      have page := pageSize_eq
      omega
    have temp := tempDataSize_toInt regular
    have none : (layout header).numDataPage.toNat = 0 := by
      rcases Int.lt_or_eq_of_le nothing with less | same
      · rw [(layout_short (by omega)).1]
        rfl
      · have zero : (tempDataSize header).toInt = 0 := by omega
        rw [(layout_long (by omega)).1, zero]
        rfl
    rw [none]
    rfl
  · rfl

/-- How far the copies go from address 0 on, if the size of the code is not
negative.  After an overflow the last page of the code is filled up although
the size of the initialised data is negative. -/
def imageSize (header : NoffHeader) : Nat :=
  let code := header.code.size.toInt
  let data := header.initData.size.toInt
  if 0 < data then (code + data).toNat
  else if Overflows header then (code + gap header).toNat
  else code.toNat

/-- The part behind the code on its last page. -/
theorem firstCopies_cover_rest (nonnegative : 0 ≤ header.code.size.toInt)
    (large : gap header ≤ header.initData.size.toInt ∨ Overflows header) :
    Covers header header.code.size.toInt.toNat (firstCopies header)
      (header.code.size.toInt + gap header).toNat := by
  have bounds := gap_bounds header
  have first := firstDataPageSize_toInt header
  have rest : ¬(header.initData.size.toInt < gap header ∧ ¬Overflows header) := by
    rintro ⟨small, regular⟩
    rcases large with enough | overflow
    · omega
    · exact regular overflow
  rw [if_neg rest] at first
  by_cases empty : gap header = 0
  · rw [firstCopies_eq_nil (.inl empty), empty, Int.add_zero]
    exact .done
  · have ends : (header.code.size.toInt + gap header).toNat =
        header.code.size.toInt.toNat + (gap header).toNat := by omega
    rw [ends]
    exact firstCopies_cover nonnegative (by omega) (by omega) (by omega)

theorem copies_cover (nonnegative : 0 ≤ header.code.size.toInt) :
    Covers header 0 (copies header) (imageSize header) := by
  have bounds := gap_bounds header
  have page := pageSize_eq
  have code := codeCopies_cover nonnegative
  unfold copies imageSize
  simp only
  by_cases positive : 0 < header.initData.size.toInt
  · have regular : ¬Overflows header := by
      unfold Overflows
      omega
    rw [if_pos positive]
    by_cases large : gap header ≤ header.initData.size.toInt
    · have first := firstCopies_cover_rest nonnegative (.inl large)
      refine (code.append first).append ?_
      rcases Int.lt_or_eq_of_le large with more | same
      · exact dataCopies_cover nonnegative more
      · rw [dataCopies_eq_nil same.ge, same]
        exact .done
    · have first := firstDataPageSize_toInt header
      rw [if_pos ⟨by omega, regular⟩] at first
      have ends : (header.code.size.toInt +
          header.initData.size.toInt).toNat = header.code.size.toInt.toNat +
            header.initData.size.toInt.toNat := by omega
      rw [dataCopies_eq_nil (by omega), List.append_nil, ends]
      exact code.append (firstCopies_cover nonnegative (by omega) (by omega) (by omega))
  · rw [if_neg positive, dataCopies_eq_nil (by omega), List.append_nil]
    by_cases overflow : Overflows header
    · rw [if_pos overflow]
      exact code.append (firstCopies_cover_rest nonnegative (.inr overflow))
    · rw [if_neg overflow]
      rw [firstCopies_eq_nil_of_no_data (by omega) overflow, List.append_nil]
      exact code

/-! ## Code of negative size -/

variable (negative : header.code.size.toInt < 0)
include negative

theorem codeCopies_eq_nil : codeCopies header = [] := by
  unfold codeCopies
  rw [if_neg (by omega)]

theorem copies_eq_nil (noData : header.initData.size.toInt ≤ 0) (regular : ¬Overflows header) :
    copies header = [] := by
  have bounds := gap_bounds header
  rw [copies, codeCopies_eq_nil negative,
    firstCopies_eq_nil_of_no_data noData regular,
    dataCopies_eq_nil (by omega)]
  rfl

/-- The number of code pages minus a little is a huge unsigned number. -/
theorem negative_page {less : Nat} (small : less ≤ 1) (some : gap header = 0 ∨ less = 1) :
    numPhysPages ≤ (BitVec.ofInt 32 (divRoundUp header.code.size.toInt pageSize - less)).toNat := by
  have bounds := gap_bounds header
  have total := divRoundUp_mul header.code.size.toInt
  have limits := toInt_inRange header.code.size
  have between : -header.code.size.toInt % pageSize = gap header := rfl
  have frames : numPhysPages = 128 := rfl
  rw [between] at total
  rw [show (pageSize : Int) = 512 from rfl] at total bounds ⊢
  unfold InRange at limits
  rw [BitVec.toNat_ofInt, frames]
  omega

/-- The first call with a negative size of the code reads an entry which no
page table has. -/
theorem copies_of_negative (something : 0 < header.initData.size.toInt ∨ Overflows header) :
    ∃ copy rest, copies header = copy :: rest ∧ numPhysPages ≤ copy.page := by
  have bounds := gap_bounds header
  have page := pageSize_eq
  have last := lastCodePageSize_toInt header
  have first := firstDataPageSize_toInt header
  have limits := toInt_inRange header.initData.size
  unfold InRange at limits
  unfold Overflows at something first
  rw [copies, codeCopies_eq_nil negative, List.nil_append]
  by_cases empty : gap header = 0
  · have positive : 0 < header.initData.size.toInt := by omega
    have regular : ¬Overflows header := by
      unfold Overflows
      omega
    have temp := tempDataSize_toInt regular
    have pages := pages_toNat (show 0 ≤ (tempDataSize header).toInt by omega) (toInt_inRange _)
    rw [← (layout_long (by omega)).1] at pages
    have many : (layout header).numDataPage.toNat ≠ 0 := by
      intro zero
      rw [zero, page] at pages
      omega
    obtain ⟨more, counted⟩ := Nat.exists_eq_succ_of_ne_zero many
    refine ⟨dataCopy header 0, ?_, ?_, ?_⟩
    · exact (List.range more).map (dataCopy header ∘ Nat.succ)
    · rw [firstCopies_eq_nil (.inl empty), List.nil_append]
      unfold dataCopies
      rw [if_pos positive, counted, Nat.succ_eq_add_one,
        List.range_succ_eq_map, List.map_cons, List.map_map]
    · have huge := negative_page negative (Nat.zero_le 1) (.inl empty)
      rw [Nat.cast_zero, Int.sub_zero, ← numCodePage_eq] at huge
      simpa only [dataCopy, BitVec.add_zero] using huge
  · have taken : (layout header).lastCodePageSize.toInt < pageSize ∧
        0 < (layout header).firstDataPageSize.toInt := by
      split at first <;> omega
    unfold firstCopies
    simp only [if_pos taken, List.cons_append]
    refine ⟨_, _, rfl, ?_⟩
    have huge := negative_page negative (Nat.le_refl 1) (.inr rfl)
    rw [ofInt_sub, ← numCodePage_eq] at huge
    exact huge

end AddrSpace

end Nachos
