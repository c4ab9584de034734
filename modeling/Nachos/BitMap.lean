import Nachos.Utility

/-!
# Bitmaps

A `BitMap` manages a fixed number of bits packed into 32-bit words.  The
machine-level operations work on the words; `test` on a valid index is the
only view later modules need.  Every allocator of the kernel takes its
resources from `find`, so the last section says what a sequence of `find`
calls hands out.
-/

open Words Function

namespace Nachos

def bitsInByte : Nat := 8

def bitsInWord : Nat := 32

/-- `divRoundUp(numBits, BitsInWord)`. -/
def numWords (numBits : Nat) : Nat :=
  numBits / bitsInWord + if numBits % bitsInWord > 0 then 1 else 0

structure BitMap (numBits : Nat) where
  map : Fin (numWords numBits) → Word

namespace BitMap

variable {numBits : Nat}

/-- `which / BitsInWord`. -/
def wordOf (which : Fin numBits) : Fin (numWords numBits) :=
  ⟨which.val / bitsInWord, by
    have inside := which.isLt
    unfold numWords bitsInWord
    split <;> omega⟩

/-- `1 << (which % BitsInWord)`. -/
def maskOf (which : Fin numBits) : Word :=
  1#32 <<< (which.val % bitsInWord)

def test (bits : BitMap numBits) (which : Fin numBits) : Bool :=
  bits.map (wordOf which) &&& maskOf which ≠ 0#32

def mark (bits : BitMap numBits) (which : Fin numBits) : BitMap numBits :=
  ⟨update bits.map (wordOf which) (bits.map (wordOf which) ||| maskOf which)⟩

def clear (bits : BitMap numBits) (which : Fin numBits) : BitMap numBits :=
  ⟨update bits.map (wordOf which) (bits.map (wordOf which) &&& ~~~maskOf which)⟩

/-- The `ASSERT(which >= 0 && which < numBits)` of `Mark`, `Clear` and
`Test`. -/
def checkIndex (numBits : Nat) (which : Int) : Result (Fin numBits) :=
  if valid : which.toNat < numBits ∧ 0 ≤ which then
    .ok ⟨which.toNat, valid.1⟩
  else .error .assertion

def checkedMark (bits : BitMap numBits) (which : Int) : Result (BitMap numBits) := do
  let index ← checkIndex numBits which
  return bits.mark index

def checkedClear (bits : BitMap numBits) (which : Int) : Result (BitMap numBits) := do
  let index ← checkIndex numBits which
  return bits.clear index

def checkedTest (bits : BitMap numBits) (which : Int) : Result Bool := do
  let index ← checkIndex numBits which
  return bits.test index

/-- `BitMap::BitMap`: clear every bit of the fresh words. -/
def new (fresh : Fin (numWords numBits) → Word) : BitMap numBits :=
  (List.finRange numBits).foldl clear ⟨fresh⟩

/-- `BitMap::Find`: the first clear bit, which becomes marked, or `-1`. -/
def find (bits : BitMap numBits) : Int × BitMap numBits :=
  match (List.finRange numBits).find? fun which => !bits.test which with
  | some which => (which.val, bits.mark which)
  | none => (-1, bits)

def numClear (bits : BitMap numBits) : Nat :=
  (List.finRange numBits).countP fun which => !bits.test which

/-- The results of `count` consecutive `find` calls. -/
def findMany : Nat → BitMap numBits → List Int × BitMap numBits
  | 0, bits => ([], bits)
  | count + 1, bits =>
    let (first, next) := bits.find
    let (rest, last) := findMany count next
    (first :: rest, last)

/-! ## Single bits -/

private theorem and_shift_ne_zero_iff (word : Word) {position : Nat} (inside : position < 32) :
    word &&& 1#32 <<< position ≠ 0#32 ↔ word.getLsbD position = true := by
  constructor
  · intro nonzero
    by_contra unset
    apply nonzero
    apply BitVec.eq_of_getLsbD_eq
    intro index _
    by_cases same : index = position
    · subst index
      simp [unset]
    · by_cases above : index < position
      · simp [above]
      · have later : index - position ≠ 0 := by omega
        have unmasked : (1#32).getLsbD (index - position) = false := by
          simp [BitVec.getLsbD_one, later]
        simp [BitVec.getLsbD_shiftLeft, unmasked]
  · intro set zero
    have bit := congrArg (fun value => BitVec.getLsbD value position) zero
    simp only [BitVec.getLsbD_and, set, BitVec.getLsbD_shiftLeft] at bit
    simp [inside] at bit

private theorem position_lt (which : Fin numBits) :
    which.val % bitsInWord < 32 := Nat.mod_lt _ (by decide)

theorem test_eq (bits : BitMap numBits) (which : Fin numBits) :
    bits.test which = (bits.map (wordOf which)).getLsbD (which.val % bitsInWord) := by
  rw [Bool.eq_iff_iff, ← and_shift_ne_zero_iff _ (position_lt which)]
  exact decide_eq_true_iff

private theorem maskOf_getLsbD (which other : Fin numBits) :
    (maskOf which).getLsbD (other.val % bitsInWord) =
      decide (other.val % bitsInWord = which.val % bitsInWord) := by
  have inside := position_lt other
  unfold maskOf
  by_cases same : other.val % bitsInWord = which.val % bitsInWord
  · simp [same, position_lt which]
  · by_cases below : other.val % bitsInWord < which.val % bitsInWord
    · simp [same, below]
    · have later : other.val % bitsInWord - which.val % bitsInWord ≠ 0 := by omega
      simp [BitVec.getLsbD_one, same, later]

variable {which : Fin numBits}

private theorem position_ne {other : Fin numBits} (word : wordOf other = wordOf which)
    (differ : other ≠ which) : other.val % bitsInWord ≠ which.val % bitsInWord := by
  intro position
  apply differ
  have quotient : other.val / bitsInWord = which.val / bitsInWord :=
    congrArg Fin.val word
  apply Fin.ext
  rw [← Nat.div_add_mod other.val bitsInWord,
    ← Nat.div_add_mod which.val bitsInWord, quotient, position]

@[simp] theorem test_mark (bits : BitMap numBits)
    (which other : Fin numBits) :
    (bits.mark which).test other = (decide (other = which) || bits.test other) := by
  rw [test_eq, test_eq]
  by_cases word : wordOf other = wordOf which
  · have masked := maskOf_getLsbD which other
    by_cases same : other = which
    · subst other
      simp [mark, masked]
    · simp [mark, word, masked, same, position_ne word same]
  · have same : other ≠ which := fun equal => word (congrArg wordOf equal)
    simp [mark, word, same]

@[simp] theorem test_clear (bits : BitMap numBits)
    (which other : Fin numBits) :
    (bits.clear which).test other = (!decide (other = which) && bits.test other) := by
  rw [test_eq, test_eq]
  have inside := position_lt other
  by_cases word : wordOf other = wordOf which
  · have masked := maskOf_getLsbD which other
    by_cases same : other = which
    · subst other
      simp [clear, masked, inside]
    · simp only [clear, word, update_self, BitVec.getLsbD_and, BitVec.getLsbD_not, masked]
      simp [same, position_ne word same, inside]
  · have same : other ≠ which := fun equal => word (congrArg wordOf equal)
    simp [clear, word, same]

@[simp] theorem checkIndex_val (which : Fin numBits) :
    checkIndex numBits (which.val : Int) = .ok which := by
  simp [checkIndex]

private theorem test_foldl_clear (indices : List (Fin numBits))
    (bits : BitMap numBits) (other : Fin numBits) :
    (indices.foldl clear bits).test other = (!decide (other ∈ indices) && bits.test other) := by
  induction indices generalizing bits with
  | nil => simp
  | cons index indices induction =>
    rw [List.foldl_cons, induction, test_clear]
    by_cases same : other = index <;> simp [same]

@[simp] theorem test_new (fresh : Fin (numWords numBits) → Word)
    (which : Fin numBits) : (new fresh).test which = false := by
  simp [new, test_foldl_clear]

/-! ## Allocation -/

variable {bits : BitMap numBits}

/-- `find` on a map with a clear bit takes a clear bit and marks only it. -/
theorem find_of_clear (room : 0 < bits.numClear) :
    ∃ which : Fin numBits, bits.test which = false ∧
      bits.find = ((which.val : Int), bits.mark which) := by
  obtain ⟨witness, _, clearWitness⟩ := List.countP_pos_iff.mp room
  have found : ((List.finRange numBits).find? fun which => !bits.test which).isSome := by
    rw [List.find?_isSome]
    exact ⟨witness, List.mem_finRange witness, clearWitness⟩
  obtain ⟨which, selected⟩ := Option.isSome_iff_exists.mp found
  refine ⟨which, ?_, ?_⟩
  · simpa using List.find?_some selected
  · simp [find, selected]

theorem numClear_pos (unset : bits.test which = false) : 0 < bits.numClear :=
  List.countP_pos_iff.mpr ⟨which, List.mem_finRange which, by simp [unset]⟩

theorem find_first (unset : bits.test which = false)
    (below : ∀ other, other < which → bits.test other = true) :
    bits.find = ((which.val : Int), bits.mark which) := by
  have found : (List.finRange numBits).find? (fun index => !bits.test index) = some which := by
    rw [List.find?_eq_some_iff_getElem]
    refine ⟨by simp [unset], which.val, by simp, by simp, ?_⟩
    intro earlier inside
    have marked := below ⟨earlier, by omega⟩ inside
    simpa using marked
  simp [find, found]

theorem find_of_full (full : bits.numClear = 0) : bits.find = (-1, bits) := by
  have absent : (List.finRange numBits).find? (fun which => !bits.test which) = none := by
    rw [List.find?_eq_none]
    exact List.countP_eq_zero.mp full
  simp [find, absent]

theorem find_inv {after : BitMap numBits} {found : Int}
    (result : bits.find = (found, after)) (nonnegative : 0 ≤ found) :
    ∃ which : Fin numBits, found = which.val ∧ after = bits.mark which ∧
      bits.test which = false ∧
      ∀ other, other < which → bits.test other = true := by
  unfold find at result
  split at result
  · rename_i which selected
    cases result
    rw [List.find?_eq_some_iff_getElem] at selected
    obtain ⟨unset, index, inside, reached, earlier⟩ := selected
    rw [List.getElem_finRange] at reached
    have position : which.val = index := by
      rw [← reached]
      rfl
    refine ⟨which, rfl, rfl, by simpa using unset, ?_⟩
    intro other below
    have marked := earlier other.val (by omega)
    simpa using marked
  · cases result
    omega

/-- The indices of the clear bits. -/
def clearBits (bits : BitMap numBits) : Finset (Fin numBits) :=
  Finset.univ.filter fun which => bits.test which = false

theorem numClear_eq_card (bits : BitMap numBits) : bits.numClear = bits.clearBits.card := by
  have distinct : ((List.finRange numBits).filter fun which => !bits.test which).Nodup :=
    (List.nodup_finRange numBits).filter _
  rw [numClear, List.countP_eq_length_filter, ← List.toFinset_card_of_nodup distinct]
  congr 1
  ext which
  simp [clearBits]

theorem numClear_le (bits : BitMap numBits) : bits.numClear ≤ numBits :=
  List.countP_le_length.trans_eq List.length_finRange

theorem numClear_mark (unset : bits.test which = false) :
    (bits.mark which).numClear + 1 = bits.numClear := by
  have erased : (bits.mark which).clearBits = bits.clearBits.erase which := by
    ext other
    simp [clearBits]
  have member : which ∈ bits.clearBits := by simp [clearBits, unset]
  rw [numClear_eq_card, numClear_eq_card, erased, Finset.card_erase_add_one member]

/-- With enough clear bits, `count` calls of `find` hand out `count` different
clear bits and mark exactly those. -/
theorem findMany_spec {count : Nat} (room : count ≤ bits.numClear) :
    ∃ found : List (Fin numBits),
      (bits.findMany count).1 =
        found.map (fun which => (which.val : Int)) ∧
      found.length = count ∧ found.Nodup ∧
      (∀ which ∈ found, bits.test which = false) ∧
      ∀ other, (bits.findMany count).2.test other =
        (decide (other ∈ found) || bits.test other) := by
  induction count generalizing bits with
  | zero => exact ⟨[], by simp [findMany]⟩
  | succ count induction =>
    obtain ⟨first, unset, chosen⟩ :=
      find_of_clear (by omega : 0 < bits.numClear)
    have remaining : count ≤ (bits.mark first).numClear := by
      have fewer := numClear_mark unset
      omega
    obtain ⟨rest, results, length, distinct, clear, marked⟩ :=
      induction remaining
    have firstAbsent : first ∉ rest := by
      intro member
      have still := clear first member
      simp at still
    refine ⟨first :: rest, ?_, by simp [length], ?_, ?_, ?_⟩
    · simp [findMany, chosen, results]
    · exact List.nodup_cons.mpr ⟨firstAbsent, distinct⟩
    · intro which member
      rcases List.mem_cons.mp member with rfl | later
      · exact unset
      · have still := clear which later
        simp only [test_mark, Bool.or_eq_false_iff] at still
        exact still.2
    · intro other
      have step : (findMany (count + 1) bits).2 = ((bits.mark first).findMany count).2 := by
        simp [findMany, chosen]
      rw [step, marked other, test_mark]
      by_cases same : other = first <;> simp [same]

end BitMap

end Nachos
