import Nachos.Lib.Words

/-!
# Bounded blocks of bytes

A block is an allocated run of bytes with a size.  Loads and stores outside
the block fail, so a computation which succeeds has stayed inside the blocks
it was given.  `slice` and `splice` are the unbounded counterparts on byte
images.
-/

open Words

namespace Memory

/-- The `count` bytes of an image from `start` on. -/
def slice (image : Nat → Byte) (start count : Nat) : List Byte :=
  (List.range count).map fun index => image (start + index)

/-- Replace the bytes of an image from `start` on by `data`. -/
def splice (image : Nat → Byte) (start : Nat) (data : List Byte) : Nat → Byte :=
  fun offset =>
    if start ≤ offset ∧ offset < start + data.length then
      data.getD (offset - start) 0#8
    else image offset

@[simp] theorem slice_length (image : Nat → Byte) (start count : Nat) :
    (slice image start count).length = count := by
  simp [slice]

variable {count start : Nat}

theorem slice_getD (image : Nat → Byte) {index : Nat} (inside : index < count) :
    (slice image start count).getD index 0#8 = image (start + index) := by
  simp [slice, List.getD, inside]

theorem slice_congr {left right : Nat → Byte}
    (agree : ∀ offset, start ≤ offset → offset < start + count → left offset = right offset) :
    slice left start count = slice right start count := by
  unfold slice
  apply List.map_congr_left
  intro index member
  have inside : index < count := List.mem_range.mp member
  exact agree (start + index) (by omega) (by omega)

theorem slice_add (image : Nat → Byte) (start first second : Nat) :
    slice image start (first + second) =
      slice image start first ++ slice image (start + first) second := by
  simp [slice, List.range_add, Nat.add_assoc]

theorem slice_succ (image : Nat → Byte) (start count : Nat) :
    slice image start (count + 1) = image start :: slice image (start + 1) count := by
  rw [Nat.add_comm, slice_add]
  simp [slice]

variable {data : List Byte}

theorem splice_inside (image : Nat → Byte) {offset : Nat}
    (lower : start ≤ offset) (upper : offset < start + data.length) :
    splice image start data offset = data.getD (offset - start) 0#8 := by
  simp [splice, lower, upper]

theorem splice_outside (image : Nat → Byte) {offset : Nat}
    (outside : offset < start ∨ start + data.length ≤ offset) :
    splice image start data offset = image offset := by
  have missed : ¬(start ≤ offset ∧ offset < start + data.length) := by omega
  simp only [splice, if_neg missed]

theorem splice_slice (image source : Nat → Byte) (start origin count offset : Nat) :
    splice image start (slice source origin count) offset =
      if start ≤ offset ∧ offset < start + count then
        source (origin + (offset - start))
      else image offset := by
  split
  · rename_i copied
    rw [splice_inside _ copied.1 (by rw [slice_length]; exact copied.2), slice_getD _ (by omega)]
  · apply splice_outside
    rw [slice_length]
    omega

theorem slice_ofList (data : List Byte) (enough : count ≤ data.length) :
    slice (fun offset => data.getD offset 0#8) 0 count = data.take count := by
  apply List.ext_getElem
  · simp [enough]
  · intro index leftBound rightBound
    have inside : index < data.length := by
      simp only [slice_length] at leftBound
      omega
    simp [slice, inside]

@[simp] theorem splice_nil (image : Nat → Byte) (start : Nat) :
    splice image start [] = image := by
  funext offset
  apply splice_outside
  simp only [List.length_nil]
  omega

/-! ## Slices as byte arrays -/

theorem slice_getElem? (image : Nat → Byte) (start count index : Nat) :
    (slice image start count)[index]? =
      if index < count then some (image (start + index)) else none := by
  split <;> simp_all [slice]

theorem slice_range (image : Nat → Byte) {length wanted : Nat}
    (clipped : count = min wanted (length - start)) :
    slice image start count = ((slice image 0 length).drop start).take wanted := by
  apply List.ext_getElem?
  intro index
  rw [List.getElem?_take, List.getElem?_drop, slice_getElem?, slice_getElem?, Nat.zero_add]
  by_cases inside : index < count
  · rw [if_pos inside, if_pos (by omega), if_pos (by omega)]
  · rw [if_neg inside]
    by_cases few : index < wanted
    · rw [if_pos few, if_neg (by omega)]
    · rw [if_neg few]

/-- Replacing a range of a byte array. -/
def replace (contents : List Byte) (start : Nat) (data : List Byte) :
    List Byte :=
  contents.take start ++ data ++ contents.drop (start + data.length)

theorem slice_splice (image : Nat → Byte) {length : Nat}
    (nonempty : data ≠ [] → start + data.length ≤ length) :
    slice (splice image start data) 0 length = replace (slice image 0 length) start data := by
  cases data with
  | nil => simp [replace]
  | cons byte rest =>
    generalize wholeEq : byte :: rest = data at nonempty ⊢
    have inside := nonempty (by rw [← wholeEq]; simp)
    unfold replace
    apply List.ext_getElem?
    intro index
    rw [slice_getElem?, List.append_assoc]
    have taken : ((slice image 0 length).take start).length = start := by
      simp only [List.length_take, slice_length]
      omega
    by_cases before : index < start
    · rw [if_pos (by omega), List.getElem?_append_left (by omega),
        List.getElem?_take_of_lt before, slice_getElem?,
        if_pos (by omega), splice_outside _ (by omega)]
    · rw [List.getElem?_append_right (by omega), taken]
      by_cases within : index < start + data.length
      · rw [if_pos (by omega), List.getElem?_append_left (by omega),
          splice_inside _ (by omega) (by omega)]
        have position : index - start < data.length := by omega
        simp [position]
      · rw [List.getElem?_append_right (by omega), List.getElem?_drop, slice_getElem?]
        have position : start + data.length + (index - start - data.length) = index := by omega
        rw [position]
        by_cases short : index < length
        · rw [if_pos short, if_pos short, splice_outside _ (by omega)]
        · rw [if_neg short, if_neg short]

structure Block where
  size : Nat
  get : Nat → Byte

namespace Block

/-- Load `count` bytes at a signed offset, if they all lie in the block.  A
load of nothing touches nothing. -/
def load (block : Block) (offset : Int) (count : Nat) : Option (List Byte) :=
  if count = 0 ∨ 0 ≤ offset ∧ offset + count ≤ block.size then
    some (slice block.get offset.toNat count)
  else none

/-- Store bytes at a signed offset, if they all fit into the block.  A store
of nothing touches nothing. -/
def store (block : Block) (offset : Int) (data : List Byte) :
    Option Block :=
  if data = [] ∨ 0 ≤ offset ∧ offset + data.length ≤ block.size then
    some { block with get := splice block.get offset.toNat data }
  else none

variable {offset : Int}

theorem load_eq (block : Block) {count : Nat} (lower : 0 ≤ offset)
    (upper : offset + count ≤ block.size) :
    block.load offset count = some (slice block.get offset.toNat count) := by
  simp [load, lower, upper]

variable {data : List Byte}

theorem store_eq (block : Block) (lower : 0 ≤ offset) (upper : offset + data.length ≤ block.size) :
    block.store offset data = some { block with get := splice block.get offset.toNat data } := by
  simp [store, lower, upper]

theorem load_inside {block : Block} {count : Nat} (success : block.load offset count = some data) :
    data.length = count ∧ (count = 0 ∨ 0 ≤ offset ∧ offset + count ≤ block.size) := by
  unfold load at success
  split at success
  · rename_i inside
    cases success
    exact ⟨slice_length _ _ _, inside⟩
  · cases success

theorem store_inside {block stored : Block} (nonempty : data ≠ [])
    (success : block.store offset data = some stored) :
    0 ≤ offset ∧ offset + data.length ≤ block.size := by
  unfold store at success
  split at success
  · rename_i condition
    rcases condition with empty | inside
    · exact absurd empty nonempty
    · exact inside
  · cases success

end Block

end Memory
