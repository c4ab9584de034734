import Nachos.Userprog.UnixFiles

/-!
# Files of the tools in `bin`

The tools run on the host and move the position of a file with `lseek`, whose
result they do not look at.  `off_t` has 32 bits there, as `long` has, so a
file ends at the largest such offset at the latest.
-/

open Words

namespace Nachos

/-- An open file of the host. -/
structure HostFile where
  contents : List Byte
  position : Nat

namespace HostFile

def offsetMax : Nat := 2147483647

/-- `lseek(file, offset, 0)`.  It fails for a negative offset, and the
position stays where it is. -/
def lseek (file : HostFile) (offset : Word) : HostFile :=
  if 0 ≤ offset.toInt then { file with position := offset.toNat } else file

/-- `read(file, buffer, nBytes)`: the count and the bytes. -/
def read (file : HostFile) (nBytes : Word) : (Word × List Byte) × HostFile :=
  if nBytes.toInt < 0 then ((-1#32, []), file)
  else
    let bytes := (file.contents.drop file.position).take nBytes.toNat
    ((BitVec.ofNat 32 bytes.length, bytes), { file with position := file.position + bytes.length })

/-- `write(file, buffer, nBytes)`: as many bytes as there is room for. -/
def write (file : HostFile) (buffer : List Byte) (nBytes : Word) : Word × HostFile :=
  if nBytes.toInt < 0 then (-1#32, file)
  else
    let data := (buffer.take nBytes.toNat).take (offsetMax - file.position)
    (BitVec.ofNat 32 data.length,
      { contents := Unix.overwrite file.contents file.position data
        position := file.position + data.length })

@[simp] theorem lseek_contents (file : HostFile) (offset : Word) :
    (file.lseek offset).contents = file.contents := by
  unfold lseek
  split <;> rfl

theorem lseek_position (file : HostFile) {offset : Word} (nonneg : 0 ≤ offset.toInt) :
    (file.lseek offset).position = offset.toNat := by
  rw [lseek, if_pos nonneg]

theorem count_eq {nBytes : Word} {count : Nat}
    (few : count ≤ nBytes.toNat) (all : BitVec.ofNat 32 count = nBytes) :
    count = nBytes.toNat := by
  have bound := nBytes.isLt
  rw [← all, BitVec.toNat_ofNat, Nat.mod_eq_of_lt (by omega)]

end HostFile

/-- The bytes of a file at an offset, if it has them. -/
def bytesAt (contents : List Byte) (offset size : Word) : Option (List Byte) :=
  if 0 ≤ offset.toInt ∧ 0 ≤ size.toInt ∧ offset.toNat + size.toNat ≤ contents.length then
    some ((contents.drop offset.toNat).take size.toNat)
  else none

theorem bytesAt_eq_some {contents bytes : List Byte} {offset size : Word} :
    bytesAt contents offset size = some bytes ↔
      0 ≤ offset.toInt ∧ 0 ≤ size.toInt ∧
        offset.toNat + size.toNat ≤ contents.length ∧
        (contents.drop offset.toNat).take size.toNat = bytes := by
  unfold bytesAt
  split
  · rename_i inside
    simp [inside]
  · rename_i outside
    constructor
    · intro impossible
      cases impossible
    · rintro ⟨first, second, third, -⟩
      exact absurd ⟨first, second, third⟩ outside

section

variable {contents bytes data : List Byte} {offset size : Word} {position : Nat}

theorem length_before_write (contents : List Byte) (position : Nat) :
    (contents.take position ++
      List.replicate (position - contents.length) 0#8).length = position := by
  simp only [List.length_append, List.length_take, List.length_replicate]
  omega

theorem length_overwrite (contents : List Byte) (position : Nat) (nonempty : data ≠ []) :
    (Unix.overwrite contents position data).length =
      max contents.length (position + data.length) := by
  rw [Unix.overwrite, if_neg nonempty, List.length_append, List.length_append,
    length_before_write, List.length_drop]
  omega

theorem bytesAt_overwrite_outside (found : bytesAt contents offset size = some bytes)
    (outside : offset.toNat + size.toNat ≤ position ∨ position + data.length ≤ offset.toNat) :
    bytesAt (Unix.overwrite contents position data) offset size =
      some bytes := by
  by_cases empty : data = []
  · rw [Unix.overwrite, if_pos empty, found]
  obtain ⟨nonneg, sizeNonneg, inside, rfl⟩ := bytesAt_eq_some.mp found
  refine bytesAt_eq_some.mpr ⟨nonneg, sizeNonneg, ?_, ?_⟩
  · rw [length_overwrite _ _ empty]
    omega
  rw [Unix.overwrite, if_neg empty]
  rcases outside with before | behind
  · rw [List.take_drop, List.take_drop, List.append_assoc, List.append_assoc,
      List.take_append_of_le_length, List.take_take, Nat.min_eq_left before]
    rw [List.length_take]
    omega
  · have start := length_before_write contents position
    rw [List.drop_append, List.drop_eq_nil_of_le, List.nil_append, List.drop_drop,
      List.length_append, start]
    · congr 2
      omega
    · rw [List.length_append, start]
      omega

theorem bytesAt_overwrite_inside (nonneg : 0 ≤ offset.toInt)
    (sizeNonneg : 0 ≤ size.toInt) (length : data.length = size.toNat) (nonempty : data ≠ []) :
    bytesAt (Unix.overwrite contents offset.toNat data) offset size =
      some data := by
  refine bytesAt_eq_some.mpr ⟨nonneg, sizeNonneg, ?_, ?_⟩
  · rw [length_overwrite _ _ nonempty]
    omega
  · have start := length_before_write contents offset.toNat
    rw [Unix.overwrite, if_neg nonempty, List.append_assoc, List.drop_left' start,
      List.take_left' length]

end

end Nachos
