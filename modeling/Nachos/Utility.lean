import Nachos.Lib.Block

/-!
# Host services of the kernel

Rounding macros, the ways a kernel computation can go wrong, and the byte
strings which stand for C strings.
-/

open Words

namespace Nachos

/-- How a kernel computation ends abnormally: a failed `ASSERT` aborts the
machine, an access outside an object has no defined continuation, a negative
allocation size is refused by the host, and a host division can overflow. -/
inductive Fault where
  | assertion
  | bounds
  | allocation
  | division
  deriving DecidableEq

abbrev Result := Except Fault

/-- `ASSERT(condition)`. -/
def assert (condition : Bool) : Result Unit :=
  if condition then .ok () else .error .assertion

/-- An access which must lie inside its object. -/
def inBounds {α : Type} : Option α → Result α
  | some value => .ok value
  | none => .error .bounds

@[simp] theorem inBounds_some {α : Type} (value : α) :
    inBounds (some value) = .ok value := rfl

theorem inBounds_inv {α : Type} {access : Option α} {value : α}
    (success : inBounds access = .ok value) : access = some value := by
  cases access with
  | none => cases success
  | some found => cases success; rfl

/-- `new char[size]`; `contents` is what the fresh block happens to hold. -/
def newBlock (size : Int) (contents : Nat → Byte) : Result Memory.Block :=
  if 0 ≤ size then .ok ⟨size.toNat, contents⟩ else .error .allocation

def divRoundDown (n s : Int) : Int := n.tdiv s

def divRoundUp (n s : Int) : Int :=
  n.tdiv s + if n.tmod s > 0 then 1 else 0

theorem bind_ok_inv {ε α β : Type} {first : Except ε α}
    {next : α → Except ε β} {value : β} (success : first >>= next = .ok value) :
    ∃ middle, first = .ok middle ∧ next middle = .ok value := by
  cases first with
  | error fault => cases success
  | ok middle => exact ⟨middle, rfl, success⟩

@[simp] theorem ok_bind {ε α β : Type} (value : α)
    (next : α → Except ε β) :
    (Except.ok value : Except ε α) >>= next = next value := by
  simp only [bind, Except.bind]

theorem eq_ok_of_toOption {ε α : Type} {result : Except ε α} {value : α}
    (success : result.toOption = some value) : result = .ok value := by
  cases result with
  | error fault => cases success
  | ok found =>
    cases success
    rfl

/-! ## C strings

A `char *` argument is the list of the bytes it points at; reading past the
end of the list finds the terminating NUL. -/

abbrev CString := List Byte

def CString.at (name : CString) (index : Nat) : Byte := name.getD index 0#8

/-- `!strncmp(left, right, limit)`, from position `index` on. -/
def strncmpEqual (left right : Nat → Byte) : Nat → Nat → Bool
  | 0, _ => true
  | limit + 1, index =>
    if left index ≠ right index then false
    else if left index = 0#8 then true
    else strncmpEqual left right limit (index + 1)

/-- The characters before the first NUL, at most `limit` of them. -/
def keyFrom (name : Nat → Byte) : Nat → Nat → List Byte
  | 0, _ => []
  | limit + 1, index =>
    if name index = 0#8 then []
    else name index :: keyFrom name limit (index + 1)

/-- `strncpy(target, source, limit)`: the rest of the field after a short
source is filled with NULs. -/
def strncpy (target source : Nat → Byte) (limit index : Nat) : Byte :=
  if index < limit then (keyFrom source limit 0).getD index 0#8
  else target index

theorem strncmpEqual_iff (left right : Nat → Byte) (limit index : Nat) :
    strncmpEqual left right limit index = true ↔
      keyFrom left limit index = keyFrom right limit index := by
  induction limit generalizing index with
  | zero => simp [strncmpEqual, keyFrom]
  | succ limit induction =>
    by_cases same : left index = right index
    · by_cases ended : right index = 0#8
      · simp [strncmpEqual, keyFrom, same, ended]
      · simp [strncmpEqual, keyFrom, same, ended, induction]
    · by_cases leftEnded : left index = 0#8
      · have rightContinues : right index ≠ 0#8 := by
          intro rightEnded
          exact same (leftEnded.trans rightEnded.symm)
        simp [strncmpEqual, keyFrom, leftEnded, rightContinues, Ne.symm rightContinues]
      · by_cases rightEnded : right index = 0#8
        · simp [strncmpEqual, keyFrom, leftEnded, rightEnded]
        · simp [strncmpEqual, keyFrom, same, leftEnded, rightEnded]

theorem keyFrom_congr {left right : Nat → Byte} {limit index : Nat}
    (agree : ∀ position, index ≤ position → position < index + limit →
      left position = right position) :
    keyFrom left limit index = keyFrom right limit index := by
  induction limit generalizing index with
  | zero => rfl
  | succ limit induction =>
    have same : left index = right index :=
      agree index (by omega) (by omega)
    have rest : keyFrom left limit (index + 1) = keyFrom right limit (index + 1) := by
      apply induction
      intro position lower upper
      exact agree position (by omega) (by omega)
    simp [keyFrom, same, rest]

theorem keyFrom_length_le (name : Nat → Byte) (limit index : Nat) :
    (keyFrom name limit index).length ≤ limit := by
  induction limit generalizing index with
  | zero => simp [keyFrom]
  | succ limit induction =>
    unfold keyFrom
    split
    · simp
    · have rest := induction (index + 1)
      simpa using rest

theorem keyFrom_ne_zero (name : Nat → Byte) (limit index : Nat) :
    ∀ byte ∈ keyFrom name limit index, byte ≠ 0#8 := by
  induction limit generalizing index with
  | zero => simp [keyFrom]
  | succ limit induction =>
    unfold keyFrom
    split
    · simp
    · rename_i nonzero
      intro byte member
      rcases List.mem_cons.mp member with rfl | later
      · exact nonzero
      · exact induction (index + 1) byte later

/-- A key is shorter than its limit exactly when it ends at a NUL. -/
theorem keyFrom_length_eq_iff (name : Nat → Byte) (limit index : Nat) :
    (keyFrom name limit index).length = limit ↔
      ∀ position, position < limit → name (index + position) ≠ 0#8 := by
  induction limit generalizing index with
  | zero => simp [keyFrom]
  | succ limit induction =>
    by_cases ended : name index = 0#8
    · simp only [keyFrom, ended, if_true, List.length_nil]
      constructor
      · omega
      · intro full
        exact absurd ended (full 0 (by omega))
    · simp only [keyFrom, ended, if_false, List.length_cons, Nat.add_right_cancel_iff, induction]
      constructor
      · intro full position inside
        cases position with
        | zero => exact ended
        | succ position =>
          rw [Nat.add_comm position, ← Nat.add_assoc]
          exact full position (by omega)
      · intro full position inside
        rw [Nat.add_assoc, Nat.add_comm 1]
        exact full (position + 1) (by omega)

theorem takeWhile_slice {name : Nat → Byte} {limit index : Nat}
    (ended : ∃ position, position ≤ limit ∧ name (index + position) = 0#8)
    (behind : List Byte) :
    (Memory.slice name index (limit + 1) ++ behind).takeWhile
      (fun byte => byte ≠ 0#8) = keyFrom name limit index := by
  obtain ⟨position, inside, isNul⟩ := ended
  induction limit generalizing index position with
  | zero =>
    obtain rfl : position = 0 := by omega
    rw [Nat.add_zero] at isNul
    simp [Memory.slice_succ, keyFrom, isNul]
  | succ limit induction =>
    rw [Memory.slice_succ, List.cons_append, List.takeWhile_cons]
    by_cases here : name index = 0#8
    · simp [keyFrom, here]
    · cases position with
      | zero => exact absurd isNul here
      | succ position =>
        have rest := @induction (index + 1) position (by omega) (by
          rw [← isNul]
          congr 1
          omega)
        simp only [keyFrom, here, ne_eq, not_false_eq_true,
          decide_true, if_true, if_false] at rest ⊢
        rw [rest]

private theorem keyFrom_padded (key : List Byte) (limit index : Nat)
    (nonzero : ∀ byte ∈ key, byte ≠ 0#8) (short : key.length ≤ limit)
    {name : Nat → Byte}
    (padded : ∀ position, position < limit → name (index + position) = key.getD position 0#8) :
    keyFrom name limit index = key := by
  induction limit generalizing key index with
  | zero =>
    have empty : key = [] := List.length_eq_zero_iff.mp (by omega)
    simp [keyFrom, empty]
  | succ limit induction =>
    have first := padded 0 (by omega)
    cases key with
    | nil =>
      simp only [Nat.add_zero, List.getD_nil] at first
      simp [keyFrom, first]
    | cons byte key =>
      simp only [Nat.add_zero, List.getD_cons_zero] at first
      have continues : byte ≠ 0#8 := nonzero byte (by simp)
      have rest := induction key (index + 1) (by
        intro later member
        exact nonzero later (by simp [member]))
        (by simpa using short) (by
          intro position inside
          have shifted := padded (position + 1) (by omega)
          rw [List.getD_cons_succ] at shifted
          rw [← shifted]
          congr 1
          omega)
      simp [keyFrom, first, continues, rest]

theorem keyFrom_strncpy (target source : Nat → Byte) (limit : Nat) :
    keyFrom (strncpy target source limit) limit 0 =
      keyFrom source limit 0 := by
  apply keyFrom_padded
  · exact keyFrom_ne_zero source limit 0
  · exact keyFrom_length_le source limit 0
  · intro position inside
    simp [strncpy, inside]

end Nachos
