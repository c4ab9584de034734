import Mathlib

/-!
# Computations which leave a log

A traced computation gives a result, or fails, and has a log of what it has
done until then.  `Safe` says that every entry of the log is permitted and
that there is a result with a property.
-/

universe u

structure Traced (ω ε : Type u) (α : Type u) where
  log : List ω
  result : Except ε α

namespace Traced

variable {ω ε α β : Type u}

/-- The log goes on until the first failure. -/
protected def bind (first : Traced ω ε α) (next : α → Traced ω ε β) :
    Traced ω ε β :=
  match first.result with
  | .ok value =>
    ⟨first.log ++ (next value).log, (next value).result⟩
  | .error reason => ⟨first.log, .error reason⟩

instance : Monad (Traced ω ε) where
  pure value := ⟨[], .ok value⟩
  bind := Traced.bind

/-- An entry of the log. -/
def emit (entry : ω) : Traced ω ε PUnit := ⟨[entry], .ok ⟨⟩⟩

/-- A computation which leaves no log. -/
def lift (result : Except ε α) : Traced ω ε α := ⟨[], result⟩

/-! ## Forgetting the log -/

@[simp] theorem result_pure (value : α) :
    (pure value : Traced ω ε α).result = .ok value :=
  rfl

@[simp] theorem result_emit (entry : ω) :
    (emit entry : Traced ω ε PUnit).result = .ok ⟨⟩ :=
  rfl

@[simp] theorem result_lift (result : Except ε α) :
    (lift result : Traced ω ε α).result = result :=
  rfl

@[simp] theorem result_bind (first : Traced ω ε α)
    (next : α → Traced ω ε β) :
    (first >>= next).result = (first.result >>= fun value => (next value).result) := by
  change (Traced.bind first next).result = _
  unfold Traced.bind
  cases first.result with
  | ok value | error reason => rfl

/-! ## Safe computations -/

/-- All entries are permitted, and there is a result with the property. -/
def Safe (Permitted : ω → Prop) (computation : Traced ω ε α) (post : α → Prop) : Prop :=
  (∀ entry ∈ computation.log, Permitted entry) ∧
    ∃ value, computation.result = .ok value ∧ post value

variable {Permitted : ω → Prop}

theorem safe_pure {value : α} {post : α → Prop} (holds : post value) :
    Safe Permitted (pure value : Traced ω ε α) post := by
  refine ⟨?_, value, rfl, holds⟩
  intro entry member
  cases member

theorem safe_lift {result : Except ε α} {value : α} {post : α → Prop}
    (success : result = .ok value) (holds : post value) :
    Safe Permitted (lift result : Traced ω ε α) post := by
  refine ⟨?_, value, success, holds⟩
  intro entry member
  cases member

theorem safe_emit {entry : ω} (permitted : Permitted entry) :
    Safe Permitted (emit entry : Traced ω ε PUnit) fun _ => True := by
  refine ⟨?_, ⟨⟩, rfl, trivial⟩
  intro other member
  rwa [List.mem_singleton.mp member]

theorem Safe.bind {first : Traced ω ε α} {next : α → Traced ω ε β}
    {middle : α → Prop} {post : β → Prop}
    (safe : Safe Permitted first middle)
    (later : ∀ value, middle value → Safe Permitted (next value) post) :
    Safe Permitted (first >>= next) post := by
  obtain ⟨permitted, value, success, holds⟩ := safe
  obtain ⟨permittedNext, final, successNext, holdsNext⟩ := later value holds
  have unfolded : (first >>= next) = ⟨first.log ++ (next value).log, (next value).result⟩ := by
    change Traced.bind first next = _
    unfold Traced.bind
    rw [success]
  rw [unfolded]
  refine ⟨?_, final, successNext, holdsNext⟩
  intro entry member
  rcases List.mem_append.mp member with before | after
  · exact permitted entry before
  · exact permittedNext entry after

theorem Safe.mono {computation : Traced ω ε α} {post weaker : α → Prop}
    (safe : Safe Permitted computation post)
    (implied : ∀ value, post value → weaker value) :
    Safe Permitted computation weaker := by
  obtain ⟨permitted, value, success, holds⟩ := safe
  exact ⟨permitted, value, success, implied value holds⟩

end Traced
