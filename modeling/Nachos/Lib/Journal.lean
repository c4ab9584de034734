import Nachos.Lib.Semaphore

/-!
# Journals written under a lock

Threads append to a shared journal while they hold a lock.  `Journaled` says
that the journal consists of what the finished critical sections have
written and of the part which the holder of the lock has written so far, so
the contributions of different threads are never mixed.
-/

namespace Semaphores

open Semaphore Function

variable {ι π β : Type}

/-- `part` is what a thread in the critical section has written so far, and
`done` what is left of the sections which are finished. -/
structure Journaled (lock : Semaphore ι) (Inside : π → Prop)
    (part : π → List β) (points : ι → π) (done journal : List β) :
    Prop where
  exclusive : Exclusive lock Inside points
  idle : (∀ thread, ¬Inside (points thread)) → journal = done
  current : ∀ thread, Inside (points thread) → journal = done ++ part (points thread)

namespace Journaled

variable {lock taken : Semaphore ι} {Inside : π → Prop}
  {part : π → List β} {points : ι → π} {done journal : List β}
  {thread : ι} {point : π}

theorem initial (outside : ∀ thread, ¬Inside (points thread)) :
    Journaled (Semaphore.new 1) Inside part points [] [] where
  exclusive := .initial outside
  idle _ := rfl
  current thread inside := absurd inside (outside thread)

theorem of_value_eq (journaled : Journaled lock Inside part points done journal)
    (same : taken.value = lock.value) :
    Journaled taken Inside part points done journal where
  exclusive := journaled.exclusive.of_value_eq same
  idle := journaled.idle
  current := journaled.current

variable [DecidableEq ι]

variable (journaled : Journaled lock Inside part points done journal)
include journaled

theorem move {more : List β} (same : Inside point ↔ Inside (points thread))
    (outside : ¬Inside point → more = [])
    (inside : Inside point → part point = part (points thread) ++ more) :
    Journaled lock Inside part (update points thread point) done (journal ++ more) := by
  refine ⟨journaled.exclusive.stay same, ?_, ?_⟩
  · intro nobody
    have nobodyBefore : ∀ other, ¬Inside (points other) := fun other =>
      (holds_update_iff same other).not.mp (nobody other)
    have alone : ¬Inside point := same.not.mpr (nobodyBefore thread)
    rw [outside alone, List.append_nil, journaled.idle nobodyBefore]
  · intro other holds
    have before := (holds_update_iff same other).mp holds
    by_cases moved : other = thread
    · subst moved
      rw [update_self] at holds ⊢
      rw [inside holds, journaled.current other before, List.append_assoc]
    · have alone : ¬Inside point := fun entered =>
        moved (journaled.exclusive.unique (same.mp entered) before)
      rw [update_of_ne moved, outside alone, List.append_nil, journaled.current other before]

theorem stay (same : Inside point ↔ Inside (points thread))
    (written : Inside point → part point = part (points thread)) :
    Journaled lock Inside part (update points thread point) done
      journal := by
  have moved := journaled.move same (fun _ => rfl)
    (fun inside => (written inside).trans (List.append_nil _).symm)
  rw [List.append_nil] at moved
  exact moved

theorem enter (success : lock.take = some taken) (inside : Inside point) (empty : part point = []) :
    Journaled taken Inside part (update points thread point) done
      journal := by
  have entered : Exclusive taken Inside (update points thread point) :=
    journaled.exclusive.enter success inside
  have nobody : ∀ other, ¬Inside (points other) := by
    intro other holds
    have zero := journaled.exclusive.value_eq_zero holds
    have positive := (take_inv success).1
    omega
  have own : Inside (update points thread point thread) := by
    rw [update_self]
    exact inside
  refine ⟨entered, ?_, ?_⟩
  · intro outside
    exact absurd own (outside thread)
  · intro other holds
    rw [entered.unique own holds, update_self, empty, List.append_nil, journaled.idle nobody]

theorem leave (inside : Inside (points thread)) (outside : ¬Inside point) :
    Journaled lock.release Inside part (update points thread point)
      (done ++ part (points thread)) journal := by
  refine ⟨journaled.exclusive.leave inside outside, fun _ => journaled.current thread inside, ?_⟩
  exact update_cases (fun holds => absurd holds outside) fun other moved holds =>
    absurd (journaled.exclusive.unique inside holds) moved

end Journaled

end Semaphores
