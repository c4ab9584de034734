import Mathlib
import Nachos.Lib.Update

/-!
# Counting semaphores

A semaphore has a value and a queue of sleeping threads.  A thread which
finds the value zero joins the queue and sleeps; a release removes the head
of the queue and raises the value, and the thread which has been woken tests
the value again, so another thread can be faster.

A semaphore used as a lock starts at one.  `Exclusive` says that either it
is free and nobody is in a critical section, or it is taken and exactly one
thread is.
-/

namespace Semaphores

variable {ι π : Type}

structure Semaphore (ι : Type) where
  value : Nat
  queue : List ι

namespace Semaphore

def new (initialValue : Nat) : Semaphore ι := ⟨initialValue, []⟩

/-- The decrement, if the semaphore is available. -/
def take (semaphore : Semaphore ι) : Option (Semaphore ι) :=
  if semaphore.value = 0 then none
  else some { semaphore with value := semaphore.value - 1 }

/-- The thread goes to sleep. -/
def sleep (semaphore : Semaphore ι) (thread : ι) : Semaphore ι :=
  { semaphore with queue := semaphore.queue ++ [thread] }

/-- Wake the first sleeping thread and increment. -/
def release (semaphore : Semaphore ι) : Semaphore ι where
  value := semaphore.value + 1
  queue := semaphore.queue.tail

theorem take_inv {semaphore taken : Semaphore ι} (success : semaphore.take = some taken) :
    semaphore.value = taken.value + 1 ∧ taken.queue = semaphore.queue := by
  unfold take at success
  split at success
  · cases success
  · rename_i available
    cases success
    exact ⟨(Nat.succ_pred_eq_of_ne_zero available).symm, rfl⟩

theorem take_eq_none_iff {semaphore : Semaphore ι} :
    semaphore.take = none ↔ semaphore.value = 0 := by
  unfold take
  split <;> simp [*]

theorem mem_of_mem_release {semaphore : Semaphore ι} {thread : ι}
    (member : thread ∈ semaphore.release.queue) :
    thread ∈ semaphore.queue :=
  List.mem_of_mem_tail member

end Semaphore

open Semaphore Function

/-- The threads at points with `Inside` are in a critical section guarded by
the semaphore. -/
def Exclusive (lock : Semaphore ι) (Inside : π → Prop) (points : ι → π) :
    Prop :=
  (lock.value = 1 ∧ ∀ thread, ¬Inside (points thread)) ∨
    (lock.value = 0 ∧ ∃ thread, Inside (points thread) ∧
      ∀ other, Inside (points other) → other = thread)

namespace Exclusive

variable {lock taken : Semaphore ι} {Inside : π → Prop} {points : ι → π}
  {thread other : ι} {point : π}

theorem initial (outside : ∀ thread, ¬Inside (points thread)) :
    Exclusive (Semaphore.new 1) Inside points :=
  .inl ⟨rfl, outside⟩

section

variable (exclusive : Exclusive lock Inside points)
include exclusive

theorem unique (first : Inside (points thread)) (second : Inside (points other)) :
    other = thread := by
  rcases exclusive with ⟨-, outside⟩ | ⟨-, holder, -, only⟩
  · exact absurd first (outside thread)
  · rw [only thread first, only other second]

theorem value_eq_zero (inside : Inside (points thread)) : lock.value = 0 := by
  rcases exclusive with ⟨-, outside⟩ | ⟨taken, -⟩
  · exact absurd inside (outside thread)
  · exact taken

theorem of_value_eq (same : taken.value = lock.value) : Exclusive taken Inside points := by
  unfold Exclusive
  rw [same]
  exact exclusive

end

variable [DecidableEq ι]

variable (exclusive : Exclusive lock Inside points)
include exclusive

theorem stay (same : Inside point ↔ Inside (points thread)) :
    Exclusive lock Inside (update points thread point) := by
  simp only [Exclusive, holds_update_iff same]
  exact exclusive

theorem enter (success : lock.take = some taken) (inside : Inside point) :
    Exclusive taken Inside (update points thread point) := by
  have value := (take_inv success).1
  rcases exclusive with ⟨free, outside⟩ | ⟨held, -⟩
  · refine .inr ⟨by omega, thread, ?_, ?_⟩
    · rw [update_self]
      exact inside
    · intro other entered
      by_contra different
      rw [update_of_ne different] at entered
      exact outside other entered
  · omega

theorem leave (inside : Inside (points thread)) (outside : ¬Inside point) :
    Exclusive lock.release Inside (update points thread point) := by
  refine .inl ⟨?_, ?_⟩
  · simp only [release, exclusive.value_eq_zero inside]
  · exact update_cases outside fun other moved entered => moved (exclusive.unique inside entered)

end Exclusive

end Semaphores
