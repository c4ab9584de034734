import Nachos.Lib.Semaphore

/-!
# Split-phase devices

A device takes one request at a time.  A request sets its busy flag and is
answered later by a completion interrupt, which clears the flag and releases
a semaphore; the thread which has made the request waits on the semaphore.

`Served` relates the flag, the completion interrupts to come, the value of
the semaphore and the threads which wait: either nobody waits and the device
is idle, or one thread waits, and its request is outstanding or complete.
-/

namespace SplitPhase

open Semaphores Function

variable {ι π : Type}

/-- The threads at points with `Waiting` have made a request.  An interrupt
to come is named by the thread which has made the request. -/
def Served (busy : Bool) (pending : List ι) (value : Nat)
    (Waiting : π → Prop) (points : ι → π) : Prop :=
  (busy = false ∧ pending = [] ∧ value = 0 ∧
    ∀ thread, ¬Waiting (points thread)) ∨
  ∃ owner, (∀ thread, Waiting (points thread) ↔ thread = owner) ∧
    (busy = true ∧ pending = [owner] ∧ value = 0 ∨ busy = false ∧ pending = [] ∧ value = 1)

namespace Served

variable {busy : Bool} {pending : List ι} {value : Nat}
  {Waiting : π → Prop} {points : ι → π} {thread : ι} {point : π}

theorem initial (nobody : ∀ thread, ¬Waiting (points thread)) : Served false [] 0 Waiting points :=
  .inl ⟨rfl, rfl, rfl, nobody⟩

section

variable (served : Served busy pending value Waiting points)
include served

theorem busy_iff : busy = true ↔ pending ≠ [] := by
  rcases served with ⟨rfl, rfl, -, -⟩ | ⟨owner, -, ⟨rfl, rfl, -⟩ | ⟨rfl, rfl, -⟩⟩
  · simp
  · simp
  · simp

theorem length_le_one : pending.length ≤ 1 := by
  rcases served with ⟨-, rfl, -, -⟩ | ⟨owner, -, ⟨-, rfl, -⟩ | ⟨-, rfl, -⟩⟩
  · exact Nat.zero_le 1
  · exact le_rfl
  · exact Nat.zero_le 1

theorem idle (nobody : ∀ thread, ¬Waiting (points thread)) :
    busy = false ∧ pending = [] ∧ value = 0 := by
  rcases served with ⟨isIdle, none, zero, -⟩ | ⟨owner, who, -⟩
  · exact ⟨isIdle, none, zero⟩
  · exact absurd ((who owner).mpr rfl) (nobody owner)

/-- A thread which finds the semaphore available has had its interrupt. -/
theorem complete (waiting : Waiting (points thread)) (available : value ≠ 0) : pending = [] := by
  rcases served with ⟨-, -, -, nobody⟩ | ⟨owner, -, ⟨-, -, zero⟩ | ⟨-, none, -⟩⟩
  · exact absurd waiting (nobody thread)
  · exact absurd zero available
  · exact none

end

theorem interrupt {owner : ι} {rest : List ι}
    (served : Served busy (owner :: rest) value Waiting points) :
    Served false rest (value + 1) Waiting points := by
  rcases served with ⟨-, none, -, -⟩ | ⟨thread, who, ⟨-, one, rfl⟩ | ⟨-, none, -⟩⟩
  · cases none
  · cases one
    exact .inr ⟨owner, who, .inr ⟨rfl, rfl, rfl⟩⟩
  · cases none

variable [DecidableEq ι]

theorem stay (served : Served busy pending value Waiting points)
    (same : Waiting point ↔ Waiting (points thread)) :
    Served busy pending value Waiting (update points thread point) := by
  simp only [Served, holds_update_iff same]
  exact served

theorem request (served : Served busy pending value Waiting points)
    (nobody : ∀ thread, ¬Waiting (points thread))
    (waiting : Waiting point) :
    Served true (pending ++ [thread]) value Waiting (update points thread point) := by
  obtain ⟨-, rfl, zero⟩ := served.idle nobody
  refine .inr ⟨thread, ?_, .inl ⟨rfl, rfl, zero⟩⟩
  exact update_cases (iff_of_true waiting rfl) fun other => iff_of_false (nobody other)

theorem finish (served : Served busy pending (value + 1) Waiting points)
    (waiting : Waiting (points thread)) (outside : ¬Waiting point) :
    Served busy pending value Waiting (update points thread point) := by
  rcases served with ⟨-, -, zero, -⟩ | ⟨owner, who, ⟨-, -, zero⟩ | ⟨isIdle, none, one⟩⟩
  · cases zero
  · cases zero
  · refine .inl ⟨isIdle, none, Nat.succ.inj one, ?_⟩
    have own : thread = owner := (who thread).mp waiting
    refine update_cases outside fun other moved => ?_
    rw [who other, ← own]
    exact moved

end Served

end SplitPhase
