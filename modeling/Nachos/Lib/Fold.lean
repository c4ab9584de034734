import Nachos.Lib.Transition

/-!
# Loops which can stop

A loop over a list whose body can fail is `List.foldlM` in `Except`.  What it
has done is a run whose labels are the elements, up to the first failure.
-/

namespace Transition

variable {σ : Type*} {α : Type*} {β : Type*} {ε : Type*}

/-- One turn of the loop. -/
def Turn (body : σ → α → Except ε σ) (before : σ) (element : α) (after : σ) : Prop :=
  body before element = .ok after

theorem error_of_bind {first : Except ε α} {next : α → Except ε β}
    {stop : ε} (failed : Except.bind first next = .error stop) :
    first = .error stop ∨ ∃ middle, first = .ok middle ∧ next middle = .error stop := by
  cases first with
  | error fault =>
    cases failed
    exact .inl rfl
  | ok middle => exact .inr ⟨middle, rfl, failed⟩

/-- A loop which ends is a run over all elements. -/
theorem run_of_foldlM {body : σ → α → Except ε σ} {elements : List α}
    {start finish : σ} (ended : elements.foldlM body start = .ok finish) :
    Run (Turn body) start elements finish := by
  induction elements generalizing start with
  | nil =>
    cases ended
    exact .refl
  | cons element rest induction =>
    rw [List.foldlM_cons] at ended
    cases turn : body start element with
    | error stop =>
      rw [turn] at ended
      cases ended
    | ok middle =>
      rw [turn] at ended
      exact (Run.single turn).append (induction ended)

/-- A loop which stops is a run up to the element which makes it stop. -/
theorem run_of_foldlM_error {body : σ → α → Except ε σ} {elements : List α} {start : σ} {stop : ε}
    (failed : elements.foldlM body start = .error stop) :
    ∃ past element rest middle, elements = past ++ element :: rest ∧
      Run (Turn body) start past middle ∧
      body middle element = .error stop := by
  induction elements generalizing start with
  | nil => cases failed
  | cons element rest induction =>
    rw [List.foldlM_cons] at failed
    rcases error_of_bind failed with turn | ⟨next, turn, failed⟩
    · exact ⟨[], element, rest, start, rfl, .refl, turn⟩
    · obtain ⟨past, last, later, middle, rfl, run, stopped⟩ :=
        induction failed
      exact ⟨element :: past, last, later, middle, rfl, (Run.single turn).append run, stopped⟩

end Transition
