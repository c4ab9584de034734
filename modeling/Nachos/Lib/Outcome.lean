import Nachos.Lib.Program

/-!
# Outcomes of runs

A run ends with a value and a state, or it stops.  `Ends` says of one run
what is true in both cases, and follows the program call by call.  `Reaches`
says that a run makes a call of a given kind, whether it ends or stops later.
-/

namespace Calls

namespace Program

variable {ι : Type} {ρ : ι → Type} {α β : Type} {σ : Type*} {ε : Type*}

/-- What the run ends with is in `post`, and why it stops is in `stops`. -/
def Ends (interpreter : Interpreter ι ρ σ ε) (program : Program ι ρ α)
    (state : σ) (post : α → σ → Prop) (stops : ε → Prop) : Prop :=
  match program.run interpreter state with
  | .ok (value, after) => post value after
  | .error stop => stops stop

variable {interpreter : Interpreter ι ρ σ ε} {state : σ} {post : α → σ → Prop}
  {stops : ε → Prop} {program : Program ι ρ α}

theorem ends_of_ok {value : α} {after : σ}
    (success : program.run interpreter state = .ok (value, after)) :
    program.Ends interpreter state post stops ↔ post value after := by
  rw [Ends, success]

theorem ends_of_error {stop : ε} (failed : program.run interpreter state = .error stop) :
    program.Ends interpreter state post stops ↔ stops stop := by
  rw [Ends, failed]

instance {program : Program ι ρ α} [∀ value after, Decidable (post value after)]
    [∀ stop, Decidable (stops stop)] :
    Decidable (program.Ends interpreter state post stops) :=
  match result : program.run interpreter state with
  | .ok (_, _) => decidable_of_iff _ (ends_of_ok result).symm
  | .error _ => decidable_of_iff _ (ends_of_error result).symm

theorem ends_congr {other : Program ι ρ α} {start : σ}
    (same : program.run interpreter state = other.run interpreter start) :
    program.Ends interpreter state post stops ↔
      other.Ends interpreter start post stops := by
  rw [Ends, Ends, same]

theorem Ends.cases (ends : program.Ends interpreter state post stops) :
    (∃ value after, program.run interpreter state = .ok (value, after) ∧
        post value after) ∨
      ∃ stop, program.run interpreter state = .error stop ∧ stops stop := by
  cases result : program.run interpreter state with
  | ok pair => exact Or.inl ⟨pair.1, pair.2, rfl, (ends_of_ok result).mp ends⟩
  | error stop => exact Or.inr ⟨stop, rfl, (ends_of_error result).mp ends⟩

@[simp] theorem ends_pure (value : α) :
    (Pure.pure value : Program ι ρ α).Ends interpreter state post stops ↔
      post value state :=
  ends_of_ok (run_pure value state)

variable {continuation : α → Program ι ρ β}

theorem ends_bind {post : β → σ → Prop} :
    (program >>= continuation).Ends interpreter state post stops ↔
      program.Ends interpreter state (fun value after =>
          (continuation value).Ends interpreter after post stops)
        stops := by
  rw [Ends, Ends, run_bind]
  cases program.run interpreter state with
  | error stop | ok result => rfl

theorem ends_bind_ok {post : β → σ → Prop} {value : α} {middle : σ}
    (success : program.run interpreter state = .ok (value, middle)) :
    (program >>= continuation).Ends interpreter state post stops ↔
      (continuation value).Ends interpreter middle post stops :=
  ends_bind.trans (ends_of_ok success)

theorem ends_bind_error {post : β → σ → Prop} {stop : ε}
    (failed : program.run interpreter state = .error stop) :
    (program >>= continuation).Ends interpreter state post stops ↔
      stops stop :=
  ends_bind.trans (ends_of_error failed)

theorem Ends.mono {weaker : α → σ → Prop} {laxer : ε → Prop}
    (ends : program.Ends interpreter state post stops)
    (value : ∀ result after, post result after → weaker result after)
    (stop : ∀ reason, stops reason → laxer reason) :
    program.Ends interpreter state weaker laxer := by
  unfold Ends at ends ⊢
  cases result : program.run interpreter state with
  | error reason =>
    rw [result] at ends
    exact stop reason ends
  | ok pair =>
    rw [result] at ends
    exact value pair.1 pair.2 ends

/-- The run makes a call of the given kind. -/
def Reaches (interpreter : Interpreter ι ρ σ ε) (Target : ι → Prop) : Program ι ρ α → σ → Prop
  | .pure _, _ => False
  | .call operation next, state =>
    Target operation ∨ match interpreter operation state with
      | .ok (reply, after) => (next reply).Reaches interpreter Target after
      | .error _ => False

variable {Target : ι → Prop}

theorem reaches_perform {operation : ι} (target : Target operation) :
    (perform operation : Program ι ρ (ρ operation)).Reaches interpreter
      Target state := by
  rw [perform, Reaches]
  exact Or.inl target

theorem reaches_bind :
    (program >>= continuation).Reaches interpreter Target state ↔
      program.Reaches interpreter Target state ∨
        ∃ value middle,
          program.run interpreter state = .ok (value, middle) ∧
          (continuation value).Reaches interpreter Target middle := by
  change (program.bind continuation).Reaches interpreter Target state ↔ _
  induction program generalizing state with
  | pure value =>
    simp only [Program.bind, Reaches, false_or, run]
    constructor
    · intro reaches
      exact ⟨value, state, rfl, reaches⟩
    · rintro ⟨_, _, ended, reaches⟩
      cases ended
      exact reaches
  | call operation next induction =>
    simp only [Program.bind, Reaches, run, or_assoc]
    cases interpreter operation state with
    | error stop => simp
    | ok result => simp only [induction]

theorem reaches_bind_ok {value : α} {middle : σ}
    (success : program.run interpreter state = .ok (value, middle))
    (reaches : (continuation value).Reaches interpreter Target middle) :
    (program >>= continuation).Reaches interpreter Target state :=
  reaches_bind.mpr (Or.inr ⟨value, middle, success, reaches⟩)

theorem OnlyCalls.not_reaches {allowed : ι → Prop}
    (missed : ∀ operation, allowed operation → ¬Target operation)
    (only : program.OnlyCalls allowed) :
    ¬program.Reaches interpreter Target state := by
  induction program generalizing state with
  | pure value => exact id
  | call operation next induction =>
    unfold Reaches
    rintro (target | later)
    · exact missed operation only.1 target
    · cases result : interpreter operation state with
      | error stop =>
        rw [result] at later
        exact later
      | ok pair =>
        rw [result] at later
        exact induction pair.1 (only.2 pair.1) later

end Program

end Calls
