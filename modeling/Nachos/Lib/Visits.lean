import Nachos.Lib.Program

/-!
# The calls which a run makes

A run is observed through the calls it makes and the states it makes them
in.  An invariant of the allowed calls holds at every call, and the output
of a run is what the calls show in the order in which they are made.
-/

namespace Calls

namespace Program

variable {ι : Type} {ρ : ι → Type} {α β : Type} {σ : Type*} {ε : Type*} {ο : Type*}

/-- The calls of a run with the states they are made in.  A call which stops
the run is the last one. -/
def visits (interpreter : Interpreter ι ρ σ ε) : Program ι ρ α → σ → List (ι × σ)
  | .pure _, _ => []
  | .call operation next, state =>
    (operation, state) :: match interpreter operation state with
      | .ok (reply, after) => (next reply).visits interpreter after
      | .error _ => []

variable {interpreter : Interpreter ι ρ σ ε}

@[simp] theorem visits_perform (operation : ι) (state : σ) :
    (perform operation : Program ι ρ _).visits interpreter state = [(operation, state)] := by
  unfold perform visits
  cases interpreter operation state with
  | error stop | ok result => rfl

variable {continuation : α → Program ι ρ β} {program : Program ι ρ α}
  {state : σ} {middle : σ} {value : α}

theorem visits_bind_ok (success : program.run interpreter state = .ok (value, middle)) :
    (program >>= continuation).visits interpreter state =
      program.visits interpreter state ++ (continuation value).visits interpreter middle := by
  change (program.bind continuation).visits interpreter state = _
  induction program generalizing state with
  | pure result =>
    cases success
    rfl
  | call operation next induction =>
    unfold run at success
    cases ran : interpreter operation state with
    | error stop =>
      rw [ran] at success
      cases success
    | ok result =>
      rw [ran] at success
      simp only [Program.bind, visits, ran, List.cons_append]
      rw [induction result.1 success]

/-- An invariant which the allowed calls keep holds wherever a program makes
one. -/
theorem OnlyCalls.visits_invariant {allowed : ι → Prop} (Inv : σ → Prop)
    (kept : ∀ operation state reply after, allowed operation → Inv state →
      interpreter operation state = .ok (reply, after) → Inv after)
    (only : program.OnlyCalls allowed) (initial : Inv state) :
    ∀ visit ∈ program.visits interpreter state, allowed visit.1 ∧ Inv visit.2 := by
  induction program generalizing state with
  | pure value =>
    intro visit member
    cases member
  | call operation next induction =>
    intro visit member
    unfold visits at member
    rcases List.mem_cons.mp member with rfl | later
    · exact ⟨only.1, initial⟩
    · cases ran : interpreter operation state with
      | error stop =>
        rw [ran] at later
        cases later
      | ok result =>
        rw [ran] at later
        exact induction result.1 (only.2 result.1)
          (kept operation state _ _ only.1 initial ran) visit later

/-! ## Output -/

/-- What the calls of a run show. -/
def emitted (observe : ι → Option ο) (interpreter : Interpreter ι ρ σ ε)
    (program : Program ι ρ α) (state : σ) : List ο :=
  (program.visits interpreter state).filterMap fun visit => observe visit.1

variable {observe : ι → Option ο}

@[simp] theorem emitted_perform (operation : ι) (state : σ) :
    (perform operation : Program ι ρ _).emitted observe interpreter state =
      (observe operation).toList := by
  unfold emitted
  rw [visits_perform]
  cases shown : observe operation with
  | none | some output => simp [shown]

theorem emitted_bind_ok (success : program.run interpreter state = .ok (value, middle)) :
    (program >>= continuation).emitted observe interpreter state =
      program.emitted observe interpreter state ++
        (continuation value).emitted observe interpreter middle := by
  unfold emitted
  rw [visits_bind_ok success, List.filterMap_append]

theorem OnlyCalls.emitted_eq_nil
    (silent : program.OnlyCalls fun operation => observe operation = none)
    (state : σ) : program.emitted observe interpreter state = [] := by
  refine List.filterMap_eq_nil_iff.mpr fun visit member => ?_
  exact (silent.visits_invariant (fun _ => True)
    (fun _ _ _ _ _ _ _ => trivial) trivial visit member).1

/-- The run ends with a value in a state, and its calls show the output. -/
def Shows (observe : ι → Option ο) (interpreter : Interpreter ι ρ σ ε)
    (program : Program ι ρ α) (state : σ) (output : List ο) (value : α)
    (after : σ) : Prop :=
  program.run interpreter state = .ok (value, after) ∧
    program.emitted observe interpreter state = output

theorem shows_pure (value : α) (state : σ) :
    (Pure.pure value : Program ι ρ α).Shows observe interpreter state []
      value state :=
  ⟨rfl, rfl⟩

variable {after : σ}

theorem shows_perform {operation : ι} {reply : ρ operation}
    (success : interpreter operation state = .ok (reply, after)) :
    (perform operation : Program ι ρ _).Shows observe interpreter state
      (observe operation).toList reply after :=
  ⟨(run_perform operation state).trans success, emitted_perform operation state⟩

theorem Shows.bind {result : β} {first second : List ο}
    (shows : program.Shows observe interpreter state first value middle)
    (rest : (continuation value).Shows observe interpreter middle second result after) :
    (program >>= continuation).Shows observe interpreter state (first ++ second) result after := by
  refine ⟨(run_bind_ok shows.1).trans rest.1, ?_⟩
  rw [emitted_bind_ok shows.1, shows.2, rest.2]

theorem OnlyCalls.shows (silent : program.OnlyCalls fun operation => observe operation = none)
    (success : program.run interpreter state = .ok (value, after)) :
    program.Shows observe interpreter state [] value after :=
  ⟨success, silent.emitted_eq_nil state⟩

theorem OnlyCalls.shows_bind {result : β} {output : List ο}
    (silent : program.OnlyCalls fun operation => observe operation = none)
    (success : program.run interpreter state = .ok (value, middle))
    (rest : (continuation value).Shows observe interpreter middle output result after) :
    (program >>= continuation).Shows observe interpreter state output
      result after :=
  (silent.shows success).bind rest

end Program

end Calls
