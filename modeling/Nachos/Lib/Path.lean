import Nachos.Lib.Program

/-!
# Paths through a program

A path is one way through a program from its start to its result, with the
reply to every call on the way.  A run which returns has followed a path.
-/

namespace Calls

namespace Program

variable {ι : Type} {ρ : ι → Type} {α β : Type} {σ : Type*} {ε : Type*}

/-- A call with the reply it got. -/
abbrev Exchange (ι : Type) (ρ : ι → Type) := (operation : ι) × ρ operation

inductive Path : Program ι ρ α → List (Exchange ι ρ) → α → Prop where
  | pure (value : α) : Path (.pure value) [] value
  | call {operation : ι} {next : ρ operation → Program ι ρ α}
      {trace : List (Exchange ι ρ)} {value : α} (reply : ρ operation) :
      Path (next reply) trace value →
      Path (.call operation next) (⟨operation, reply⟩ :: trace) value

variable {trace : List (Exchange ι ρ)}

theorem Path.pure_inv {result value : α}
    (path : Path (Pure.pure result : Program ι ρ α) trace value) :
    trace = [] ∧ value = result := by
  cases path
  exact ⟨rfl, rfl⟩

theorem Path.perform_inv {operation : ι} {reply : ρ operation}
    (path : Path (perform operation : Program ι ρ _) trace reply) :
    trace = [⟨operation, reply⟩] := by
  cases path with
  | call reply rest =>
    cases rest
    rfl

variable {continuation : α → Program ι ρ β} {program : Program ι ρ α}

theorem Path.bind_inv {value : β} (path : Path (program >>= continuation) trace value) :
    ∃ before middle after, trace = before ++ after ∧
      Path program before middle ∧
      Path (continuation middle) after value := by
  change Path (program.bind continuation) trace value at path
  induction program generalizing trace with
  | pure result => exact ⟨[], result, trace, rfl, .pure result, path⟩
  | call operation next induction =>
    cases path with
    | call reply rest =>
      obtain ⟨before, middle, after, rfl, first, second⟩ :=
        induction reply rest
      exact ⟨⟨operation, reply⟩ :: before, middle, after, rfl, .call reply first, second⟩

theorem OnlyCalls.of_path {allowed : ι → Prop} (only : program.OnlyCalls allowed) {value : α}
    (path : Path program trace value) :
    ∀ exchange ∈ trace, allowed exchange.1 := by
  induction path with
  | pure value => nofun
  | call reply rest induction =>
    intro exchange member
    rcases List.mem_cons.mp member with rfl | later
    · exact only.1
    · exact induction (only.2 reply) exchange later

/-- Every path has an exchange of the given kind. -/
def Marks (Marked : Exchange ι ρ → Prop) (program : Program ι ρ α) :
    Prop :=
  ∀ trace value, Path program trace value → ∃ exchange ∈ trace, Marked exchange

variable {Marked : Exchange ι ρ → Prop}

theorem Marks.perform {operation : ι} (marked : ∀ reply, Marked ⟨operation, reply⟩) :
    (perform operation : Program ι ρ _).Marks Marked := by
  intro trace value path
  exact ⟨⟨operation, value⟩,
    by rw [path.perform_inv]; exact List.mem_singleton_self _, marked value⟩

theorem Marks.bind_left (marks : program.Marks Marked) :
    (program >>= continuation).Marks Marked := by
  intro trace value path
  obtain ⟨before, middle, after, rfl, first, -⟩ := path.bind_inv
  obtain ⟨exchange, member, marked⟩ := marks before middle first
  exact ⟨exchange, List.mem_append_left _ member, marked⟩

theorem Marks.bind_right (marks : ∀ value, (continuation value).Marks Marked) :
    (program >>= continuation).Marks Marked := by
  intro trace value path
  obtain ⟨before, middle, after, rfl, -, second⟩ := path.bind_inv
  obtain ⟨exchange, member, marked⟩ := marks middle after value second
  exact ⟨exchange, List.mem_append_right _ member, marked⟩

theorem Marks.ite {condition : Prop} [Decidable condition]
    {yes no : Program ι ρ α} (first : yes.Marks Marked)
    (second : no.Marks Marked) :
    (if condition then yes else no).Marks Marked := by
  split
  · exact first
  · exact second

/-- The interpreter which also notes every exchange. -/
def recorded (interpreter : Interpreter ι ρ σ ε) : Interpreter ι ρ (σ × List (Exchange ι ρ)) ε :=
  fun operation state =>
    match interpreter operation state.1 with
    | .ok (reply, after) =>
      .ok (reply, after, state.2 ++ [⟨operation, reply⟩])
    | .error stop => .error stop

theorem path_of_run {interpreter : Interpreter ι ρ σ ε} {state after : σ}
    {past : List (Exchange ι ρ)} {value : α}
    (success : program.run (recorded interpreter) (state, past) = .ok (value, after, trace)) :
    ∃ new, trace = past ++ new ∧ Path program new value := by
  induction program generalizing state past with
  | pure result =>
    cases success
    exact ⟨[], (List.append_nil _).symm, .pure _⟩
  | call operation next induction =>
    unfold run recorded at success
    cases ran : interpreter operation state with
    | error stop =>
      simp only [ran] at success
      cases success
    | ok result =>
      obtain ⟨reply, middle⟩ := result
      simp only [ran] at success
      obtain ⟨new, rfl, path⟩ := induction reply success
      exact ⟨⟨operation, reply⟩ :: new, List.append_assoc .., .call reply path⟩

end Program

end Calls
