import Mathlib

/-!
# Programs over an interface of operations

A program is a tree of calls to named operations, each with its type of
replies.  An interpreter which runs single operations on a state runs whole
programs.  What every operation preserves every program preserves, and what
two runs of every operation keep related two runs of every program keep
related.
-/

namespace Calls

/-- A program over the operations `ι` with replies `ρ`. -/
inductive Program (ι : Type) (ρ : ι → Type) (α : Type) : Type where
  | pure (value : α) : Program ι ρ α
  | call (operation : ι) (next : ρ operation → Program ι ρ α) :
      Program ι ρ α

namespace Program

variable {ι : Type} {ρ : ι → Type} {α β : Type} {σ τ : Type*} {ε : Type*}

def bind (program : Program ι ρ α) (continuation : α → Program ι ρ β) :
    Program ι ρ β :=
  match program with
  | .pure value => continuation value
  | .call operation next =>
    .call operation fun reply => (next reply).bind continuation

instance : Monad (Program ι ρ) where
  pure := Program.pure
  bind := Program.bind

/-- The program which makes one call and returns its reply. -/
def perform (operation : ι) : Program ι ρ (ρ operation) :=
  .call operation .pure

/-- How an interpreter runs one operation. -/
abbrev Interpreter (ι : Type) (ρ : ι → Type) (σ : Type*) (ε : Type*) :=
  (operation : ι) → σ → Except ε (ρ operation × σ)

/-- Run a program from a state. -/
def run (interpreter : Interpreter ι ρ σ ε) : Program ι ρ α → σ → Except ε (α × σ)
  | .pure value, state => .ok (value, state)
  | .call operation next, state =>
    match interpreter operation state with
    | .ok (reply, state) => (next reply).run interpreter state
    | .error stop => .error stop

variable {interpreter : Interpreter ι ρ σ ε}

@[simp] theorem run_pure (value : α) (state : σ) :
    (Pure.pure value : Program ι ρ α).run interpreter state = .ok (value, state) := rfl

@[simp] theorem run_perform (operation : ι) (state : σ) :
    (perform operation : Program ι ρ _).run interpreter state =
      interpreter operation state := by
  unfold perform run
  cases interpreter operation state with
  | error stop | ok result => rfl

theorem run_bind (program : Program ι ρ α) (continuation : α → Program ι ρ β) (state : σ) :
    (program >>= continuation).run interpreter state = match program.run interpreter state with
      | .ok (value, state) => (continuation value).run interpreter state
      | .error stop => .error stop := by
  change (program.bind continuation).run interpreter state = _
  induction program generalizing state with
  | pure value => rfl
  | call operation next induction =>
    simp only [Program.bind, run]
    cases interpreter operation state with
    | error stop => rfl
    | ok result => exact induction result.1 result.2

variable {continuation : α → Program ι ρ β} {program : Program ι ρ α} {state : σ} {value : α}

theorem run_bind_ok {middle : σ} (success : program.run interpreter state = .ok (value, middle)) :
    (program >>= continuation).run interpreter state =
      (continuation value).run interpreter middle := by
  rw [run_bind, success]

theorem run_bind_error {stop : ε} (failed : program.run interpreter state = .error stop) :
    (program >>= continuation).run interpreter state = .error stop := by
  rw [run_bind, failed]

variable {after : σ}

theorem run_bind_inv {value : β}
    (success : (program >>= continuation).run interpreter state = .ok (value, after)) :
    ∃ result middle, program.run interpreter state = .ok (result, middle) ∧
      (continuation result).run interpreter middle = .ok (value, after) := by
  rw [run_bind] at success
  split at success
  · rename_i result middle ran
    exact ⟨result, middle, ran, success⟩
  · cases success

/-- Every call a program can make is allowed. -/
def OnlyCalls (allowed : ι → Prop) : Program ι ρ α → Prop
  | .pure _ => True
  | .call operation next =>
    allowed operation ∧ ∀ reply, (next reply).OnlyCalls allowed

variable {allowed : ι → Prop}

theorem OnlyCalls.pure (value : α) : (Pure.pure value : Program ι ρ α).OnlyCalls allowed := trivial

theorem OnlyCalls.perform {operation : ι} (permitted : allowed operation) :
    (perform operation : Program ι ρ _).OnlyCalls allowed :=
  ⟨permitted, fun _ => trivial⟩

theorem OnlyCalls.bind (first : program.OnlyCalls allowed)
    (rest : ∀ value, (continuation value).OnlyCalls allowed) :
    (program >>= continuation).OnlyCalls allowed := by
  change (program.bind continuation).OnlyCalls allowed
  induction program with
  | pure value => exact rest value
  | call operation next induction =>
    exact ⟨first.1, fun reply => induction reply (first.2 reply)⟩

theorem OnlyCalls.call {operation : ι} {next : ρ operation → Program ι ρ α}
    (permitted : allowed operation)
    (rest : ∀ reply, (next reply).OnlyCalls allowed) :
    (Program.perform operation >>= next).OnlyCalls allowed :=
  ⟨permitted, rest⟩

variable {condition : Prop} {no yes : Program ι ρ α}

theorem OnlyCalls.ite {_ : Decidable condition} (first : yes.OnlyCalls allowed)
    (second : no.OnlyCalls allowed) :
    (if condition then yes else no).OnlyCalls allowed := by
  split
  · exact first
  · exact second

theorem OnlyCalls.mono {weaker : ι → Prop} (only : program.OnlyCalls allowed)
    (implied : ∀ operation, allowed operation → weaker operation) :
    program.OnlyCalls weaker := by
  induction program with
  | pure value => trivial
  | call operation next induction =>
    exact ⟨implied operation only.1, fun reply => induction reply (only.2 reply)⟩

theorem onlyCalls_of_forall (all : ∀ operation, allowed operation) (program : Program ι ρ α) :
    program.OnlyCalls allowed := by
  induction program with
  | pure value => trivial
  | call operation next induction => exact ⟨all operation, induction⟩

variable {Kept : σ → σ → Prop}

section

variable (reflexive : ∀ state, Kept state state)
  (transitive : ∀ first second third, Kept first second → Kept second third → Kept first third)
include reflexive transitive

/-- A reflexive and transitive relation between the states before and after
which every allowed operation establishes holds of every program which makes
no other calls. -/
theorem OnlyCalls.run_preserves
    (operations : ∀ operation state reply after, allowed operation →
      interpreter operation state = .ok (reply, after) → Kept state after)
    (only : program.OnlyCalls allowed)
    (success : program.run interpreter state = .ok (value, after)) :
    Kept state after := by
  induction program generalizing state with
  | pure result =>
    cases success
    exact reflexive _
  | call operation next induction =>
    unfold run at success
    cases ran : interpreter operation state with
    | error stop =>
      rw [ran] at success
      cases success
    | ok result =>
      obtain ⟨reply, middle⟩ := result
      rw [ran] at success
      exact transitive state middle after (operations operation state reply middle only.1 ran)
        (induction reply (only.2 reply) success)

/-- The same for programs which may call every operation. -/
theorem run_preserves
    (operations : ∀ operation state reply after,
      interpreter operation state = .ok (reply, after) → Kept state after)
    (program : Program ι ρ α) (success : program.run interpreter state = .ok (value, after)) :
    Kept state after :=
  (onlyCalls_of_forall (fun _ => trivial) program).run_preserves reflexive transitive
    (fun operation state reply after _ ran =>
      operations operation state reply after ran) success

end

/-- An invariant which the allowed operations keep, and from which they do
not stop in the given way, does the same for programs which make no other
calls. -/
theorem OnlyCalls.run_safe (Inv : σ → Prop) (Bad : ε → Prop)
    (kept : ∀ operation state reply after, allowed operation →
      Inv state → interpreter operation state = .ok (reply, after) →
      Inv after)
    (safe : ∀ operation state stop, allowed operation → Inv state →
      interpreter operation state = .error stop → ¬Bad stop)
    (only : program.OnlyCalls allowed) (initial : Inv state) :
    (∀ value after, program.run interpreter state = .ok (value, after) →
      Inv after) ∧
    ∀ stop, program.run interpreter state = .error stop → ¬Bad stop := by
  induction program generalizing state with
  | pure result =>
    refine ⟨?_, nofun⟩
    intro value after success
    cases success
    exact initial
  | call operation next induction =>
    unfold run
    cases ran : interpreter operation state with
    | error stop =>
      refine ⟨nofun, ?_⟩
      intro other same
      cases same
      exact safe operation state stop only.1 initial ran
    | ok result =>
      obtain ⟨reply, middle⟩ := result
      exact induction reply (only.2 reply) (kept operation state reply middle only.1 initial ran)

/-- Calls of the kind `early`, then any call, and after it only calls of the
kind `late`. -/
def Commits (early late : ι → Prop) : Program ι ρ α → Prop
  | .pure _ => True
  | .call operation next =>
    (early operation ∧ ∀ reply, (next reply).Commits early late) ∨
      ∀ reply, (next reply).OnlyCalls late

variable {early late : ι → Prop}

theorem Commits.of_late (only : program.OnlyCalls late) :
    program.Commits early late := by
  cases program with
  | pure value => trivial
  | call operation next => exact .inr only.2

theorem Commits.of_early_bind (first : program.OnlyCalls early)
    (rest : ∀ value, (continuation value).Commits early late) :
    (program >>= continuation).Commits early late := by
  change (program.bind continuation).Commits early late
  induction program with
  | pure value => exact rest value
  | call operation next induction =>
    exact .inl ⟨first.1, fun reply => induction reply (first.2 reply)⟩

theorem Commits.bind_late (first : program.Commits early late)
    (rest : ∀ value, (continuation value).OnlyCalls late) :
    (program >>= continuation).Commits early late := by
  change (program.bind continuation).Commits early late
  induction program with
  | pure value => exact .of_late (rest value)
  | call operation next induction =>
    rcases first with ⟨isEarly, later⟩ | committed
    · exact .inl ⟨isEarly, fun reply => induction reply (later reply)⟩
    · exact .inr fun reply => (committed reply).bind rest

theorem Commits.ite [Decidable condition] (first : yes.Commits early late)
    (second : no.Commits early late) :
    (if condition then yes else no).Commits early late := by
  split
  · exact first
  · exact second

/-- If such a program stops, it stops in a late call or in a state which the
early calls have led to. -/
theorem Commits.run_error {StopsAt : σ → ε → Prop} {StopsLate : ε → Prop}
    (reflexive : ∀ state, Kept state state)
    (transitive : ∀ first second third, Kept first second → Kept second third → Kept first third)
    (operations : ∀ operation state reply after, early operation →
      interpreter operation state = .ok (reply, after) → Kept state after)
    (stops : ∀ operation state stop, interpreter operation state = .error stop → StopsAt state stop)
    (stopsLate : ∀ operation state stop, late operation →
      interpreter operation state = .error stop → StopsLate stop)
    (commits : program.Commits early late) {stop : ε}
    (failed : program.run interpreter state = .error stop) :
    (∃ middle, Kept state middle ∧ StopsAt middle stop) ∨
      StopsLate stop := by
  induction program generalizing state with
  | pure result => cases failed
  | call operation next induction =>
    unfold run at failed
    cases ran : interpreter operation state with
    | error found =>
      rw [ran] at failed
      cases failed
      exact .inl ⟨state, reflexive state, stops _ _ _ ran⟩
    | ok result =>
      obtain ⟨reply, after⟩ := result
      rw [ran] at failed
      rcases commits with ⟨isEarly, later⟩ | committed
      · have kept := operations _ _ _ _ isEarly ran
        rcases induction reply (later reply) failed with
          ⟨middle, between, stopped⟩ | stopped
        · exact .inl ⟨middle, transitive _ _ _ kept between, stopped⟩
        · exact .inr stopped
      · have never := ((committed reply).run_safe (fun _ => True) (fun stop => ¬StopsLate stop)
          (fun _ _ _ _ _ _ _ => trivial)
          (fun operation state stop isLate _ ran =>
            not_not_intro (stopsLate operation state stop isLate ran))
          trivial).2 stop failed
        exact .inr (not_not.mp never)

/-- Every result of a program has a property. -/
def Returns (Result : α → Prop) : Program ι ρ α → Prop
  | .pure value => Result value
  | .call _ next => ∀ reply, (next reply).Returns Result

theorem Returns.bind {Result : β → Prop} (rest : ∀ value, (continuation value).Returns Result) :
    (program >>= continuation).Returns Result := by
  change (program.bind continuation).Returns Result
  induction program with
  | pure value => exact rest value
  | call operation next induction => exact induction

variable {Result : α → Prop}

theorem Returns.ite [Decidable condition] (first : yes.Returns Result)
    (second : no.Returns Result) :
    (if condition then yes else no).Returns Result := by
  split
  · exact first
  · exact second

theorem OnlyCalls.bind_returns (first : program.OnlyCalls allowed)
    (returns : program.Returns Result)
    (rest : ∀ value, Result value → (continuation value).OnlyCalls allowed) :
    (program >>= continuation).OnlyCalls allowed := by
  change (program.bind continuation).OnlyCalls allowed
  induction program with
  | pure value => exact rest value returns
  | call operation next induction =>
    exact ⟨first.1, fun reply =>
      induction reply (first.2 reply) (returns reply)⟩

theorem Returns.run (returns : program.Returns Result)
    (success : program.run interpreter state = .ok (value, after)) :
    Result value := by
  induction program generalizing state with
  | pure result =>
    cases success
    exact returns
  | call operation next induction =>
    unfold Program.run at success
    cases ran : interpreter operation state with
    | error stop =>
      rw [ran] at success
      cases success
    | ok result =>
      rw [ran] at success
      exact induction result.1 (returns result.1) success

/-- As long as an invariant holds, it makes no difference whether a change of
the state is made before the program or after it. -/
def Commutes (interpreter : Interpreter ι ρ σ ε) (Inv : σ → Prop)
    (change : σ → σ) (program : Program ι ρ α) : Prop :=
  ∀ state, Inv state →
    program.run interpreter (change state) =
      (program.run interpreter state).map (Prod.map id change) ∧
    ∀ value after, program.run interpreter state = .ok (value, after) → Inv after

section

variable {Inv : σ → Prop} {change : σ → σ}

theorem Commutes.bind {program : Program ι ρ α} {continuation : α → Program ι ρ β}
    (first : program.Commutes interpreter Inv change)
    (rest : ∀ value, (continuation value).Commutes interpreter Inv change) :
    (program >>= continuation).Commutes interpreter Inv change := by
  intro state initial
  obtain ⟨same, kept⟩ := first state initial
  rw [run_bind, run_bind, same]
  cases ran : program.run interpreter state with
  | error stop => exact ⟨rfl, nofun⟩
  | ok result =>
    obtain ⟨value, middle⟩ := result
    exact rest value middle (kept value middle ran)

theorem OnlyCalls.commutes {allowed : ι → Prop}
    (operations : ∀ operation, allowed operation →
      (Program.perform operation : Program ι ρ _).Commutes interpreter Inv change)
    {program : Program ι ρ α} (only : program.OnlyCalls allowed) :
    program.Commutes interpreter Inv change := by
  induction program with
  | pure value =>
    intro state initial
    refine ⟨rfl, ?_⟩
    intro result after success
    cases success
    exact initial
  | call operation next induction =>
    have both : (Program.perform operation >>= next).Commutes interpreter Inv
        change :=
      (operations operation only.1).bind fun reply =>
        induction reply (only.2 reply)
    exact both

end

/-- Two outcomes which stop both, or agree on the value and leave related
states. -/
def Matched (Related : σ → τ → Prop) : Except ε (α × σ) → Except ε (α × τ) → Prop
  | .ok (left, low), .ok (right, high) => left = right ∧ Related low high
  | .error _, .error _ => True
  | _, _ => False

/-- Runs of one program under two interpreters stay related when the runs of
every operation do. -/
theorem run_matched {interpreter' : Interpreter ι ρ τ ε} {Related : σ → τ → Prop}
    (operations : ∀ operation low high, Related low high →
      Matched Related (interpreter operation low) (interpreter' operation high))
    (program : Program ι ρ α) {low : σ} {high : τ}
    (related : Related low high) :
    Matched Related (program.run interpreter low) (program.run interpreter' high) := by
  induction program generalizing low high with
  | pure value => exact ⟨rfl, related⟩
  | call operation next induction =>
    have first := operations operation low high related
    unfold run
    cases lowRan : interpreter operation low with
    | error stop =>
      cases highRan : interpreter' operation high with
      | error stop' => trivial
      | ok result =>
        rw [lowRan, highRan] at first
        exact first.elim
    | ok result =>
      cases highRan : interpreter' operation high with
      | error stop' =>
        rw [lowRan, highRan] at first
        exact first.elim
      | ok result' =>
        rw [lowRan, highRan] at first
        obtain ⟨sameReply, stillRelated⟩ := first
        simp only
        rw [sameReply]
        exact induction result'.1 stillRelated

end Program

end Calls
