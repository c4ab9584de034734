import Nachos.Lib.Program

/-!
# Weakest preconditions

What a program does is described operation by operation, on the part of the
state which matters, its view: a specification gives for every operation the
views from which all replies lead to a postcondition.  An interpreter which
meets the specification of the operations meets it for whole programs.
-/

namespace Calls

namespace Program

variable {ι : Type} {ρ : ι → Type} {α β : Type} {σ : Type*} {ε ω : Type*}

/-- For every operation, the weakest precondition of a postcondition. -/
abbrev OperationSpec (ι : Type) (ρ : ι → Type) (ω : Type*) :=
  (operation : ι) → ω → (ρ operation → ω → Prop) → Prop

/-- The weakest precondition of a program. -/
def wp (spec : OperationSpec ι ρ ω) : Program ι ρ α → ω → (α → ω → Prop) → Prop
  | .pure value, view, post => post value view
  | .call operation next, view, post =>
    spec operation view fun reply after => (next reply).wp spec after post

variable {spec : OperationSpec ι ρ ω} {program : Program ι ρ α}

theorem wp_bind {continuation : α → Program ι ρ β} {view : ω} {post : β → ω → Prop} :
    (program >>= continuation).wp spec view post ↔
      program.wp spec view fun value after =>
        (continuation value).wp spec after post := by
  change (program.bind continuation).wp spec view post ↔ _
  induction program generalizing view with
  | pure value => exact Iff.rfl
  | call operation next induction =>
    simp only [Program.bind, wp, induction]

/-- A weaker postcondition has a weaker precondition. -/
def Monotone (spec : OperationSpec ι ρ ω) : Prop :=
  ∀ operation view (post weaker : ρ operation → ω → Prop),
    (∀ reply after, post reply after → weaker reply after) →
    spec operation view post → spec operation view weaker

variable {post : α → ω → Prop}

theorem Monotone.wp (monotone : Monotone spec) {view : ω} {weaker : α → ω → Prop}
    (implied : ∀ value after, post value after → weaker value after)
    (established : program.wp spec view post) :
    program.wp spec view weaker := by
  induction program generalizing view with
  | pure value => exact implied value view established
  | call operation next induction =>
    exact monotone operation view _ _ (fun reply after => induction reply) established

/-- Operations which give every reply and keep the view. -/
def Keeps (spec : OperationSpec ι ρ ω) (operation : ι) : Prop :=
  ∀ view post, (∀ reply, post reply view) → spec operation view post

theorem OnlyCalls.wp_keep (only : program.OnlyCalls (Keeps spec)) {view : ω}
    (established : ∀ value, post value view) :
    program.wp spec view post := by
  induction program with
  | pure value => exact established value
  | call operation next induction =>
    exact only.1 view _ fun reply => induction reply (only.2 reply)

/-- The interpreter does what the specification of the operations says. -/
def Meets (interpreter : Interpreter ι ρ σ ε) (view : σ → ω) (spec : OperationSpec ι ρ ω) : Prop :=
  ∀ operation state reply after post,
    interpreter operation state = .ok (reply, after) →
    spec operation (view state) post → post reply (view after)

theorem Meets.run {interpreter : Interpreter ι ρ σ ε} {view : σ → ω}
    (meets : Meets interpreter view spec) {state after : σ} {value : α}
    (success : program.run interpreter state = .ok (value, after))
    (established : program.wp spec (view state) post) :
    post value (view after) := by
  induction program generalizing state with
  | pure result =>
    cases success
    exact established
  | call operation next induction =>
    unfold Program.run at success
    cases ran : interpreter operation state with
    | error stop =>
      rw [ran] at success
      cases success
    | ok result =>
      obtain ⟨reply, middle⟩ := result
      rw [ran] at success
      exact induction reply success (meets operation state reply middle _ ran established)

end Program

end Calls
