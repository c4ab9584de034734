import Mathlib

/-!
# Labelled transition systems

Runs of a labelled step relation, the invariant rule for them, and forward
simulation between two systems whose labels correspond.
-/

namespace Transition

variable {σ : Type*} {τ : Type*} {ℓ : Type*} {μ : Type*}

/-- `Run step start labels finish`: a finite run, extended at its end. -/
inductive Run (step : σ → ℓ → σ → Prop) (start : σ) :
    List ℓ → σ → Prop where
  | refl : Run step start [] start
  | snoc {labels : List ℓ} {middle finish : σ} {label : ℓ} :
      Run step start labels middle →
      step middle label finish →
      Run step start (labels ++ [label]) finish

namespace Run

variable {finish start : σ} {step : σ → ℓ → σ → Prop}

theorem single {label : ℓ} (taken : step start label finish) : Run step start [label] finish :=
  .snoc .refl taken

theorem append {middle : σ} {first second : List ℓ} (before : Run step start first middle)
    (after : Run step middle second finish) :
    Run step start (first ++ second) finish := by
  induction after with
  | refl => simpa using before
  | snoc _ taken induction =>
    rw [← List.append_assoc]
    exact .snoc induction taken

variable {labels : List ℓ}

theorem snoc_inv {label : ℓ} (run : Run step start (labels ++ [label]) finish) :
    ∃ middle, Run step start labels middle ∧ step middle label finish := by
  generalize whole : labels ++ [label] = all at run
  cases run with
  | refl => simp at whole
  | snoc before taken =>
    obtain ⟨rfl, same⟩ := List.append_inj' whole rfl
    cases same
    exact ⟨_, before, taken⟩

theorem nil_inv (run : Run step start [] finish) : finish = start := by
  generalize empty : [] = labels at run
  cases run with
  | refl => rfl
  | snoc => simp at empty

theorem split {first second : List ℓ} (run : Run step start (first ++ second) finish) :
    ∃ middle, Run step start first middle ∧
      Run step middle second finish := by
  induction second using List.reverseRecOn generalizing finish with
  | nil =>
    rw [List.append_nil] at run
    exact ⟨finish, run, .refl⟩
  | append_singleton second label induction =>
    rw [← List.append_assoc] at run
    obtain ⟨last, before, taken⟩ := run.snoc_inv
    obtain ⟨middle, left, right⟩ := induction before
    exact ⟨middle, left, .snoc right taken⟩

variable (run : Run step start labels finish)
include run

theorem mono {weaker : σ → ℓ → σ → Prop}
    (implied : ∀ before label after, label ∈ labels →
      step before label after → weaker before label after) :
    Run weaker start labels finish := by
  induction run with
  | refl => exact .refl
  | snoc _ taken induction =>
    refine .snoc (induction ?_) (implied _ _ _ (by simp) taken)
    intro before label after member
    exact implied before label after (List.mem_append_left _ member)

/-- The invariant rule: a property of the start which every step permitted
on the run preserves holds at the end of the run. -/
theorem invariant {Permitted : ℓ → Prop} (Inv : σ → Prop)
    (permitted : ∀ label ∈ labels, Permitted label) (initial : Inv start)
    (preserved : ∀ before label after, Inv before → Permitted label →
      step before label after → Inv after) :
    Inv finish := by
  induction run with
  | refl => exact initial
  | @snoc labels middle finish label _ taken induction =>
    have before : Inv middle := by
      apply induction
      intro earlier member
      exact permitted earlier (by simp [member])
    exact preserved middle label finish before (permitted label (by simp)) taken

/-- The invariant rule for a property of a state and of the labels of the
run which has led to it. -/
theorem history (Inv : List ℓ → σ → Prop) (initial : Inv [] start)
    (preserved : ∀ past before label after, Inv past before →
      step before label after → Inv (past ++ [label]) after) :
    Inv labels finish := by
  induction run with
  | refl => exact initial
  | snoc _ taken induction => exact preserved _ _ _ _ induction taken

/-- Forward simulation: matched steps turn every run of the lower system
into a run of the upper one over the translated labels. -/
theorem simulate {spec : τ → μ → τ → Prop} {Permitted : ℓ → Prop} (Related : σ → τ → Prop)
    (translate : ℓ → μ)
    (matched : ∀ low label low' high, Related low high → Permitted label →
      step low label low' → ∃ high', spec high (translate label) high' ∧ Related low' high')
    (permitted : ∀ label ∈ labels, Permitted label) {highStart : τ}
    (related : Related start highStart) :
    ∃ highFinish, Run spec highStart (labels.map translate) highFinish ∧
      Related finish highFinish := by
  induction run with
  | refl => exact ⟨highStart, .refl, related⟩
  | @snoc labels middle finish label _ taken induction =>
    obtain ⟨highMiddle, highRun, middleRelated⟩ := induction (by
      intro earlier member
      exact permitted earlier (by simp [member]))
    obtain ⟨highFinish, highStep, finishRelated⟩ :=
      matched middle label finish highMiddle middleRelated (permitted label (by simp)) taken
    refine ⟨highFinish, ?_, finishRelated⟩
    simpa using Run.snoc highRun highStep

end Run

/-- Follow a list of labels in a system whose steps are computed. -/
def replay (next : σ → ℓ → Option σ) : σ → List ℓ → Option σ
  | state, [] => some state
  | state, label :: labels => do
    let after ← next state label
    replay next after labels

variable {next : σ → ℓ → Option σ}

theorem replay_replicate_succ {start finish : σ} {label : ℓ} {count : Nat} :
    replay next start (List.replicate (count + 1) label) = some finish ↔
      ∃ middle, next start label = some middle ∧
        replay next middle (List.replicate count label) = some finish := by
  rw [List.replicate_succ]
  exact Option.bind_eq_some_iff

theorem run_of_replay {start finish : σ} {labels : List ℓ}
    (replayed : replay next start labels = some finish) :
    Run (fun before label after => next before label = some after) start
      labels finish := by
  induction labels generalizing start with
  | nil =>
    cases replayed
    exact .refl
  | cons label labels induction =>
    obtain ⟨middle, taken, rest⟩ := Option.bind_eq_some_iff.mp replayed
    exact (Run.single taken).append (induction rest)

/-- A run found by computation, with a property of its last state which is
computed, too. -/
theorem exists_run_of_replay {step : σ → ℓ → σ → Prop} {start : σ}
    {labels : List ℓ} {Observed : σ → Prop} [DecidablePred Observed]
    (computed : ∀ before label after, next before label = some after → step before label after)
    (observed : ((replay next start labels).any fun finish =>
      decide (Observed finish)) = true) :
    ∃ finish, Run step start labels finish ∧ Observed finish := by
  obtain ⟨finish, replayed, holds⟩ := (Option.any_eq_true ..).mp observed
  refine ⟨finish, (run_of_replay replayed).mono ?_, of_decide_eq_true holds⟩
  intro before label after _ taken
  exact computed before label after taken

end Transition
