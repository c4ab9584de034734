import Mathlib.Logic.Function.Basic

/-!
# A function which is changed at one place

What holds of the new value at this place, and of the old values elsewhere,
holds of the changed function.
-/

namespace Function

variable {ι π : Type*} [DecidableEq ι] {points : ι → π} {changed : ι} {new : π}

@[elab_as_elim]
theorem update_cases {motive : ι → π → Prop} (here : motive changed new)
    (elsewhere : ∀ other, other ≠ changed → motive other (points other)) (other : ι) :
    motive other (update points changed new other) := by
  by_cases same : other = changed
  · subst same
    rw [update_self]
    exact here
  · rw [update_of_ne same]
    exact elsewhere other same

/-- A value of the same kind changes nothing. -/
theorem holds_update_iff {Kind : π → Prop} (same : Kind new ↔ Kind (points changed)) (other : ι) :
    Kind (update points changed new other) ↔ Kind (points other) :=
  update_cases same (fun _ _ => Iff.rfl) other

/-- A value which is not the new one is found where it was. -/
theorem of_update_eq {other : ι} {found : π} (result : update points changed new other = found)
    (differs : new ≠ found) : other ≠ changed ∧ points other = found := by
  revert result
  refine update_cases (fun same => absurd same differs) (fun other apart same => ?_) other
  exact ⟨apart, same⟩

end Function
