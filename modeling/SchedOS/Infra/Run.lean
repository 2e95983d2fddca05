import Mathlib.Tactic

/-!
# Runs

A system is a step function that takes an input; a run is what it does on an infinite
sequence of inputs, observed at every index. A run of any finite length is a prefix of such a
sequence, so a statement about every sequence and every index is one about all finite runs.
-/

namespace Infra

universe u v

variable {σ : Type u} {ι : Type v} (step : ι → σ → σ) (inputs : Nat → ι) (s : σ)

/-- The state after the first `n` inputs. -/
def states : Nat → σ
  | 0 => s
  | n + 1 => step (inputs n) (states n)

@[simp] theorem states_zero : states step inputs s 0 = s := rfl

@[simp] theorem states_succ (n : Nat) :
    states step inputs s (n + 1) = step (inputs n) (states step inputs s n) := rfl

variable {step inputs s}

/-- **The invariant rule for runs.** -/
theorem states_invariant {I : σ → Prop} (hstep : ∀ i s, I s → I (step i s)) (h : I s) :
    ∀ n, I (states step inputs s n)
  | 0 => h
  | n + 1 => hstep _ _ (states_invariant hstep h n)

/-- The same from a later state on: what a step keeps holds ever after. -/
theorem states_invariant_from {I : σ → Prop} (hstep : ∀ i s, I s → I (step i s)) {m n : Nat}
    (hmn : m ≤ n) (h : I (states step inputs s m)) : I (states step inputs s n) := by
  induction hmn with
  | refl => exact h
  | step _ ih => exact hstep _ _ ih

end Infra
