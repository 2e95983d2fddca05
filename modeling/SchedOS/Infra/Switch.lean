import Mathlib.Tactic

/-!
# C's `switch`

A statement is a function from states to states that may also not come back: `Except.error`
is how control leaves for good. `switch` takes its arms in source order and enters at the
label that equals the value; without a `break` control runs on through all later arms and
then through the default arm, which stands last.

The two rules say when that matters: an arm that does not come back cuts off everything
after it.
-/

namespace Infra

universe u v w

variable {β : Type u} {σ : Type v} {ε : Type w} [DecidableEq β]

/-- A `switch` without `break`s whose `default:` is its last label. -/
def switch (v : β) (arms : List (β × (σ → Except ε σ))) (dflt : σ → Except ε σ) (s : σ) :
    Except ε σ := do
  let s' ← (arms.dropWhile fun arm => arm.1 ≠ v).foldlM (fun s arm => arm.2 s) s
  dflt s'

variable {v l : β} {f : σ → Except ε σ} {arms : List (β × (σ → Except ε σ))}
  {dflt : σ → Except ε σ} {s : σ}

/-- No label matches: only the default arm is executed. -/
@[simp] theorem switch_nil : switch v [] dflt s = dflt s := rfl

/-- A label that does not match is passed over. -/
theorem switch_cons_ne (h : l ≠ v) : switch v ((l, f) :: arms) dflt s = switch v arms dflt s := by
  unfold switch
  rw [List.dropWhile_cons_of_pos (by simpa using h)]

/-- An arm that does not come back never runs on into the next one. -/
theorem switch_cons_eq {e : ε} (h : f s = .error e) :
    switch v ((v, f) :: arms) dflt s = .error e := by
  unfold switch
  rw [List.dropWhile_cons_of_neg (by simp), List.foldlM_cons]
  show (f s >>= fun s' => _) >>= dflt = _
  rw [h]
  rfl

end Infra
