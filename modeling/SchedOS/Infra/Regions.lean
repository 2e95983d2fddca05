import Mathlib.Data.Set.Basic

/-!
# Actions that keep to their regions

Several actions work on one state, each in a region of its own; what an action does there depends
on nothing that another one changes. Then they can be run in any order: each leaves in its region
what it would have left there alone.

* `Merged.step` — what is known after one action more
* `Merged.unique` — that is enough to know the outcome
-/

namespace Infra

universe u v w

variable {ι : Type u} {α : Type v} {β : Type w} {run : ι → (α → β) → α → β} {region : ι → Set α}
  {m m' m'' : α → β} {done done' : List ι}

/-- `m'` is `m` up to the regions of other actions than `i`. -/
def SameFor (region : ι → Set α) (i : ι) (m m' : α → β) : Prop :=
  ∀ x, (∀ j, j ≠ i → x ∉ region j) → m' x = m x

/-- From every such state, an action changes its own region only, and there it does the same as
in `m`. -/
structure Confined (run : ι → (α → β) → α → β) (region : ι → Set α) (m : α → β) : Prop where
  disjoint : ∀ i j, i ≠ j → ∀ x, x ∈ region i → x ∉ region j
  frame : ∀ i m', SameFor region i m m' → ∀ x, x ∉ region i → run i m' x = m' x
  same : ∀ i m', SameFor region i m m' → ∀ x, x ∈ region i → run i m' x = run i m x

/-- The actions in `done` have had their effect on `m`, and no others. -/
structure Merged (run : ι → (α → β) → α → β) (region : ι → Set α) (m : α → β) (done : List ι)
    (m' : α → β) : Prop where
  inside : ∀ i, i ∈ done → ∀ x, x ∈ region i → m' x = run i m x
  outside : ∀ x, (∀ i, i ∈ done → x ∉ region i) → m' x = m x

theorem Merged.nil : Merged run region m [] m :=
  ⟨fun _ hi => absurd hi List.not_mem_nil, fun _ _ => rfl⟩

theorem Merged.sameFor (h : Merged run region m done m') {i : ι} (hi : i ∉ done) :
    SameFor region i m m' :=
  fun x hx => h.outside x fun j hj => hx j fun he => hi (he ▸ hj)

/-- One action more. -/
theorem Merged.step (hc : Confined run region m) (h : Merged run region m done m') {i : ι}
    (hi : i ∉ done) : Merged run region m (i :: done) (run i m') := by
  have hsame := h.sameFor hi
  constructor
  · intro j hj x hx
    by_cases hji : j = i
    · subst hji
      exact hc.same j m' hsame x hx
    · rw [hc.frame i m' hsame x (hc.disjoint j i hji x hx)]
      exact h.inside j ((List.mem_cons.mp hj).resolve_left hji) x hx
  · intro x hx
    rw [hc.frame i m' hsame x (hx i List.mem_cons_self)]
    exact h.outside x fun j hj => hx j (List.mem_cons_of_mem i hj)

/-- Only which actions have been run matters, not their order. -/
theorem Merged.unique (h : Merged run region m done m') (h' : Merged run region m done' m'')
    (hsame : ∀ i, i ∈ done ↔ i ∈ done') : m' = m'' := by
  funext x
  by_cases hx : ∃ i, i ∈ done ∧ x ∈ region i
  · obtain ⟨i, hi, hx⟩ := hx
    rw [h.inside i hi x hx, h'.inside i ((hsame i).mp hi) x hx]
  · have hout : ∀ i, i ∈ done → x ∉ region i := fun i hi hxi => hx ⟨i, hi, hxi⟩
    rw [h.outside x hout, h'.outside x fun i hi => hout i ((hsame i).mpr hi)]

end Infra
