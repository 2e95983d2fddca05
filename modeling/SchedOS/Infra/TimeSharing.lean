import Mathlib.Tactic

/-!
# Time sharing

What a processor shared by several tasks is to achieve, without saying how: at most one task
is active; when its slice ends its context is saved under its name, it may leave for good,
and then some task that is still alive becomes active and continues from its own saved
context. Tasks and contexts are arbitrary types, and nothing is said about which task comes
next: the results below hold for every scheduling policy.

* `saved_of_inactive` — nothing touches the context of a task that is not active
* `saved_resume` — a task continues from the context in which it was stopped
* `exited` — who has left never becomes active again, and its context stays
-/

namespace Infra

universe u v

variable {ι : Type u} {γ : Type v}

/-- A shared processor. -/
structure TimeSharing (ι : Type u) (γ : Type v) where
  /-- The task that is active; none once the processor has stopped giving out slices. -/
  active : Option ι
  /-- The tasks that may still become active. -/
  live : Set ι
  /-- The context in which each task was last stopped. -/
  saved : ι → γ

/-- How a slice ends: with the context of the active task, which may also leave for good. -/
structure SliceEnd (γ : Type v) where
  context : γ
  leaves : Prop

namespace TimeSharing

variable [DecidableEq ι]

/-- A slice ends as `e` says and the next one begins; a stopped processor stays as it is. -/
def Step (e : SliceEnd γ) (t t' : TimeSharing ι γ) : Prop :=
  match t.active with
  | none => t' = t
  | some p =>
    t'.live = {q ∈ t.live | ¬(e.leaves ∧ q = p)} ∧
      t'.saved = Function.update t.saved p e.context ∧
      ∀ q ∈ t'.active, q ∈ t'.live

theorem Step.eq_of_none {e : SliceEnd γ} {t t' : TimeSharing ι γ} (h : Step e t t')
    (ht : t.active = none) : t' = t := by
  unfold Step at h
  rwa [ht] at h

theorem Step.of_some {e : SliceEnd γ} {t t' : TimeSharing ι γ} {p : ι} (h : Step e t t')
    (ht : t.active = some p) :
    t'.live = {q ∈ t.live | ¬(e.leaves ∧ q = p)} ∧
      t'.saved = Function.update t.saved p e.context ∧ ∀ q ∈ t'.active, q ∈ t'.live := by
  unfold Step at h
  rwa [ht] at h

/-! ## One slice -/

variable {e : SliceEnd γ} {t t' : TimeSharing ι γ} {p q : ι}

theorem Step.live_subset (h : Step e t t') : t'.live ⊆ t.live := by
  cases ht : t.active with
  | none => rw [h.eq_of_none ht]
  | some p =>
    rw [(h.of_some ht).1]
    exact Set.sep_subset _ _

/-- The slice of one task leaves the saved contexts of all others alone. -/
theorem Step.saved_of_ne (h : Step e t t') (hp : t.active ≠ some p) : t'.saved p = t.saved p := by
  cases ht : t.active with
  | none => rw [h.eq_of_none ht]
  | some q =>
    rw [(h.of_some ht).2.1, Function.update_of_ne]
    rintro rfl
    exact hp ht

theorem Step.saved_self (h : Step e t t') (hp : t.active = some p) :
    t'.saved p = e.context := by
  rw [(h.of_some hp).2.1, Function.update_self]

theorem Step.not_live_of_leaves (h : Step e t t') (hp : t.active = some p) (hl : e.leaves) :
    p ∉ t'.live := by
  rw [(h.of_some hp).1]
  exact fun hmem => hmem.2 ⟨hl, rfl⟩

theorem Step.active_live (h : Step e t t') (ht : ∀ q ∈ t.active, q ∈ t.live) :
    ∀ q ∈ t'.active, q ∈ t'.live := by
  cases ha : t.active with
  | none => rwa [h.eq_of_none ha]
  | some p => exact (h.of_some ha).2.2

/-! ## Whole runs -/

section Runs

variable {t : Nat → TimeSharing ι γ} {e : Nat → SliceEnd γ} {m n : Nat}

theorem live_antitone (h : ∀ j, Step (e j) (t j) (t (j + 1))) (hmn : m ≤ n) :
    (t n).live ⊆ (t m).live := by
  induction hmn with
  | refl => exact subset_rfl
  | step _ ih => exact (h _).live_subset.trans ih

/-- A task that is live no longer has left in one of its own slices. -/
theorem exists_leaves (h : ∀ j, Step (e j) (t j) (t (j + 1))) (hmn : m ≤ n)
    (hm : p ∈ (t m).live) (hn : p ∉ (t n).live) :
    ∃ j, m ≤ j ∧ j < n ∧ (t j).active = some p ∧ (e j).leaves := by
  induction hmn with
  | refl => exact absurd hm hn
  | @step n hle ih =>
    by_cases hlive : p ∈ (t n).live
    · refine ⟨n, hle, Nat.lt_succ_self n, ?_⟩
      cases ha : (t n).active with
      | none =>
        rw [(h n).eq_of_none ha] at hn
        exact absurd hlive hn
      | some q =>
        rw [((h n).of_some ha).1] at hn
        by_contra hstay
        refine hn ⟨hlive, fun hl => hstay ?_⟩
        rw [hl.2]
        exact ⟨rfl, hl.1⟩
    · obtain ⟨j, hmj, hjn, hj⟩ := ih hlive
      exact ⟨j, hmj, Nat.lt_succ_of_lt hjn, hj⟩

/-- The active task is always a live one. -/
theorem active_live (h : ∀ j, Step (e j) (t j) (t (j + 1)))
    (h₀ : ∀ q ∈ (t 0).active, q ∈ (t 0).live) : ∀ n, ∀ q ∈ (t n).active, q ∈ (t n).live
  | 0 => h₀
  | n + 1 => (h n).active_live (active_live h h₀ n)

/-- **Nothing touches the context of a task that is not active.** -/
theorem saved_of_inactive (h : ∀ j, Step (e j) (t j) (t (j + 1))) (hmn : m ≤ n)
    (hp : ∀ j, m ≤ j → j < n → (t j).active ≠ some p) : (t n).saved p = (t m).saved p := by
  induction hmn with
  | refl => rfl
  | step hle ih =>
    rw [(h _).saved_of_ne (hp _ hle (Nat.lt_succ_self _))]
    exact ih fun j hj hjn => hp j hj (Nat.lt_succ_of_lt hjn)

/-- **A task continues from the context in which it was stopped.** -/
theorem saved_resume (h : ∀ j, Step (e j) (t j) (t (j + 1))) (hmn : m < n)
    (hm : (t m).active = some p) (hp : ∀ j, m < j → j < n → (t j).active ≠ some p) :
    (t n).saved p = (e m).context := by
  rw [saved_of_inactive h hmn hp, (h m).saved_self hm]

/-- **Leaving is for good.** -/
theorem exited (h : ∀ j, Step (e j) (t j) (t (j + 1)))
    (h₀ : ∀ q ∈ (t 0).active, q ∈ (t 0).live) (hmn : m < n) (hm : (t m).active = some p)
    (hl : (e m).leaves) :
    p ∉ (t n).live ∧ (t n).active ≠ some p ∧ (t n).saved p = (e m).context := by
  have hdead : ∀ j, m < j → p ∉ (t j).live := fun j hj hmem =>
    (h m).not_live_of_leaves hm hl (live_antitone h hj hmem)
  have hinactive : ∀ j, m < j → (t j).active ≠ some p := fun j hj ha =>
    hdead j hj (active_live h h₀ j p (by rw [ha]; rfl))
  exact ⟨hdead n hmn, hinactive n hmn, saved_resume h hmn hm fun j hj _ => hinactive j hj⟩

end Runs

end TimeSharing

end Infra
