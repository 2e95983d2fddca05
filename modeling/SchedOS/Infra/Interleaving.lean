import Mathlib.Algebra.BigOperators.Group.List.Basic
import Mathlib.Algebra.Order.BigOperators.Group.Finset
import Mathlib.Data.Fintype.BigOperators

/-!
# Interleavings

Several tasks act on something they share, each by a script of its own. A log of the actions is an
interleaving of what the scripts begin with (`Follows`); it is complete when nothing of the scripts
is left. How far a task has got can be read off the log.
-/

namespace Infra

universe u v w

variable {ι : Type u} {α : Type v} {β : Type w} [DecidableEq ι]

/-- The entries of the log that belong to task `i`. -/
def entriesOf (log : List (ι × α)) (i : ι) : List α :=
  log.filterMap fun entry => if entry.1 = i then some entry.2 else none

/-- What `f` makes of the log. -/
def viewed (f : α → Option β) (log : List (ι × α)) : List (ι × β) :=
  log.filterMap fun entry => (f entry.2).map (entry.1, ·)

section Entries

variable {log : List (ι × α)} {i j : ι} {a : α}

@[simp] theorem entriesOf_nil : entriesOf ([] : List (ι × α)) i = [] := rfl

@[simp] theorem entriesOf_concat_self :
    entriesOf (log ++ [(i, a)]) i = entriesOf log i ++ [a] := by
  simp [entriesOf]

theorem entriesOf_concat_of_ne (h : j ≠ i) : entriesOf (log ++ [(i, a)]) j = entriesOf log j := by
  simp [entriesOf, h.symm]

theorem mem_entriesOf : a ∈ entriesOf log i ↔ (i, a) ∈ log := by
  simp only [entriesOf, List.mem_filterMap]
  constructor
  · rintro ⟨⟨j, b⟩, hmem, h⟩
    split at h
    · next hji =>
      cases h
      exact hji ▸ hmem
    · cases h
  · exact fun hmem => ⟨(i, a), hmem, if_pos rfl⟩

/-- Every entry belongs to one task. -/
theorem sum_length_entriesOf [Fintype ι] (log : List (ι × α)) :
    ∑ i, (entriesOf log i).length = log.length := by
  induction log using List.reverseRecOn with
  | nil => simp
  | append_singleton log entry ih =>
    obtain ⟨j, a⟩ := entry
    have hlength : ∀ i, (entriesOf (log ++ [(j, a)]) i).length
        = (entriesOf log i).length + if i = j then 1 else 0 := by
      intro i
      by_cases hi : i = j
      · subst hi
        simp
      · simp [entriesOf_concat_of_ne hi, hi]
    simp [hlength, Finset.sum_add_distrib, ih]

theorem count_map_fst (log : List (ι × α)) (i : ι) :
    (log.map Prod.fst).count i = (entriesOf log i).length := by
  induction log with
  | nil => rfl
  | cons entry log ih =>
    obtain ⟨j, a⟩ := entry
    by_cases hj : j = i
    · simpa [entriesOf, hj] using ih
    · simpa [entriesOf, hj] using ih

/-- What `f` makes of the entries of a task is what the task has in the view. -/
theorem entriesOf_viewed (f : α → Option β) :
    entriesOf (viewed f log) i = (entriesOf log i).filterMap f := by
  simp only [entriesOf, viewed, List.filterMap_filterMap]
  refine List.filterMap_congr fun entry _ => ?_
  by_cases hi : entry.1 = i
  · cases hf : f entry.2 <;> simp [hi, hf]
  · cases f entry.2 <;> simp [hi]

end Entries

section Viewed

variable {f : α → Option β} {log : List (ι × α)} {i : ι} {a : α} {b : β}

omit [DecidableEq ι] in
theorem viewed_concat_some (h : f a = some b) :
    viewed f (log ++ [(i, a)]) = viewed f log ++ [(i, b)] := by
  simp [viewed, h]

omit [DecidableEq ι] in
theorem viewed_concat_none (h : f a = none) : viewed f (log ++ [(i, a)]) = viewed f log := by
  simp [viewed, h]

end Viewed

/-- The log is made of what the scripts begin with. -/
def Follows (scripts : ι → List α) (log : List (ι × α)) : Prop :=
  ∀ i, entriesOf log i <+: scripts i

namespace Follows

variable {scripts : ι → List α} {log : List (ι × α)} {i : ι} {a : α}

theorem nil : Follows scripts ([] : List (ι × α)) := fun _ => List.nil_prefix

/-- What a task does next according to its script. -/
def next? (scripts : ι → List α) (log : List (ι × α)) (i : ι) : Option α :=
  (scripts i)[(entriesOf log i).length]?

variable (h : Follows scripts log)
include h

theorem concat_prefix (hnext : next? scripts log i = some a) :
    entriesOf log i ++ [a] <+: scripts i := by
  obtain ⟨rest, hrest⟩ := h i
  rw [next?, ← hrest, List.getElem?_append_right (Nat.le_refl _), Nat.sub_self] at hnext
  cases rest with
  | nil => cases hnext
  | cons b rest =>
    cases hnext
    exact ⟨rest, by simp [← hrest]⟩

/-- One action more. -/
theorem concat (hnext : next? scripts log i = some a) : Follows scripts (log ++ [(i, a)]) := by
  intro j
  by_cases hj : j = i
  · subst hj
    rw [entriesOf_concat_self]
    exact h.concat_prefix hnext
  · rw [entriesOf_concat_of_ne hj]
    exact h j

/-- A view of the log is an interleaving of what the view makes of the scripts. -/
theorem viewed (f : α → Option β) :
    Follows (fun i => (scripts i).filterMap f) (viewed f log) := by
  intro i
  rw [entriesOf_viewed]
  exact (h i).filterMap f

/-- A task that has not come to the end of its script has a next action. -/
theorem next?_eq_none_iff : next? scripts log i = none ↔ entriesOf log i = scripts i := by
  rw [next?, List.getElem?_eq_none_iff]
  constructor
  · exact fun hle => (h i).eq_of_length_le hle
  · exact fun he => Nat.le_of_eq (congrArg List.length he.symm)

variable [Fintype ι]

theorem length_le : log.length ≤ ∑ i, (scripts i).length := by
  rw [← sum_length_entriesOf log]
  exact Finset.sum_le_sum fun i _ => (h i).length_le

/-- A log of full length is complete. -/
theorem complete (hlength : ∑ i, (scripts i).length ≤ log.length) (i : ι) :
    entriesOf log i = scripts i := by
  rw [← sum_length_entriesOf log] at hlength
  have hle : ∀ j ∈ Finset.univ, (entriesOf log j).length ≤ (scripts j).length :=
    fun j _ => (h j).length_le
  have heq := (Finset.sum_eq_sum_iff_of_le hle).mp (le_antisymm (Finset.sum_le_sum hle) hlength)
  exact (h i).eq_of_length (heq i (Finset.mem_univ i))

end Follows

/-! ## Every other occurrence -/

section EveryOther

variable {keep : ι → Bool} {xs : List ι} {i : ι}

/-- Of the occurrences of a task in the list, every other one; `keep` tells whether the next one is
kept. -/
def everyOther (keep : ι → Bool) : List ι → List ι
  | [] => []
  | i :: xs => (if keep i then [i] else []) ++ everyOther (Function.update keep i (!keep i)) xs

theorem everyOther_concat : ∀ (xs : List ι) (keep : ι → Bool), everyOther keep (xs ++ [i])
    = everyOther keep xs ++ if keep i ^^ xs.count i % 2 == 1 then [i] else []
  | [], keep => by simp [everyOther]
  | j :: xs, keep => by
    rw [List.cons_append, everyOther, everyOther_concat xs, everyOther, List.append_assoc]
    congr 2
    by_cases hj : j = i
    · subst hj
      rw [Function.update_self, List.count_cons_self]
      rcases Nat.mod_two_eq_zero_or_one (xs.count j) with h | h <;>
        cases keep j <;> simp [h, Nat.add_mod]
    · rw [Function.update_of_ne (Ne.symm hj), List.count_cons_of_ne hj]

/-- One round of tasks, all of which are kept or none. -/
theorem everyOther_round : ∀ (l : List ι) {keep : ι → Bool} {b : Bool}, l.Nodup →
    (∀ i ∈ l, keep i = b) → everyOther keep (l ++ xs)
      = (if b then l else [])
        ++ everyOther (fun i => if i ∈ l then !b else keep i) xs
  | [], keep, b, _, _ => by simp
  | j :: l, keep, b, hl, hkeep => by
    obtain ⟨hj, hl⟩ := List.nodup_cons.mp hl
    have hb : keep j = b := hkeep j List.mem_cons_self
    have hrest : ∀ i ∈ l, Function.update keep j (!keep j) i = b := by
      intro i hi
      rw [Function.update_of_ne (ne_of_mem_of_not_mem hi hj)]
      exact hkeep i (List.mem_cons_of_mem _ hi)
    have hflags : (fun i => if i ∈ l then !b else Function.update keep j (!keep j) i)
        = fun i => if i ∈ j :: l then !b else keep i := by
      funext i
      by_cases hi : i = j
      · subst hi
        simp [hj, hb]
      · simp [hi]
    rw [List.cons_append, everyOther, everyOther_round l hl hrest, hflags, hb]
    cases b <;> simp

/-- Two rounds at a time, the first of which is kept. -/
theorem everyOther_rounds {l : List ι} (hl : l.Nodup) (hkeep : ∀ i ∈ l, keep i = true) (n : Nat) :
    everyOther keep ((List.replicate (2 * n) l).flatten ++ xs)
      = (List.replicate n l).flatten ++ everyOther keep xs := by
  induction n with
  | zero => simp
  | succ n ih =>
    have hflags : (fun i => if i ∈ l then !false else if i ∈ l then !true else keep i)
        = keep := by
      funext i
      by_cases hi : i ∈ l <;> simp [hi, hkeep]
    have hsplit : (List.replicate (2 * (n + 1)) l).flatten ++ xs
        = l ++ (l ++ ((List.replicate (2 * n) l).flatten ++ xs)) := by
      simp [Nat.mul_succ, List.replicate_succ]
    have hlast : ∀ i ∈ l, (if i ∈ l then !true else keep i) = false := by simp +contextual
    rw [hsplit, everyOther_round l hl hkeep, everyOther_round l hl hlast, hflags, ih]
    simp [List.replicate_succ]

end EveryOther

end Infra
