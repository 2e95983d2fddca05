import SchedOS.Infra.Loop
import Mathlib.Tactic
import Mathlib.SetTheory.Cardinal.Finite
import Mathlib.Analysis.SpecificLimits.Basic

/-!
# Drawing until a draw is accepted

A draw is a value of a finite type. It picks a candidate, and a loop goes on drawing until the
candidate is an acceptable one. Which draws come before makes no difference to what the last one
picks, so two candidates that as many values pick are the result of as many sequences of draws.

* `loop_draw_iff` — what the loop does with a sequence of draws
* `card_firstAccepted` — how many sequences lead to a given candidate
* `tendsto_undecided` — the sequences that lead to none become negligible
-/

namespace Infra

universe u v w

variable {α : Type u} {β : Type v} {ρ : Type w} {pick : α → β} {accept : β → Prop} {k : Nat}

/-- The last of the draws is the first that is accepted, and it picks `i`. -/
structure FirstAccepted (pick : α → β) (accept : β → Prop) (draws : Fin (k + 1) → α) (i : β) :
    Prop where
  rejected : ∀ j : Fin k, ¬ accept (pick (draws j.castSucc))
  picked : pick (draws (Fin.last k)) = i

/-! ## The loop -/

/-- The body of `while (1) { draw; if (accepted) … }`, where the branch does not come back; the
state is the number of draws so far. -/
def drawBody (pick : α → β) (accept : β → Prop) [DecidablePred accept] (f : β → ρ)
    (draws : Nat → α) (n : Nat) : Pass Nat ρ :=
  if accept (pick (draws n)) then .leave (f (pick (draws n))) else .again (n + 1)

section Loop

variable [DecidablePred accept] {f : β → ρ} {draws : Nat → α}

/-- The draws that are rejected are passed over. -/
theorem loop_draw_again : ∀ (n m : Nat), (∀ j, m ≤ j → j < m + n → ¬ accept (pick (draws j))) →
    ∀ r, loop (drawBody pick accept f draws) (n + r) m
      = loop (drawBody pick accept f draws) r (m + n)
  | 0, m, _, r => by rw [Nat.zero_add, Nat.add_zero]
  | n + 1, m, h, r => by
    have hm : drawBody pick accept f draws m = .again (m + 1) :=
      if_neg (h m (Nat.le_refl m) (by omega))
    rw [show n + 1 + r = n + r + 1 by omega, loop_succ_again hm,
      loop_draw_again n (m + 1) (fun j hj hjn => h j (by omega) (by omega)),
      show m + 1 + n = m + (n + 1) by omega]

/-- As long as the loop goes on, everything has been rejected. -/
theorem rejected_of_loop_draw : ∀ {n m s : Nat},
    loop (drawBody pick accept f draws) n m = .again s →
    ∀ j, m ≤ j → j < m + n → ¬ accept (pick (draws j))
  | 0, m, s, _, j, hj, hjn => by omega
  | n + 1, m, s, h, j, hj, hjn => by
    by_cases hm : accept (pick (draws m))
    · have hbody : drawBody pick accept f draws m = .leave (f (pick (draws m))) := if_pos hm
      rw [loop_succ_leave hbody] at h
      cases h
    · have hbody : drawBody pick accept f draws m = .again (m + 1) := if_neg hm
      rw [loop_succ_again hbody] at h
      rcases Nat.eq_or_lt_of_le hj with rfl | hlt
      · exact hm
      · exact rejected_of_loop_draw h j hlt (by omega)

/-- **What the loop does** with a sequence of draws: it is left at the last of them, for what it
picks, exactly if that is the first that is accepted. -/
theorem loop_draw_iff (hf : Function.Injective f) {i : β} (hi : accept i)
    {sequence : Fin (k + 1) → α} (hseq : ∀ j : Fin (k + 1), draws j = sequence j) :
    (∃ s, loop (drawBody pick accept f draws) k 0 = .again s) ∧
        loop (drawBody pick accept f draws) (k + 1) 0 = .leave (f i) ↔
      FirstAccepted pick accept sequence i := by
  have hlast : draws k = sequence (Fin.last k) := hseq (Fin.last k)
  have hrej : (∀ j, 0 ≤ j → j < 0 + k → ¬ accept (pick (draws j))) ↔
      ∀ j : Fin k, ¬ accept (pick (sequence j.castSucc)) := by
    constructor
    · intro h j
      rw [← hseq j.castSucc]
      exact h j (Nat.zero_le _) (by have := j.isLt; simp)
    · intro h j _ hj
      have hj' : j < k := by omega
      have hval : draws j = sequence (Fin.castSucc ⟨j, hj'⟩) := hseq (Fin.castSucc ⟨j, hj'⟩)
      rw [hval]
      exact h ⟨j, hj'⟩
  constructor
  · rintro ⟨⟨s, hs⟩, hleave⟩
    have hrejected := rejected_of_loop_draw hs
    refine ⟨hrej.mp hrejected, ?_⟩
    rw [loop_draw_again k 0 hrejected 1, Nat.zero_add, loop, drawBody] at hleave
    rw [← hlast]
    split at hleave
    · next s' hbody =>
      rw [loop] at hleave
      cases hleave
    · next r hbody =>
      split at hbody
      · cases hbody
        exact hf (Pass.leave.inj hleave)
      · cases hbody
  · intro h
    have hrejected := hrej.mpr h.rejected
    have hpick : pick (draws k) = i := by rw [hlast, h.picked]
    refine ⟨⟨0 + k, loop_draw_again k 0 hrejected 0⟩, ?_⟩
    rw [loop_draw_again k 0 hrejected 1, Nat.zero_add]
    exact loop_succ_leave (by rw [drawBody, hpick, if_pos hi]) 0

/-- The loop is still going on after `k` draws if all of them are rejected. -/
theorem loop_draw_undecided_iff {sequence : Fin k → α}
    (hseq : ∀ j : Fin k, draws j = sequence j) :
    (∃ s, loop (drawBody pick accept f draws) k 0 = .again s) ↔
      ∀ j, ¬ accept (pick (sequence j)) := by
  constructor
  · rintro ⟨s, hs⟩ j
    have hj := j.isLt
    rw [← hseq j]
    exact rejected_of_loop_draw hs j (Nat.zero_le _) (by omega)
  · intro h
    have hrejected : ∀ j, 0 ≤ j → j < 0 + k → ¬ accept (pick (draws j)) := by
      intro j _ hj
      have hval : draws j = sequence ⟨j, by omega⟩ := hseq ⟨j, by omega⟩
      rw [hval]
      exact h _
    exact ⟨0 + k, loop_draw_again k 0 hrejected 0⟩

end Loop

/-! ## Counting -/

section Count

variable (pick accept)

/-- Some rejected draws, and a last one that picks `i`. -/
def firstAcceptedEquiv (k : Nat) (i : β) :
    {draws : Fin (k + 1) → α // FirstAccepted pick accept draws i} ≃
      (Fin k → {a // ¬ accept (pick a)}) × {a // pick a = i} where
  toFun draws := (fun j => ⟨draws.1 j.castSucc, draws.2.rejected j⟩,
    ⟨draws.1 (Fin.last k), draws.2.picked⟩)
  invFun x := ⟨Fin.snoc (α := fun _ => α) (fun j => (x.1 j).1) x.2.1, by
    constructor
    · intro j
      rw [Fin.snoc_castSucc]
      exact (x.1 j).2
    · rw [Fin.snoc_last]
      exact x.2.2⟩
  left_inv draws := by
    refine Subtype.ext (funext fun j => ?_)
    induction j using Fin.lastCases with
    | last => simp
    | cast j => simp
  right_inv x := by simp

/-- **How many sequences of draws lead to `i`.** -/
theorem card_firstAccepted (k : Nat) (i : β) :
    Nat.card {draws : Fin (k + 1) → α // FirstAccepted pick accept draws i}
      = Nat.card {a // ¬ accept (pick a)} ^ k * Nat.card {a // pick a = i} := by
  rw [Nat.card_congr (firstAcceptedEquiv pick accept k i), Nat.card_prod, Nat.card_fun,
    Nat.card_fin]

/-- **How many sequences leave it undecided.** -/
theorem card_undecided (k : Nat) :
    Nat.card {draws : Fin k → α // ∀ j, ¬ accept (pick (draws j))}
      = Nat.card {a // ¬ accept (pick a)} ^ k := by
  rw [Nat.card_congr (Equiv.subtypePiEquivPi (p := fun _ a => ¬ accept (pick a))), Nat.card_fun,
    Nat.card_fin]

/-- The powers of a number are negligible beside those of a larger one. -/
theorem tendsto_pow_div_pow {a b : Nat} (h : a < b) :
    Filter.Tendsto (fun k => ((a ^ k : Nat) : ℝ) / (b : ℝ) ^ k) Filter.atTop (nhds 0) := by
  have hb : (0 : ℝ) < b := by exact_mod_cast Nat.zero_lt_of_lt h
  have hratio : (a : ℝ) / b < 1 := (div_lt_one hb).mpr (by exact_mod_cast h)
  have hlimit := tendsto_pow_atTop_nhds_zero_of_lt_one (by positivity) hratio
  simpa only [div_pow, Nat.cast_pow] using hlimit

/-- **It is all but surely decided in the end**, if there is something to accept. -/
theorem tendsto_undecided [Finite α] (h : ∃ a, accept (pick a)) :
    Filter.Tendsto (fun k => (Nat.card {draws : Fin k → α // ∀ j, ¬ accept (pick (draws j))} : ℝ)
      / (Nat.card α : ℝ) ^ k) Filter.atTop (nhds 0) := by
  obtain ⟨a, ha⟩ := h
  have hless : Nat.card {a // ¬ accept (pick a)} < Nat.card α :=
    Finite.card_subtype_lt (not_not_intro ha)
  simp only [card_undecided]
  exact tendsto_pow_div_pow hless

/-- What is rejected, if each acceptable candidate is picked by `c` values. -/
theorem card_rejected [Finite α] [Fintype β] [DecidablePred accept] {c : Nat}
    (h : ∀ i, accept i → Nat.card {a // pick a = i} = c) :
    Nat.card {a // ¬ accept (pick a)}
      = Nat.card α - c * (Finset.univ.filter accept).card := by
  classical
  have := Fintype.ofFinite α
  have hfibre : ∀ i ∈ Finset.univ.filter accept,
      (Finset.univ.filter fun a => pick a = i).card = c := by
    intro i hi
    rw [← h i (Finset.mem_filter.mp hi).2, Nat.card_eq_fintype_card, Fintype.card_subtype]
  have haccepted : (Finset.univ.filter fun a => accept (pick a)).card
      = c * (Finset.univ.filter accept).card := by
    have hmaps : ∀ a ∈ Finset.univ.filter fun a => accept (pick a),
        pick a ∈ Finset.univ.filter accept := fun a ha => by simpa using ha
    rw [Finset.card_eq_sum_card_fiberwise hmaps, Nat.mul_comm, ← smul_eq_mul, ← Finset.sum_const]
    refine Finset.sum_congr rfl fun i hi => ?_
    rw [← hfibre i hi, Finset.filter_filter]
    refine congrArg Finset.card (Finset.filter_congr fun a _ => ?_)
    exact and_iff_right_of_imp fun ha => ha ▸ (Finset.mem_filter.mp hi).2
  have hsum := Finset.card_filter_add_card_filter_not (s := (Finset.univ : Finset α))
    (fun a => accept (pick a))
  rw [Finset.card_univ] at hsum
  rw [Nat.card_eq_fintype_card, Fintype.card_subtype, Nat.card_eq_fintype_card, ← haccepted]
  omega

end Count

end Infra
