import SchedOS.Infra.Cyclic
import Mathlib.Order.Filter.AtTopBot.Basic

/-!
# Progress in infinite runs

Two reasons why something happens sooner or later. What only grows, and not beyond a bound, does
not grow for ever: from some time on nothing is gained any more (`exists_stalled`), and a run in
which there is always something to gain comes to an end. And a baton that is handed on round a
circle time and again comes to everyone (`Baton.comes_to`).

That `P` holds time and again is `∃ᶠ n in Filter.atTop, P n`, as in Mathlib.
-/

namespace Infra

open Filter

/-! ## Stalling -/

/-- A sequence that grows up to a bound is constant in the end. -/
theorem exists_constant {f : Nat → Nat} {B : Nat} (hmono : Monotone f) (hB : ∀ n, f n ≤ B) :
    ∃ m, ∀ n, m ≤ n → f n = f m := by
  classical
  have hroom : ∃ d n, B - f n = d := ⟨_, 0, rfl⟩
  obtain ⟨m, hm⟩ := Nat.find_spec hroom
  refine ⟨m, fun n hn => ?_⟩
  -- no later value leaves less room below the bound
  have hmin : Nat.find hroom ≤ B - f n := Nat.find_min' hroom ⟨n, rfl⟩
  have hle := hmono hn
  have hBn := hB n
  omega

/-- **Stalling.** Finitely many counters that grow, each up to its bound, all stand still in the
end. -/
theorem exists_stalled {ι : Type*} [Fintype ι] {f : Nat → ι → Nat} {B : Nat}
    (hmono : ∀ n i, f n i ≤ f (n + 1) i) (hB : ∀ n i, f n i ≤ B) :
    ∃ m, ∀ n, m ≤ n → f (n + 1) = f n := by
  have hconst : ∀ i, ∃ m, ∀ n, m ≤ n → f n i = f m i := fun i =>
    exists_constant (monotone_nat_of_le_succ fun n => hmono n i) fun n => hB n i
  choose m hm using hconst
  refine ⟨Finset.univ.sup m, fun n hn => funext fun i => ?_⟩
  have hi : m i ≤ n := (Finset.le_sup (Finset.mem_univ i)).trans hn
  rw [hm i (n + 1) (Nat.le_succ_of_le hi), hm i n hi]

/-! ## Going round -/

/-- What happens time and again does so from any time on. -/
theorem frequently_add_left {P : Nat → Prop} (h : ∃ᶠ n in atTop, P n) (m : Nat) :
    ∃ᶠ n in atTop, P (m + n) := by
  refine frequently_atTop.mpr fun n => ?_
  obtain ⟨j, hj, hP⟩ := frequently_atTop.mp h (m + n)
  obtain ⟨d, rfl⟩ := Nat.exists_eq_add_of_le (show m ≤ j by omega)
  exact ⟨d, by omega, hP⟩

/-- A baton on a circle. Who has it keeps it, or hands it on to the next member of `S`; that
happens time and again. -/
structure Baton {N : Nat} (S : Fin N → Prop) (holder : Nat → Fin N) (handsOn : Nat → Prop) :
    Prop where
  keeps : ∀ n, ¬ handsOn n → holder (n + 1) = holder n
  next : ∀ n, handsOn n → IsNext S (holder n) (holder (n + 1))
  often : ∃ᶠ n in atTop, handsOn n

section Baton

variable {N : Nat} {S : Fin N → Prop} {holder : Nat → Fin N} {handsOn : Nat → Prop} {q : Fin N}

theorem Baton.holder_eq (h : Baton S holder handsOn) {n m : Nat} (hnm : n ≤ m)
    (hquiet : ∀ j, n ≤ j → j < m → ¬ handsOn j) : holder m = holder n := by
  induction hnm with
  | refl => rfl
  | @step m hle ih =>
    rw [h.keeps m (hquiet m hle (Nat.lt_succ_self m)),
      ih fun j hj hjm => hquiet j hj (Nat.lt_succ_of_lt hjm)]

/-- The next time that it is handed on. -/
theorem Baton.exists_next (h : Baton S holder handsOn) (n : Nat) :
    ∃ m, n ≤ m ∧ handsOn m ∧ IsNext S (holder n) (holder (m + 1)) := by
  classical
  have hex := frequently_atTop.mp h.often n
  obtain ⟨hle, hm⟩ := Nat.find_spec hex
  refine ⟨Nat.find hex, hle, hm, ?_⟩
  have hkept : holder (Nat.find hex) = holder n :=
    h.holder_eq hle fun j hj hjm hands => Nat.find_min hex hjm ⟨hj, hands⟩
  rw [← hkept]
  exact h.next _ hm

/-- **The baton comes to every member of `S`**, again and again. -/
theorem Baton.comes_to (h : Baton S holder handsOn) (hq : S q) (n : Nat) :
    ∃ m, n ≤ m ∧ handsOn m ∧ holder (m + 1) = q := by
  -- the way to `q` gets shorter every time
  generalize hd : gap (holder n) q = d
  induction d using Nat.strong_induction_on generalizing n with
  | _ d ih =>
    obtain ⟨m, hnm, hm, hnext⟩ := h.exists_next n
    by_cases heq : holder (m + 1) = q
    · exact ⟨m, hnm, hm, heq⟩
    · have hlt : gap (holder n) (holder (m + 1)) < gap (holder n) q :=
        Nat.lt_of_le_of_ne (hnext.2 q hq) fun he => heq (gap_inj he)
      have hcloser : gap (holder (m + 1)) q < d := by
        rw [← hd]
        exact gap_lt_of_closer hlt
      obtain ⟨m', hm', hands, hq'⟩ := ih _ hcloser (m + 1) rfl
      exact ⟨m', by omega, hands, hq'⟩

end Baton

end Infra
