import SchedOS.Infra.Loop
import Mathlib.Tactic

/-!
# Going round a circle

`N` positions on a circle, numbered by `Fin N`. `gap p q` counts the positions strictly
between `p` and `q` when one walks forward from `p`; `p` itself comes last, after a whole
round. `IsNext S p q` says that `q` is the first member of `S` strictly after `p`.

* `loop_scan_of_isNext` — a loop that walks forward until it meets a member of `S` ends at
  the next one
* `gap_lt_of_isNext` — as long as `p` is a member, a choice of the next member never
  overtakes `p`
* `exists_visit`, `gap_strictMono` — between two visits to `p`, every position that stays a
  member is visited, and the visits are in cyclic order
-/

namespace Infra

variable {N : Nat}

/-- The position after `p`. -/
def next (p : Fin N) : Fin N := ⟨(p.val + 1) % N, Nat.mod_lt _ p.pos⟩

/-- The number of positions strictly between `p` and `q`, going forward; `p` is its own last. -/
def gap (p q : Fin N) : Nat :=
  if p.val < q.val then q.val - p.val - 1 else q.val + N - p.val - 1

/-- `q` is the first member of `S` strictly after `p`. -/
def IsNext (S : Fin N → Prop) (p q : Fin N) : Prop := S q ∧ ∀ r, S r → gap p q ≤ gap p r

/-! ## Gaps -/

theorem gap_lt (p q : Fin N) : gap p q < N := by
  unfold gap
  split <;> omega

theorem gap_self (p : Fin N) : gap p p + 1 = N := by
  have := p.isLt
  unfold gap
  rw [if_neg (Nat.lt_irrefl _)]
  omega

theorem gap_lt_gap_self {p q : Fin N} (h : q ≠ p) : gap p q < gap p p := by
  have hv : q.val ≠ p.val := fun he => h (Fin.ext he)
  unfold gap
  rw [if_neg (Nat.lt_irrefl _)]
  split <;> omega

theorem gap_inj {p q r : Fin N} (h : gap p q = gap p r) : q = r := by
  refine Fin.ext ?_
  unfold gap at h
  split at h <;> split at h <;> omega

theorem next_val (p : Fin N) :
    (next p).val = if p.val + 1 = N then 0 else p.val + 1 := by
  have hp := p.isLt
  show (p.val + 1) % N = _
  split
  · next h => rw [h, Nat.mod_self]
  · exact Nat.mod_eq_of_lt (by omega)

theorem gap_next_self (p : Fin N) : gap p (next p) = 0 := by
  have hn := next_val p
  unfold gap
  split at hn <;> split <;> omega

/-- One step forward brings every other position one closer. -/
theorem gap_next_of_ne {p q : Fin N} (h : q ≠ next p) : gap (next p) q + 1 = gap p q := by
  have hn := next_val p
  have hv : q.val ≠ (next p).val := fun he => h (Fin.ext he)
  unfold gap
  split at hn <;> split <;> split <;> omega

/-- If `q` is met no later than `p` on the way from `d`, it lies beyond `d` as seen from `p`. -/
theorem gap_lt_of_gap_le {p d q : Fin N} (hd : d ≠ p) (h : gap d q ≤ gap d p) :
    gap p d < gap p q := by
  have hv : d.val ≠ p.val := fun he => hd (Fin.ext he)
  unfold gap at h ⊢
  split at h <;> split at h <;> split <;> split <;> omega

/-- A position between `d` and `p`, on the way from `d`. -/
theorem gap_lt_of_gap_lt {p d q : Fin N} (hd : d ≠ p) (h : gap p d < gap p q) (hq : q ≠ p) :
    gap d q < gap d p := by
  have hv : d.val ≠ p.val := fun he => hd (Fin.ext he)
  have hqv : q.val ≠ p.val := fun he => hq (Fin.ext he)
  unfold gap at h ⊢
  split at h <;> split at h <;> split <;> split <;> omega

/-- On the way from `d`, first `r`, then `q`, then `p`: seen from `p`, `r` comes before `q`. -/
theorem gap_lt_of_between {p d q r : Fin N} (hrq : gap d r < gap d q) (hqp : gap d q < gap d p) :
    gap p r < gap p q := by
  have hN := d.isLt
  unfold gap at hrq hqp ⊢
  split at hqp <;> split at hqp <;> split at hrq <;> split <;> split <;> omega

/-- What lies before `q` as seen from a place `r` on the way to `q` does so from the start. -/
theorem gap_lt_of_ahead {p q r x : Fin N} (hr : gap p r < gap p q) (hx : gap r x < gap r q) :
    gap p x < gap p q := by
  have hN := p.isLt
  unfold gap at hr hx ⊢
  split at hr <;> split at hr <;> split at hx <;> split at hx <;> split <;> omega

/-- Going forward to a place on the way to `q` makes the rest of the way shorter. -/
theorem gap_lt_of_closer {p q r : Fin N} (h : gap p r < gap p q) : gap r q < gap p q := by
  have hN := p.isLt
  unfold gap at h ⊢
  split at h <;> split at h <;> split <;> omega

/-! ## What lies ahead -/

/-- The number of positions of `A` strictly between `p` and `q`. -/
def ahead (A : Finset (Fin N)) (p q : Fin N) : Nat := (A.filter fun r => gap p r < gap p q).card

/-- Every step forward to a member of `A` leaves one fewer ahead. -/
theorem ahead_lt {A : Finset (Fin N)} {p q r : Fin N} (hr : r ∈ A) (h : gap p r < gap p q) :
    ahead A r q < ahead A p q := by
  refine Finset.card_lt_card ⟨fun x hx => ?_, fun hsub => ?_⟩
  · obtain ⟨hxA, hx⟩ := Finset.mem_filter.mp hx
    exact Finset.mem_filter.mpr ⟨hxA, gap_lt_of_ahead h hx⟩
  · -- `r` itself is no longer ahead
    obtain ⟨-, hrr⟩ := Finset.mem_filter.mp (hsub (Finset.mem_filter.mpr ⟨hr, h⟩))
    have hself := gap_self r
    have hlt := gap_lt r q
    omega

theorem ahead_add_two_le {A : Finset (Fin N)} {p q : Fin N} (hp : p ∈ A) (hq : q ∈ A)
    (hne : p ≠ q) : ahead A p q + 2 ≤ A.card := by
  have hsub : A.filter (fun r => gap p r < gap p q) ⊆ (A.erase p).erase q := by
    intro r hr
    obtain ⟨hrA, hlt⟩ := Finset.mem_filter.mp hr
    refine Finset.mem_erase.mpr ⟨?_, Finset.mem_erase.mpr ⟨?_, hrA⟩⟩
    · rintro rfl
      exact Nat.lt_irrefl _ hlt
    · rintro rfl
      have hself := gap_self r
      have hq := gap_lt r q
      omega
  have hcard := Finset.card_le_card hsub
  rw [Finset.card_erase_of_mem (Finset.mem_erase.mpr ⟨hne.symm, hq⟩),
    Finset.card_erase_of_mem hp] at hcard
  have hpos : 1 < A.card := Finset.one_lt_card.mpr ⟨p, hp, q, hq, hne⟩
  unfold ahead
  omega

/-! ## The next member -/

variable {S : Fin N → Prop} {p q : Fin N}

theorem exists_isNext (p : Fin N) (h : ∃ q, S q) : ∃ q, IsNext S p q := by
  classical
  have hP : ∃ n q, S q ∧ gap p q = n := by
    obtain ⟨q, hq⟩ := h
    exact ⟨_, q, hq, rfl⟩
  obtain ⟨q, hq, hgap⟩ := Nat.find_spec hP
  refine ⟨q, hq, fun r hr => ?_⟩
  rw [hgap]
  exact Nat.find_min' hP ⟨r, hr, rfl⟩

theorem isNext_unique {q' : Fin N} (h : IsNext S p q) (h' : IsNext S p q') : q = q' :=
  gap_inj (Nat.le_antisymm (h.2 q' h'.1) (h'.2 q h.1))

/-- The next member is `p` itself only when there is no other. -/
theorem IsNext.eq_self (h : IsNext S p p) : ∀ r, S r → r = p := by
  intro r hr
  by_contra hne
  exact absurd (h.2 r hr) (Nat.not_le_of_lt (gap_lt_gap_self hne))

theorem IsNext.of_next (h : IsNext S p q) (hp : ¬ S (next p)) : IsNext S (next p) q := by
  have hne : ∀ r, S r → r ≠ next p := fun r hr he => hp (he ▸ hr)
  refine ⟨h.1, fun r hr => ?_⟩
  have h₁ := gap_next_of_ne (hne q h.1)
  have h₂ := gap_next_of_ne (hne r hr)
  have := h.2 r hr
  omega

/-- As long as `p` is a member, choosing the next one never overtakes `p`. -/
theorem gap_lt_of_isNext {d : Fin N} (h : IsNext S d q) (hp : S p) (hd : d ≠ p) :
    gap p d < gap p q :=
  gap_lt_of_gap_le hd (h.2 p hp)

/-! ## Scanning -/

section Scan

universe u

variable {ρ : Type u} [DecidablePred S] {f : Fin N → ρ}

/-- The body of `while (1) { p = next(p); if (S p) … }`, where the branch does not come back. -/
def scanBody (S : Fin N → Prop) [DecidablePred S] (f : Fin N → ρ) (p : Fin N) :
    Pass (Fin N) ρ :=
  if S (next p) then .leave (f (next p)) else .again (next p)

/-- **A scan finds the next member**, after as many passes as there are positions up to it. -/
theorem loop_scan_of_isNext : ∀ (n : Nat) {p : Fin N}, IsNext S p q → gap p q < n →
    loop (scanBody S f) n p = .leave (f q)
  | 0, _, _, hn => absurd hn (Nat.not_lt_zero _)
  | n + 1, p, h, hn => by
    by_cases hp : S (next p)
    · have hq : q = next p := by
        refine gap_inj (Nat.le_antisymm (h.2 _ hp) ?_)
        rw [gap_next_self]
        exact Nat.zero_le _
      rw [loop_succ_leave (r := f q) (by rw [scanBody, if_pos hp, hq])]
    · have hne : q ≠ next p := fun he => hp (he ▸ h.1)
      have := gap_next_of_ne hne
      rw [loop_succ_again (show scanBody S f p = .again (next p) by rw [scanBody, if_neg hp])]
      exact loop_scan_of_isNext n (h.of_next hp) (by omega)

/-- A scan that has been left has found the next member. -/
theorem loop_scan_leave {n : Nat} {r : ρ} (h : loop (scanBody S f) n p = .leave r) :
    ∃ q, IsNext S p q ∧ r = f q := by
  by_cases hS : ∃ q, S q
  · obtain ⟨q, hq⟩ := exists_isNext p hS
    exact ⟨q, hq, loop_leave_unique h (loop_scan_of_isNext N hq (gap_lt p q))⟩
  · exfalso
    have hstep : ∀ p, True → ∃ p', scanBody S f p = .again p' ∧ True := fun p _ =>
      ⟨next p, if_neg fun hn => hS ⟨_, hn⟩, trivial⟩
    obtain ⟨p', hp', -⟩ := loop_again_of_invariant hstep n p trivial
    rw [hp'] at h
    cases h

end Scan

/-! ## A sequence of choices -/

section Rotation

variable {S : Nat → Fin N → Prop} {d : Nat → Fin N} {m n : Nat}

/-- Between two visits to `p` (or after the first of them) the choices go forward: each lies
farther from `p` than the one before. -/
theorem gap_strictMono (hnext : ∀ j, m ≤ j → j < n → IsNext (S j) (d j) (d (j + 1)))
    (hp : ∀ j, m ≤ j → j < n → S j p) (hne : ∀ j, m < j → j < n → d j ≠ p) :
    ∀ {i j : Nat}, m < i → i < j → j ≤ n → gap p (d i) < gap p (d j) := by
  intro i j hi hij hj
  induction j with
  | zero => exact absurd hij (Nat.not_lt_zero i)
  | succ j ih =>
    have hstep : ∀ k, m < k → k < n → gap p (d k) < gap p (d (k + 1)) := fun k hk hkn =>
      gap_lt_of_isNext (hnext k (Nat.le_of_lt hk) hkn) (hp k (Nat.le_of_lt hk) hkn) (hne k hk hkn)
    rcases Nat.lt_or_ge i j with hlt | hge
    · exact Nat.lt_trans (ih hlt (by omega)) (hstep j (by omega) (by omega))
    · obtain rfl : i = j := by omega
      exact hstep i hi (by omega)

/-- **Everyone has a turn.** A position that stays a member from one visit to `p` to the next
is visited in between. -/
theorem exists_visit (hnext : ∀ j, m ≤ j → j < n → IsNext (S j) (d j) (d (j + 1)))
    (hmn : m < n) (hm : d m = p) (hn : d n = p) (hne : ∀ j, m < j → j < n → d j ≠ p)
    (hqp : q ≠ p) (hq : ∀ j, m ≤ j → j < n → S j q) : ∃ j, m < j ∧ j < n ∧ d j = q := by
  by_contra hcon
  have hmiss : ∀ j, m < j → j < n → d j ≠ q := fun j h₁ h₂ he => hcon ⟨j, h₁, h₂, he⟩
  -- `q` can never be left behind, so the walk would not come back to `p`
  have key : ∀ j, m < j → j ≤ n → gap p (d j) < gap p q := by
    intro j hj hjn
    induction j with
    | zero => exact absurd hj (Nat.not_lt_zero m)
    | succ j ih =>
      have hle := (hnext j (by omega) (by omega)).2 q (hq j (by omega) (by omega))
      have hneq : d (j + 1) ≠ q := by
        rcases Nat.lt_or_ge (j + 1) n with hlt | hge
        · exact hmiss _ (by omega) hlt
        · rw [show j + 1 = n by omega, hn]
          exact Ne.symm hqp
      have hlt : gap (d j) (d (j + 1)) < gap (d j) q :=
        Nat.lt_of_le_of_ne hle fun he => hneq (gap_inj he)
      rcases Nat.lt_or_ge m j with hmj | hmj
      · have hd : d j ≠ p := hne j hmj (by omega)
        have hbehind := ih hmj (by omega)
        exact gap_lt_of_between hlt (gap_lt_of_gap_lt hd hbehind hqp)
      · rw [show j = m by omega, hm] at hlt
        rw [show j = m by omega]
        exact hlt
  have hlast := key n hmn (Nat.le_refl n)
  rw [hn] at hlast
  exact absurd hlast (Nat.not_lt_of_gt (gap_lt_gap_self hqp))

/-- … and only once. -/
theorem visit_unique (hnext : ∀ j, m ≤ j → j < n → IsNext (S j) (d j) (d (j + 1)))
    (hp : ∀ j, m ≤ j → j < n → S j p) (hne : ∀ j, m < j → j < n → d j ≠ p) {i j : Nat}
    (hi : m < i) (hin : i < n) (hj : m < j) (hjn : j < n) (h : d i = d j) : i = j := by
  rcases Nat.lt_trichotomy i j with hlt | heq | hgt
  · exact absurd (h ▸ gap_strictMono hnext hp hne hi hlt (Nat.le_of_lt hjn)) (Nat.lt_irrefl _)
  · exact heq
  · exact absurd (h ▸ gap_strictMono hnext hp hne hj hgt (Nat.le_of_lt hin)) (Nat.lt_irrefl _)

end Rotation

end Infra
