import Mathlib.Tactic

/-!
# A log behind a lock

Threads append to a common log. A thread takes the lock, reads the cursor, writes the slot it
has read, stores that slot's successor in the cursor and releases the lock. Each of these is a
step of its own, and the other threads may take steps in between. What a slot is does not
matter: `succ` is any function, and nothing is known of the slots but where they start.

* `LockedLog.Step.inv` — every step of every thread keeps `LockedLog.Inv`
* `Inv.exclusive`, `Inv.slots`, `Inv.total` — one thread at a time, the slots in order without
  gaps, and an entry for every append
-/

namespace Infra

universe u v

/-- How far a thread has got with its append. -/
inductive Phase (α : Type v) where
  | outside
  /-- The thread has the lock and has not read the cursor. -/
  | entered
  | read (slot : α)
  /-- The slot is written, the cursor still points to it. -/
  | written (slot : α)
  | advanced
  deriving DecidableEq

/-- The shared log, with a record of what has been done to it. -/
structure LockedLog (τ : Type u) (α : Type v) where
  locked : Bool
  cursor : α
  phase : τ → Phase α
  /-- Who has written which slot, in order. -/
  log : List (τ × α)
  /-- The appends that each thread has finished. -/
  completed : τ → Nat

/-- The entries of a thread's own append that are written, but not counted as finished. -/
def Phase.uncounted {α : Type v} : Phase α → Nat
  | .written _ => 1
  | .advanced => 1
  | _ => 0

namespace LockedLog

variable {τ : Type u} {α : Type v} [DecidableEq τ]

/-- One step of the thread `p`. An attempt to take a lock that is taken is an `idle` step, and
so is all that the thread does besides. -/
inductive Step (succ : α → α) (s : LockedLog τ α) (p : τ) : LockedLog τ α → Prop where
  | idle : Step succ s p s
  | acquire (h : s.phase p = .outside) (hfree : s.locked = false) :
    Step succ s p { s with locked := true, phase := Function.update s.phase p .entered }
  | read (h : s.phase p = .entered) :
    Step succ s p { s with phase := Function.update s.phase p (.read s.cursor) }
  | write {slot : α} (h : s.phase p = .read slot) :
    Step succ s p { s with
      phase := Function.update s.phase p (.written slot), log := s.log ++ [(p, slot)] }
  | advance {slot : α} (h : s.phase p = .written slot) :
    Step succ s p { s with
      phase := Function.update s.phase p .advanced, cursor := succ slot }
  | release (h : s.phase p = .advanced) :
    Step succ s p { s with
      locked := false, phase := Function.update s.phase p .outside
      completed := Function.update s.completed p (s.completed p + 1) }

/-- The cursor points to the first slot that is not written, except between the two stores. -/
def CursorAt (succ : α → α) (start : α) (s : LockedLog τ α) : Phase α → Prop
  | .read slot => s.cursor = slot ∧ slot = succ^[s.log.length] start
  | .written slot => s.cursor = slot ∧ succ slot = succ^[s.log.length] start
  | _ => s.cursor = succ^[s.log.length] start

/-- The invariant. -/
structure Inv (succ : α → α) (start : α) (s : LockedLog τ α) : Prop where
  locked_iff : s.locked = true ↔ ∃ p, s.phase p ≠ .outside
  exclusive : ∀ p q, s.phase p ≠ .outside → s.phase q ≠ .outside → p = q
  holder : ∀ p, s.phase p ≠ .outside → s.CursorAt succ start (s.phase p)
  free : s.locked = false → s.cursor = succ^[s.log.length] start
  slots : s.log.map Prod.snd = (List.range s.log.length).map fun k => succ^[k] start
  counts : ∀ p, s.log.countP (fun e => e.1 = p) = s.completed p + (s.phase p).uncounted

variable {succ : α → α} {start : α} {s s' : LockedLog τ α} {p q : τ}

theorem Inv.outside_of_free (h : s.Inv succ start) (hfree : s.locked = false) (q : τ) :
    s.phase q = .outside := by
  by_contra hq
  have hlocked := h.locked_iff.mpr ⟨q, hq⟩
  simp [hfree] at hlocked

theorem Inv.outside_of_ne (h : s.Inv succ start) (hp : s.phase p ≠ .outside) (hq : q ≠ p) :
    s.phase q = .outside := by
  by_contra hne
  exact hq (h.exclusive q p hne hp)

/-- The log before anybody has done anything. -/
theorem Inv.init (hlocked : s.locked = false) (hcursor : s.cursor = start)
    (hphase : ∀ p, s.phase p = .outside) (hlog : s.log = []) (hcompleted : ∀ p, s.completed p = 0) :
    s.Inv succ start := by
  constructor
  · simp [hlocked, hphase]
  · simp [hphase]
  · simp [hphase]
  · simp [hcursor, hlog]
  · simp [hlog]
  · simp [hlog, hphase, hcompleted, Phase.uncounted]

/-- Where only one thread can be inside, the invariant is about that thread. -/
theorem Inv.of_single (hothers : ∀ q, q ≠ p → s.phase q = .outside)
    (hlocked : s.locked = true ↔ s.phase p ≠ .outside)
    (hcursor : s.CursorAt succ start (s.phase p))
    (hslots : s.log.map Prod.snd = (List.range s.log.length).map fun k => succ^[k] start)
    (hcounts : ∀ q, s.log.countP (fun e => e.1 = q) = s.completed q + (s.phase q).uncounted) :
    s.Inv succ start := by
  have honly : ∀ q, s.phase q ≠ .outside → q = p := by
    intro q hq
    by_contra hne
    exact hq (hothers q hne)
  constructor
  · constructor
    · intro h
      exact ⟨p, hlocked.mp h⟩
    · rintro ⟨q, hq⟩
      rw [honly q hq] at hq
      exact hlocked.mpr hq
  · intro a b ha hb
    rw [honly a ha, honly b hb]
  · intro q hq
    rw [honly q hq]
    exact hcursor
  · intro hfree
    have hp : s.phase p = .outside := by
      by_contra hne
      simp [hlocked.mpr hne] at hfree
    rw [hp] at hcursor
    exact hcursor
  · exact hslots
  · exact hcounts

omit [DecidableEq τ] in
/-- The new slot stands behind those that are there. -/
theorem slots_append {log : List (τ × α)} {slot : α}
    (h : log.map Prod.snd = (List.range log.length).map fun k => succ^[k] start)
    (hslot : slot = succ^[log.length] start) :
    (log ++ [(p, slot)]).map Prod.snd
      = (List.range (log ++ [(p, slot)]).length).map fun k => succ^[k] start := by
  rw [List.map_append, h, List.length_append, List.length_singleton, List.range_succ,
    List.map_append, hslot]
  rfl

/-- The counts of the threads that do not move stay right, and so does that of `p` if its own
balance is kept. -/
theorem counts_update {log : List (τ × α)} {completed completed' : τ → Nat}
    {phase : τ → Phase α} {x : Phase α} {n : Nat}
    (h : ∀ q, log.countP (fun e => e.1 = q) = completed q + (phase q).uncounted)
    (hne : ∀ q, q ≠ p → completed' q = completed q)
    (hp : completed p + (phase p).uncounted + n = completed' p + x.uncounted) (q : τ) :
    log.countP (fun e => e.1 = q) + (if p = q then n else 0)
      = completed' q + (Function.update phase p x q).uncounted := by
  by_cases hq : q = p
  · subst hq
    simp only [h q, if_true, Function.update_self]
    exact hp
  · rw [if_neg (Ne.symm hq), Function.update_of_ne hq, h q, hne q hq, Nat.add_zero]

/-- **Every step keeps the invariant.** -/
theorem Step.inv (hstep : Step succ s p s') (h : s.Inv succ start) : s'.Inv succ start := by
  have hupdate : ∀ (x : Phase α) (q : τ), q ≠ p → s.phase q = .outside →
      Function.update s.phase p x q = .outside := by
    intro x q hq hout
    rw [Function.update_of_ne hq, hout]
  -- before every step but `idle`, nobody but `p` can be inside
  cases hstep with
  | idle => exact h
  | acquire hp hfree =>
    refine .of_single (p := p) (fun q hq => ?_) ?_ ?_ h.slots fun q => ?_
    · exact hupdate _ q hq (h.outside_of_free hfree q)
    · simp
    · simpa [CursorAt] using h.free hfree
    · simpa using counts_update (n := 0) h.counts (fun _ _ => rfl)
        (by simp [hp, Phase.uncounted]) q
  | read hp =>
    have hin : s.phase p ≠ .outside := by simp [hp]
    have hcursor := h.holder p hin
    refine .of_single (p := p) (fun q hq => ?_) ?_ ?_ h.slots fun q => ?_
    · exact hupdate _ q hq (h.outside_of_ne hin hq)
    · simpa using h.locked_iff.mpr ⟨p, hin⟩
    · rw [hp] at hcursor
      simpa [CursorAt] using hcursor
    · simpa using counts_update (n := 0) h.counts (fun _ _ => rfl)
        (by simp [hp, Phase.uncounted]) q
  | write hp =>
    have hin : s.phase p ≠ .outside := by simp [hp]
    have hcursor := h.holder p hin
    rw [hp] at hcursor
    obtain ⟨hread, hslot⟩ := hcursor
    refine .of_single (p := p) (fun q hq => ?_) ?_ ?_ (slots_append h.slots hslot) fun q => ?_
    · exact hupdate _ q hq (h.outside_of_ne hin hq)
    · simpa using h.locked_iff.mpr ⟨p, hin⟩
    · -- the cursor still points to the slot just written, which is now the last one of the log
      simpa [CursorAt, Function.iterate_succ_apply', hread] using congrArg succ hslot
    · simpa [List.countP_append, List.countP_cons] using counts_update (n := 1) h.counts
        (fun _ _ => rfl) (by simp [hp, Phase.uncounted]) q
  | advance hp =>
    have hin : s.phase p ≠ .outside := by simp [hp]
    have hcursor := h.holder p hin
    rw [hp] at hcursor
    refine .of_single (p := p) (fun q hq => ?_) ?_ ?_ h.slots fun q => ?_
    · exact hupdate _ q hq (h.outside_of_ne hin hq)
    · simpa using h.locked_iff.mpr ⟨p, hin⟩
    · simpa [CursorAt] using hcursor.2
    · simpa using counts_update (n := 0) h.counts (fun _ _ => rfl)
        (by simp [hp, Phase.uncounted]) q
  | release hp =>
    have hin : s.phase p ≠ .outside := by simp [hp]
    have hcursor := h.holder p hin
    rw [hp] at hcursor
    refine .of_single (p := p) (fun q hq => ?_) ?_ ?_ h.slots fun q => ?_
    · exact hupdate _ q hq (h.outside_of_ne hin hq)
    · simp
    · simpa [CursorAt] using hcursor
    · simpa using counts_update (n := 0) h.counts (fun q hq => Function.update_of_ne hq ..)
        (by simp [hp, Phase.uncounted]) q

/-- A thread that is outside waits as long as the lock is taken. -/
theorem Step.eq_of_locked (hstep : Step succ s p s') (hlocked : s.locked = true)
    (hout : s.phase p = .outside) : s' = s := by
  cases hstep with
  | idle => rfl
  | acquire _ hfree => simp [hlocked] at hfree
  | read hp => simp [hout] at hp
  | write hp => simp [hout] at hp
  | advance hp => simp [hout] at hp
  | release hp => simp [hout] at hp

/-! ## Totals -/

theorem length_eq_sum_countP [Fintype τ] : ∀ log : List (τ × α),
    log.length = ∑ p, log.countP (fun e => e.1 = p)
  | [] => by simp
  | e :: log => by
    rw [List.length_cons, length_eq_sum_countP log]
    simp only [List.countP_cons, Finset.sum_add_distrib, decide_eq_true_eq, Finset.sum_ite_eq,
      Finset.mem_univ, if_true]

/-- While nobody is inside, every entry belongs to a finished append. -/
theorem Inv.total [Fintype τ] (h : s.Inv succ start) (hout : ∀ p, s.phase p = .outside) :
    s.log.length = ∑ p, s.completed p := by
  rw [length_eq_sum_countP]
  refine Finset.sum_congr rfl fun p _ => ?_
  rw [h.counts p, hout p]
  rfl

end LockedLog

end Infra
