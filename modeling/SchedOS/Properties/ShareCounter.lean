import SchedOS.Properties.Share
import SchedOS.Properties.SysCalls

/-!
# The counter of the share scheduler

`p_num_times` is incremented before it is known whether the process has some of its share left,
and nothing takes a process off whose share is `INT_MAX`. So the counter of a process with a
share of `INT_MAX - 1` or `INT_MAX` comes to `INT_MAX`, and the next `p_num_times++` overflows.
Up to then all counters keep within the shares.

* `share_counter_iff` — the counters are in range exactly as long as none has come to its end
* `share_counter_overflows` — a process with a share of `INT_MAX` that only yields
-/

namespace SchedOS

open Infra

/-- The counters are between 0 and one more than the shares. -/
def Machine.CountsBounded (k : Machine) : Prop :=
  ∀ p, 0 ≤ (k.procArray p).pNumTimes.toInt ∧
    (k.procArray p).pNumTimes.toInt ≤ max 0 ((k.procArray p).pShare.toInt + 1)

/-- In a call of `schedule` in the state `k`, some pass through the loop increments a counter that
is `INT_MAX`. -/
def Machine.Overflows (k : Machine) : Prop :=
  ∃ passes k' pid, loop shareBody passes (k, (k.procArray k.current).pPid) = .again (k', pid) ∧
    k'.Runnable pid ∧ (k'.procArray pid).pNumTimes = intMax

/-- The interrupt `t` leads to such a call. -/
def Config.Overflows (t : Trap) : Config → Prop
  | .user _ k _ => Served t.reg.regIntno ∧ (t.call k).Overflows
  | .spinning _ => False

/-- A process whose counter is `INT_MAX` takes an interrupt and wants to go on, without having set
its share anew. -/
def Config.AtLimit (t : Trap) : Config → Prop
  | .user p k _ => Served t.reg.regIntno ∧ t.reg.regIntno ≠ intSysExit ∧
      t.reg.regIntno ≠ intSysUser2 ∧ (k.procArray p).pNumTimes = intMax
  | .spinning _ => False

/-! ## One interrupt -/

section Step

variable {k : Machine} {p : Pid} {cpu : Registers} {t : Trap}

theorem Machine.CountsBounded.call (h : k.CountsBounded) (t : Trap) :
    (t.call k).CountsBounded := by
  intro i
  rw [Trap.call_pShare, Trap.call_pNumTimes]
  split
  · exact ⟨Int.le_refl 0, Int.le_max_left ..⟩
  · exact h i

/-- What holds in front of every pass through the loop, as long as no counter has come to its
end. -/
structure Machine.InRange (k : Machine) : Prop where
  bounded : k.CountsBounded
  below : ∀ q, k.Runnable q → (k.procArray q).pNumTimes ≠ intMax

theorem Machine.InRange.tick (h : k.InRange) (hs : k.HasShare p) : (k.tick p).CountsBounded := by
  have hsame := sameUpToTimes_tick k p
  intro i
  rw [hsame.pShare i]
  by_cases hi : i = p
  · subst hi
    have hle := Int32.le_iff_toInt_le.mp hs.2
    have hbound := h.bounded i
    rw [Machine.tick_self, toInt_add_one (h.below i hs.1)]
    omega
  · rw [Machine.tick_of_ne hi]
    exact h.bounded i

theorem Machine.InRange.restart (h : k.InRange) : (k.restart p).InRange := by
  have hsame := sameUpToTimes_restart k p
  have hcount : ∀ i, ((k.restart p).procArray i).pNumTimes = (k.procArray i).pNumTimes ∨
      ((k.restart p).procArray i).pNumTimes = 0 := by
    intro i
    unfold Machine.restart
    split
    · by_cases hi : i = p
      · subst hi
        exact Or.inr (by rw [Machine.setProc_self])
      · exact Or.inl (by rw [Machine.setProc_of_ne _ _ _ hi])
    · exact Or.inl rfl
  constructor
  · intro i
    rw [hsame.pShare i]
    rcases hcount i with hi | hi
    · rw [hi]
      exact h.bounded i
    · rw [hi]
      exact ⟨Int.le_refl 0, Int.le_max_left ..⟩
  · intro i hrun
    rcases hcount i with hi | hi
    · rw [hi]
      exact h.below i ((hsame.runnable_iff i).mp hrun)
    · rw [hi]
      decide

/-- One pass through the loop. -/
theorem Machine.InRange.shareBody (h : k.InRange) (pid : Pid) :
    (SchedOS.shareBody (k, pid)).Sees (fun s => s.1.InRange)
      fun c => c.machine.CountsBounded := by
  by_cases hs : k.HasShare pid
  · rw [shareBody_run hs]
    exact h.tick hs
  · rw [shareBody_reset hs]
    exact h.restart

/-- **The loop keeps the counters in range**, and increments none that has come to its end. -/
theorem Machine.InRange.loop (h : k.InRange) (passes : Nat) (pid : Pid) :
    (Infra.loop SchedOS.shareBody passes (k, pid)).Sees (fun s => s.1.InRange)
      fun c => c.machine.CountsBounded :=
  loop_rule (I := fun s : Machine × Pid => s.1.InRange) (fun s hs => hs.shareBody s.2) passes
    (k, pid) h

theorem Machine.InRange.not_overflows (h : k.InRange) : ¬ k.Overflows := by
  rintro ⟨passes, k', pid, hl, hrun, hmax⟩
  have hsees := h.loop passes (k.procArray k.current).pPid
  rw [hl] at hsees
  exact hsees.below pid hrun hmax

theorem Machine.InRange.schedule (h : k.InRange) (halg : k.schedulingAlgorithm = 3) {fuel : Nat}
    {tsc : Nat → UInt64} {c : Config} (hs : SchedOS.schedule fuel tsc k = .error c) :
    c.machine.CountsBounded := by
  have hsees := h.loop fuel (k.procArray k.current).pPid
  rw [schedule_share halg] at hs
  rcases whileLoop_cases hs with hl | ⟨s', hl, rfl⟩
  · rw [hl] at hsees
    exact hsees
  · rw [hl] at hsees
    exact hsees.bounded

variable (hr : Running 3 p k cpu)
include hr

/-- The counter that `schedule` finds. -/
theorem call_atLimit_iff (t : Trap) : (Config.user p k cpu).AtLimit t ↔
    Served t.reg.regIntno ∧ (t.call k).Runnable p ∧
      ((t.call k).procArray p).pNumTimes = intMax := by
  have hzero : (0 : Int32) ≠ intMax := by decide
  rw [Config.AtLimit, Trap.call_runnable, Trap.call_pNumTimes, hr.current]
  simp only [and_true, hr.runnable, true_and]
  by_cases hshare : t.reg.regIntno = intSysUser2
  · rw [if_pos hshare]
    exact iff_of_false (fun h => h.2.2.1 hshare) fun h => hzero h.2.2
  · rw [if_neg hshare]
    exact ⟨fun h => ⟨h.1, h.2.1, h.2.2.2⟩, fun h => ⟨h.1, h.2.1, hshare, h.2.2⟩⟩

/-- At the limit the very first pass overflows. -/
theorem overflows_of_atLimit (h : (Config.user p k cpu).AtLimit t) :
    (Config.user p k cpu).Overflows t := by
  obtain ⟨hserved, hrun, hmax⟩ := (call_atLimit_iff hr t).mp h
  exact ⟨hserved, 0, t.call k, p, by rw [hr.call_pPid t]; rfl, hrun, hmax⟩

/-- Before the limit, only the counter of the process that is interrupted is not 0. -/
theorem inRange_call (hb : k.CountsBounded) (hk : k.Counting p) (hserved : Served t.reg.regIntno)
    (h : ¬ (Config.user p k cpu).AtLimit t) : (t.call k).InRange := by
  refine ⟨hb.call t, fun q hrun hmax => ?_⟩
  by_cases hq : q = p
  · subst hq
    exact h ((call_atLimit_iff hr t).mpr ⟨hserved, hrun, hmax⟩)
  · rw [(hk.call hr.current).fresh q hq hrun] at hmax
    exact absurd hmax (by decide)

/-- **One step.** -/
theorem countsBounded_trap (hb : k.CountsBounded) (hk : k.Counting p)
    (h : ¬ (Config.user p k cpu).AtLimit t) :
    ((Config.user p k cpu).trap t).machine.CountsBounded ∧
      ¬ (Config.user p k cpu).Overflows t := by
  by_cases hserved : Served t.reg.regIntno
  · have hin := inRange_call hr hb hk hserved h
    obtain ⟨c, hc⟩ := schedule_error t.fuel t.tsc (t.call k)
    refine ⟨?_, fun ho => hin.not_overflows ho.2⟩
    rw [trap_of_schedule hserved hc]
    exact hin.schedule (hr.call_algorithm t) hc
  · rw [trap_of_not_served hserved]
    exact ⟨hb.call t, fun ho => hserved ho.1⟩

end Step

/-! ## Runs -/

section Runs

variable {ramimages : Fin 4 → Ramimage} {k₀ : Machine} {traps : Nat → Trap}

theorem keptByStart_pNumTimes : KeptByStart fun proc => proc.pNumTimes = 0 where
  zero _ := rfl
  registers _ _ h := h
  runnable _ _ _ := rfl

theorem start_countsBounded (alg : Int32) : (start ramimages alg k₀).machine.CountsBounded := by
  intro p
  rw [keptByStart_pNumTimes.start alg k₀ p]
  exact ⟨Int.le_refl 0, Int.le_max_left ..⟩

/-- The counters are in range as long as no process has been at the limit. -/
theorem system_countsBounded : ∀ {n : Nat},
    (∀ j, j < n → ¬ (system ramimages 3 k₀ traps j).AtLimit (traps j)) →
    (system ramimages 3 k₀ traps n).machine.CountsBounded
  | 0, _ => start_countsBounded 3
  | n + 1, h => by
    have ih := system_countsBounded fun j hj => h j (Nat.lt_succ_of_lt hj)
    have hn := h n (Nat.lt_succ_self n)
    rw [system_succ]
    cases hc : system ramimages 3 k₀ traps n with
    | spinning k =>
      rw [hc] at ih
      exact ih
    | user p k cpu =>
      rw [hc] at ih hn
      exact (countsBounded_trap (system_running hc) ih (system_counting hc) hn).1

theorem lastCall_eq_some {sys : Nat → Config} {p : Pid} {intno v : UInt32} :
    ∀ {n : Nat}, lastCall sys traps p intno n = some v →
      ∃ m, m < n ∧ (traps m).reg.regIntno = intno ∧ v = (traps m).reg.regEax
  | 0, h => by cases h
  | n + 1, h => by
    rw [lastCall] at h
    split at h
    · next hcall => exact ⟨n, Nat.lt_succ_self n, hcall.2, (Option.some.inj h).symm⟩
    · obtain ⟨m, hm, hcall⟩ := lastCall_eq_some h
      exact ⟨m, Nat.lt_succ_of_lt hm, hcall⟩

/-- A share that has been set, or none. -/
theorem system_pShare_lt {bound : Int32} (hzero : 0 < bound) {n : Nat}
    (hshares : ∀ m, m < n → (traps m).reg.regIntno = intSysUser2 →
      (traps m).reg.regEax.toInt32 < bound) (p : Pid) :
    ((system ramimages 3 k₀ traps n).machine.procArray p).pShare < bound := by
  rw [setBy_pShare.runs (start_untouched ramimages 3 k₀ p).pShare n]
  cases hlast : lastCall (system ramimages 3 k₀ traps) traps p intSysUser2 n with
  | none => exact hzero
  | some v =>
    obtain ⟨m, hm, hint, rfl⟩ := lastCall_eq_some hlast
    exact hshares m hm hint

theorem intMax_toInt : intMax.toInt = 2147483647 := by decide

theorem intMax_pred_toInt : (intMax - 1).toInt = 2147483646 := by decide

/-- Only shares of `INT_MAX - 1` and `INT_MAX` let a counter come to its end. -/
theorem not_atLimit_of_shares {N : Nat} (hshares : ∀ m, m < N →
      (traps m).reg.regIntno = intSysUser2 → (traps m).reg.regEax.toInt32 < intMax - 1) :
    ∀ n, n < N → ¬ (system ramimages 3 k₀ traps n).AtLimit (traps n) := by
  intro n
  induction n using Nat.strong_induction_on with
  | _ n ih =>
    intro hn hlimit
    have hbounded := system_countsBounded fun j hj => ih j hj (Nat.lt_trans hj hn)
    cases hc : system ramimages 3 k₀ traps n with
    | spinning k =>
      rw [hc] at hlimit
      exact hlimit
    | user p k cpu =>
      have hshare : ((system ramimages 3 k₀ traps n).machine.procArray p).pShare < intMax - 1 :=
        system_pShare_lt (by decide) (fun m hm => hshares m (Nat.lt_trans hm hn)) p
      rw [hc] at hlimit hbounded hshare
      have hle : (k.procArray p).pNumTimes.toInt ≤ max 0 ((k.procArray p).pShare.toInt + 1) :=
        (hbounded p).2
      have hlt : (k.procArray p).pShare.toInt < (intMax - 1).toInt :=
        Int32.lt_iff_toInt_lt.mp hshare
      rw [hlimit.2.2.2, intMax_toInt] at hle
      rw [intMax_pred_toInt] at hlt
      omega

end Runs

/-- **The counter of the share scheduler does not overflow** exactly as long as no process whose
counter is `INT_MAX` is interrupted and goes on. It does not come to that if no share is
`INT_MAX - 1` or `INT_MAX`. -/
theorem share_counter_iff (ramimages : Fin 4 → Ramimage) (k₀ : Machine) (traps : Nat → Trap)
    (N : Nat) :
    ((∀ n, n ≤ N → (system ramimages 3 k₀ traps n).machine.CountsBounded) ∧
        (∀ n, n < N → ¬ (system ramimages 3 k₀ traps n).Overflows (traps n)) ↔
      ∀ n, n < N → ¬ (system ramimages 3 k₀ traps n).AtLimit (traps n)) ∧
    ((∀ n, n < N → (traps n).reg.regIntno = intSysUser2 →
        (traps n).reg.regEax.toInt32 < intMax - 1) →
      ∀ n, n < N → ¬ (system ramimages 3 k₀ traps n).AtLimit (traps n)) := by
  refine ⟨⟨fun h n hn hlimit => h.2 n hn ?_, fun h => ⟨fun n hn => ?_, fun n hn hover => ?_⟩⟩,
    not_atLimit_of_shares⟩
  · cases hc : system ramimages 3 k₀ traps n with
    | spinning k =>
      rw [hc] at hlimit
      exact hlimit
    | user p k cpu =>
      rw [hc] at hlimit
      exact overflows_of_atLimit (system_running hc) hlimit
  · exact system_countsBounded fun j hj => h j (Nat.lt_of_lt_of_le hj hn)
  · have hbounded := system_countsBounded fun j hj => h j (Nat.lt_trans hj hn)
    have hn := h n hn
    cases hc : system ramimages 3 k₀ traps n with
    | spinning k =>
      rw [hc] at hover
      exact hover
    | user p k cpu =>
      rw [hc] at hover hn hbounded
      exact (countsBounded_trap (system_running hc) hbounded (system_counting hc) hn).2 hover

/-! ## A share that is too large -/

/-- The bare system when process 1 sets its share and then only yields. -/
def sharing (share : UInt32) : Nat → Config :=
  system bareImages 3 bareMachine fun n => if n = 0 then setShareTrap share else yieldTrap

section Sharing

variable {share : UInt32} {k : Machine} {cpu : Registers} {t : Trap}

/-- Process 1 goes on, and its counter goes up. -/
theorem trap_stays (hr : Running 3 1 k cpu) (hserved : Served t.reg.regIntno)
    (hfuel : 0 < t.fuel) (hs : (t.call k).HasShare 1) :
    (Config.user 1 k cpu).trap t = run 1 ((t.call k).tick 1) :=
  trap_of_schedule hserved (schedule_share_stay (hr.call_algorithm t) (hr.call_pPid t) hs hfuel)

theorem yieldTrap_pNumTimes (k : Machine) (i : Pid) :
    ((yieldTrap.call k).procArray i).pNumTimes = (k.procArray i).pNumTimes := by
  rw [Trap.call_pNumTimes, if_neg fun h => absurd h.1 (by decide)]

theorem yieldTrap_pShare (k : Machine) (i : Pid) :
    ((yieldTrap.call k).procArray i).pShare = (k.procArray i).pShare := by
  rw [Trap.call_pShare, if_neg fun h => absurd h.1 (by decide)]

/-- Process 1 runs, with this counter and its share set. -/
structure Machine.Counts (k : Machine) (share : UInt32) (count : Int) : Prop where
  pNumTimes : (k.procArray 1).pNumTimes.toInt = count
  pShare : (k.procArray 1).pShare = share.toInt32

/-- What is left of a share after some dispatches. -/
theorem Machine.Counts.hasShare {count : Int} (h : k.Counts share count)
    (hrun : k.Runnable 1) (hle : count ≤ share.toInt32.toInt) : k.HasShare 1 := by
  refine ⟨hrun, Int32.le_iff_toInt_le.mpr ?_⟩
  rw [h.pNumTimes, h.pShare]
  exact hle

theorem Machine.Counts.tick {count : Int} (h : k.Counts share count) (hlt : count < 2147483647) :
    (k.tick 1).Counts share (count + 1) := by
  refine ⟨?_, ((sameUpToTimes_tick k 1).pShare 1).trans h.pShare⟩
  rw [Machine.tick_self, toInt_add_one, h.pNumTimes]
  intro hmax
  have hcount := h.pNumTimes
  rw [hmax, intMax_toInt] at hcount
  omega

theorem sharing_succ (n : Nat) : sharing share (n + 1)
    = (sharing share n).trap (if n = 0 then setShareTrap share else yieldTrap) :=
  system_succ ..

/-- One dispatch more. -/
theorem sharing_step {n : Nat} {count : Int} (h : sharing share n = .user 1 k cpu)
    (ht : (if n = 0 then setShareTrap share else yieldTrap) = t) (hserved : Served t.reg.regIntno)
    (hfuel : 0 < t.fuel) (hrun : (t.call k).Runnable 1) (hk : (t.call k).Counts share count)
    (hle : count ≤ share.toInt32.toInt) (hlt : count < 2147483647) :
    ∃ k' cpu', sharing share (n + 1) = .user 1 k' cpu' ∧ k'.Counts share (count + 1) := by
  have hstep := trap_stays (system_running h) hserved hfuel (hk.hasShare hrun hle)
  have hnext := hk.tick hlt
  rw [← h] at hstep
  subst ht
  rw [← sharing_succ] at hstep
  exact ⟨_, _, hstep, hnext.pNumTimes, hnext.pShare⟩

/-- After `n` yields the counter is `n + 1`, if the share reaches so far. -/
theorem sharing_counts (n : Nat) : (n : Int) ≤ share.toInt32.toInt → (n : Int) < 2147483647 →
    ∃ k cpu, sharing share (n + 1) = .user 1 k cpu ∧ k.Counts share (n + 1) := by
  induction n with
  | zero =>
    intro hle hlt
    obtain ⟨entry, ram, h⟩ := system_bare_zero 3
      fun n => if n = 0 then setShareTrap share else yieldTrap
    refine sharing_step h (if_pos rfl) (show Served intSysUser2 by decide) (Nat.succ_pos nprocs)
      (setShareTrap_runnable.mpr (system_running h).runnable) ⟨?_, ?_⟩ hle hlt
    · rw [Trap.call_pNumTimes, if_pos ⟨rfl, rfl⟩]
      rfl
    · rw [Trap.call_pShare, if_pos ⟨rfl, rfl⟩]
      rfl
  | succ n ih =>
    intro hle hlt
    obtain ⟨k, cpu, h, hk⟩ := ih (by omega) (by omega)
    refine sharing_step h (if_neg (Nat.succ_ne_zero n)) (by decide) (by decide)
      (yieldTrap_runnable.mpr (system_running h).runnable) ⟨?_, ?_⟩ hle hlt
    · rw [yieldTrap_pNumTimes, hk.pNumTimes, Nat.cast_succ]
    · rw [yieldTrap_pShare, hk.pShare]

/-- **The counter comes to its end**, after `2 ^ 31 - 1` dispatches. -/
theorem sharing_overflows (hshare : intMax - 1 ≤ share.toInt32) {n : Nat}
    (hn : n = 2 ^ 31 - 1) : (sharing share n).Overflows yieldTrap := by
  obtain ⟨n, rfl⟩ := Nat.exists_eq_succ_of_ne_zero (show n ≠ 0 by omega)
  have hle := Int32.le_iff_toInt_le.mp hshare
  rw [intMax_pred_toInt] at hle
  obtain ⟨k, cpu, h, hk⟩ := @sharing_counts share n (by omega) (by omega)
  have hmax : (k.procArray 1).pNumTimes = intMax :=
    Int32.toInt_inj.mp (hk.pNumTimes.trans (by rw [intMax_toInt]; omega))
  rw [h]
  exact overflows_of_atLimit (system_running h) ⟨by decide, by decide, by decide, hmax⟩

end Sharing

attribute [irreducible] sharing

/-- A process with the share `INT_MAX`, and one with the share `INT_MAX - 1`. -/
theorem share_counter_overflows : (sharing 0x7FFFFFFF (2 ^ 31 - 1)).Overflows yieldTrap ∧
    (sharing 0x7FFFFFFE (2 ^ 31 - 1)).Overflows yieldTrap :=
  ⟨sharing_overflows (by decide) rfl, sharing_overflows (by decide) rfl⟩

end SchedOS
