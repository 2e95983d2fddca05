import SchedOS.Properties.Share
import Mathlib.Order.Interval.Finset.Nat

/-!
# How long a process waits under the share scheduler

While a process `q` waits, what is left of the turn in progress and one full turn for every
process ahead of `q` is all that can come before it (`credit`). Every dispatch uses up one unit
(`credit_step`); only `sys_set_share` gives the running process a new turn, since the handler
sets `p_num_times` to 0. So the wait is bounded by the number of such calls (`share_waiting`),
and by nothing else: a process that repeats the call keeps all others waiting
(`share_waiting_unbounded`).
-/

namespace SchedOS

open Infra

/-- All shares lie in the range from 0 to `S`. -/
def Machine.SharesIn (k : Machine) (S : Nat) : Prop :=
  ∀ i, 0 ≤ (k.procArray i).pShare.toInt ∧ (k.procArray i).pShare.toInt ≤ S

/-- The argument of a call of `sys_set_share` lies in that range. -/
def Trap.ShareIn (t : Trap) (S : Nat) : Prop :=
  t.reg.regIntno = intSysUser2 →
    0 ≤ t.reg.regEax.toInt32.toInt ∧ t.reg.regEax.toInt32.toInt ≤ S

/-- How many dispatches of others can come before `q` if no process calls `sys_set_share`. -/
def credit (S : Nat) (k : Machine) (p q : Pid) : Nat :=
  (S + 1 - (k.procArray p).pNumTimes.toInt.toNat) + ahead applications p q * (S + 1)

section Credit

variable {S : Nat} {k k' : Machine} {p q r : Pid} {cpu cpu' : Registers} {t : Trap}

theorem Machine.SharesIn.call (h : k.SharesIn S) (ht : t.ShareIn S) : (t.call k).SharesIn S := by
  intro i
  rw [Trap.call_pShare]
  split
  · next hi => exact ht hi.1
  · exact h i

theorem Machine.SharesIn.of_same (h : k.SharesIn S) (hs : k.SameUpToTimes k') :
    k'.SharesIn S := by
  intro i
  rw [hs.pShare i]
  exact h i

theorem Machine.SharesIn.ne_intMax (h : k.SharesIn S) (hS : S < 2147483647) (i : Pid) :
    (k.procArray i).pShare ≠ intMax := by
  intro he
  have hle := (h i).2
  rw [he, show intMax.toInt = 2147483647 from rfl] at hle
  omega

theorem credit_le (hp : p ≠ 0) (hq : q ≠ 0) (hne : p ≠ q) :
    credit S k p q ≤ (nprocs - 2) * (S + 1) := by
  have hahead := ahead_applications hp hq hne
  have hmul : ahead applications p q * (S + 1) ≤ 2 * (S + 1) := Nat.mul_le_mul_right _ (by omega)
  unfold credit
  show _ ≤ 3 * (S + 1)
  omega

/-- **One dispatch uses up one unit of credit**, unless the running process has just set its
share: that is worth at most a whole turn. -/
theorem credit_step (hr : Running 3 p k cpu) (hk : k.Counting p) (hin : k.SharesIn S)
    (hS : S < 2147483647) (ht : t.ShareIn S)
    (h : (Config.user p k cpu).trap t = .user r k' cpu') (hqp : p ≠ q) (hqr : r ≠ q)
    (hq : k'.Runnable q) :
    credit S k' r q + 1
      ≤ credit S k p q + if t.reg.regIntno = intSysUser2 then S + 1 else 0 := by
  have hcall := hk.call (t := t) hr.current
  have hinc := hin.call ht
  have htimes : ((t.call k).procArray p).pNumTimes
      = if t.reg.regIntno = intSysUser2 then 0 else (k.procArray p).pNumTimes := by
    rw [Trap.call_pNumTimes, hr.current]
    simp
  have hmax := hinc.ne_intMax hS p
  have hnonneg := hcall.nonneg hmax
  rcases trap_share hr hk.fresh h with ⟨hs, rfl, rfl⟩ | ⟨-, hnext, rfl⟩
  · -- the turn goes on
    have hle := Int32.le_iff_toInt_le.mp hs.2
    have hSle := (hinc r).2
    have hone : ((((t.call k).tick r).procArray r).pNumTimes).toInt
        = ((t.call k).procArray r).pNumTimes.toInt + 1 := by
      rw [Machine.tick_self, toInt_add_one]
      exact fun he => hmax (Int32.le_antisymm (le_intMax _) (he ▸ hs.2))
    unfold credit
    dsimp only
    rw [hone]
    split
    · next hu =>
      rw [htimes, if_pos hu] at hnonneg hle ⊢
      rw [Int32.toInt_zero]
      omega
    · next hu =>
      rw [htimes, if_neg hu] at hnonneg hle ⊢
      omega
  · -- a process ahead of `q` begins a turn
    have hsame := (sameUpToTimes_restart (t.call k) p).trans (sameUpToTimes_tick _ r)
    have hwq : (t.call k).Willing q :=
      ⟨(hsame.runnable_iff q).mp hq, zero_le_iff.mpr (hinc q).1⟩
    have hgap : gap p r < gap p q :=
      Nat.lt_of_le_of_ne (hnext.2 q hwq) fun he => hqr (gap_inj he)
    have hr0 : r ≠ 0 := hr.ne_zero_of_runnable (Trap.call_runnable.mp hnext.1.1).1
    have hahead := ahead_lt (mem_applications.mpr hr0) hgap
    have hone : ((((t.call k).restart p).tick r).procArray r).pNumTimes = 1 :=
      hcall.fresh.move_numTimes hnext.1
    have hmul : (ahead applications r q + 1) * (S + 1) ≤ ahead applications p q * (S + 1) :=
      Nat.mul_le_mul_right _ hahead
    unfold credit
    dsimp only
    rw [hone, show (1 : Int32).toInt.toNat = 1 from rfl]
    rw [Nat.add_mul] at hmul
    omega

end Credit

/-! ## Runs -/

/-- From `a` to `a + L`, processes other than `q` are dispatched although `q` is runnable. -/
def Waits (sys : Nat → Config) (q : Pid) (a L : Nat) : Prop :=
  ∀ i, i ≤ L → ∃ p k cpu, sys (a + i) = .user p k cpu ∧ p ≠ q ∧ k.Runnable q

section Runs

variable {ramimages : Fin 4 → Ramimage} {k₀ : Machine} {traps : Nat → Trap} {S : Nat}

/-- Every share passed to `sys_set_share` in the run lies in the range from 0 to `S`. -/
def SharesPassed (sys : Nat → Config) (traps : Nat → Trap) (S : Nat) : Prop :=
  ∀ j, (sys j).proc? ≠ none → (traps j).ShareIn S

theorem system_sharesIn (ht : SharesPassed (system ramimages 3 k₀ traps) traps S) :
    ∀ {n : Nat} {p : Pid} {k : Machine} {cpu : Registers},
      system ramimages 3 k₀ traps n = .user p k cpu → k.SharesIn S
  | 0, p, k, cpu, h => by
    obtain ⟨-, -, hb⟩ := start_user h
    intro i
    have hzero : (k.procArray i).pShare = 0 := hb.field Process.pShare rfl (fun _ _ => rfl) i
    rw [hzero, Int32.toInt_zero]
    omega
  | n + 1, p, k, cpu, h => by
    cases hn : system ramimages 3 k₀ traps n with
    | spinning k' =>
      rw [system_succ, hn] at h
      cases h
    | user p' k' cpu' =>
      have hlive : (system ramimages 3 k₀ traps n).proc? ≠ none := by
        rw [hn]
        exact Option.some_ne_none p'
      have hcall := (system_sharesIn ht hn).call (ht n hlive)
      rw [system_succ, hn] at h
      rcases trap_spec (traps n) p' k' cpu' with ⟨r, k₁, hc, -, hsame, -⟩ | ⟨k₁, hc, -⟩
      · rw [hc] at h
        cases h
        have hk := hcall.of_same hsame
        exact hk
      · rw [hc] at h
        cases h

/-- Along a wait, credit is used up by the dispatches and given back by `sys_set_share`. -/
theorem credit_run (ht : SharesPassed (system ramimages 3 k₀ traps) traps S)
    (hS : S < 2147483647) {a : Nat} {q p₀ : Pid} {k₁ : Machine} {cpu₁ : Registers}
    (ha : system ramimages 3 k₀ traps a = .user p₀ k₁ cpu₁) :
    ∀ L, Waits (system ramimages 3 k₀ traps) q a L →
      ∀ {p : Pid} {k : Machine} {cpu : Registers},
        system ramimages 3 k₀ traps (a + L) = .user p k cpu →
        credit S k p q + L ≤ credit S k₁ p₀ q
          + (S + 1) * Nat.count (fun i => (traps (a + i)).reg.regIntno = intSysUser2) L
  | 0, _, p, k, cpu, h => by
    rw [Nat.add_zero, ha] at h
    cases h
    rw [Nat.count_zero]
    omega
  | L + 1, hw, p, k, cpu, h => by
    obtain ⟨p', k', cpu', h', hp', -⟩ := hw L (Nat.le_succ L)
    obtain ⟨p'', k'', cpu'', h'', hp, hq⟩ := hw (L + 1) (Nat.le_refl _)
    rw [h] at h''
    cases h''
    have ih := credit_run ht hS ha L (fun i hi => hw i (Nat.le_succ_of_le hi)) h'
    have hlive : (system ramimages 3 k₀ traps (a + L)).proc? ≠ none := by
      rw [h']
      exact Option.some_ne_none p'
    have hstep : (Config.user p' k' cpu').trap (traps (a + L)) = .user p k cpu := by
      rw [← h', ← system_succ]
      exact h
    -- this dispatch costs one, and the call before it may have given back a turn
    have hcredit := credit_step (system_running h') (system_counting h') (system_sharesIn ht h') hS
      (ht _ hlive) hstep hp' hp hq
    rw [Nat.count_succ, Nat.mul_add]
    split at hcredit <;> rename_i hu
    · rw [if_pos hu]
      omega
    · rw [if_neg hu]
      omega

end Runs

/-- **Bounded waiting.** If all shares passed to `sys_set_share` lie in the range from 0 to `S`,
a runnable process is passed over by at most `(NPROCS - 2) * (S + 2)` consecutive dispatches of
others, and `S + 1` more for each call of `sys_set_share` in between. -/
theorem share_waiting {ramimages : Fin 4 → Ramimage} {k₀ : Machine} {traps : Nat → Trap} {S : Nat}
    (hS : S < 2147483647) (ht : SharesPassed (system ramimages 3 k₀ traps) traps S) {a L : Nat}
    {q : Pid} (hw : Waits (system ramimages 3 k₀ traps) q a L) :
    L + 1 ≤ (nprocs - 2) * (S + 2)
      + (S + 1) * Nat.count (fun i => (traps (a + i)).reg.regIntno = intSysUser2) L := by
  obtain ⟨p₀, k₁, cpu₁, ha, hp₀, hq⟩ := hw 0 (Nat.zero_le L)
  obtain ⟨p, k, cpu, hL, -, -⟩ := hw L (Nat.le_refl L)
  rw [Nat.add_zero] at ha
  have hr := system_running ha
  have hq0 : q ≠ 0 := hr.ne_zero_of_runnable hq
  have hrun := credit_run ht hS ha L hw hL
  have hcredit := credit_le (S := S) (k := k₁) hr.ne_zero hq0 hp₀
  show L + 1 ≤ 3 * (S + 2) + _
  have hcredit' : credit S k₁ p₀ q ≤ 3 * (S + 1) := hcredit
  omega

/-! ## A process that keeps setting its share -/

/-- The bare system when every interrupt is a call of `sys_set_share(0)`. -/
def setShares : Nat → Config := system bareImages 3 bareMachine fun _ => setShareTrap 0

/-- Process 1 runs for ever, although all others are runnable. -/
theorem setShares_spec : ∀ n, ∃ k cpu, setShares n = .user 1 k cpu ∧
    (∀ i, k.Runnable i ↔ i ≠ 0) ∧ ∀ i, (k.procArray i).pShare = 0
  | 0 => by
    obtain ⟨entry, ram, h₀⟩ := system_bare_zero 3 fun _ => setShareTrap 0
    refine ⟨_, _, h₀, fun i => bootTable_pState, fun i => ?_⟩
    show (bootTable entry i).pShare = 0
    unfold bootTable
    split <;> rfl
  | n + 1 => by
    obtain ⟨k, cpu, hk, hrun, hshare⟩ := setShares_spec n
    have hr := system_running hk
    have hshare' : ∀ i, (((setShareTrap 0).call k).procArray i).pShare = 0 := by
      intro i
      rw [Trap.call_pShare, hshare i]
      split <;> rfl
    have hs : ((setShareTrap 0).call k).HasShare 1 := by
      refine ⟨setShareTrap_runnable.mpr ((hrun 1).mpr (by decide)), ?_⟩
      rw [hshare', Trap.call_pNumTimes, hr.current, if_pos ⟨rfl, rfl⟩]
      decide
    have hsame := sameUpToTimes_tick ((setShareTrap 0).call k) 1
    have hstep : setShares (n + 1) = run 1 (((setShareTrap 0).call k).tick 1) := by
      rw [setShares, system_succ, ← setShares, hk]
      exact trap_of_schedule (by decide)
        (schedule_share_stay (hr.call_algorithm _) (hr.call_pPid _) hs (by decide))
    refine ⟨_, _, hstep, fun i => ?_, fun i => ?_⟩
    · exact ((hsame.runnable_iff i).trans setShareTrap_runnable).trans (hrun i)
    · exact (hsame.pShare i).trans (hshare' i)

theorem setShares_waits (L : Nat) : Waits setShares 2 0 L := by
  intro i _
  obtain ⟨k, cpu, hk, hrun, -⟩ := setShares_spec (0 + i)
  exact ⟨1, k, cpu, hk, by decide, (hrun 2).mpr (by decide)⟩

theorem setShares_passed : SharesPassed setShares (fun _ => setShareTrap 0) 0 := by
  intro j _ _
  have hzero : (setShareTrap 0).reg.regEax.toInt32.toInt = 0 := by decide
  rw [hzero]
  omega

/-- Seven dispatches of process 1 in a row, with six calls of `sys_set_share` among them. -/
theorem share_waiting_setShares :
    6 + 1 ≤ (nprocs - 2) * (0 + 2)
      + (0 + 1) * Nat.count (fun _ => (setShareTrap 0).reg.regIntno = intSysUser2) 6 :=
  share_waiting (by decide) setShares_passed (setShares_waits 6)

/-- Without the calls of `sys_set_share` being counted there is no bound: process 2 is passed
over seven times in a row, with all shares 0. -/
theorem share_waiting_unbounded :
    SharesPassed setShares (fun _ => setShareTrap 0) 0 ∧ Waits setShares 2 0 6 ∧
      ¬ 6 + 1 ≤ (nprocs - 2) * (0 + 2) :=
  ⟨setShares_passed, setShares_waits 6, by decide⟩

/-! ## A share of `INT_MAX` -/

/-- Process 1 sets its share to `INT_MAX`; after that there are only yields. -/
def hogTraps (n : Nat) : Trap := if n = 0 then setShareTrap 0x7FFFFFFF else yieldTrap

def hog : Nat → Config := system bareImages 3 bareMachine hogTraps

/-- No counter passes `INT_MAX`, so the turn of process 1 has no end. -/
theorem hog_spec : ∀ n, ∃ k cpu, hog n = .user 1 k cpu ∧ (∀ i, k.Runnable i ↔ i ≠ 0) ∧
    (n ≠ 0 → (k.procArray 1).pShare = intMax)
  | 0 => by
    obtain ⟨entry, ram, h₀⟩ := system_bare_zero 3 hogTraps
    exact ⟨_, _, h₀, fun i => bootTable_pState, fun hn => absurd rfl hn⟩
  | n + 1 => by
    obtain ⟨k, cpu, hk, hrun, hshare⟩ := hog_spec n
    have hr := system_running hk
    have hrun' : ∀ i, ((hogTraps n).call k).Runnable i ↔ k.Runnable i := by
      intro i
      unfold hogTraps
      split
      · exact setShareTrap_runnable
      · exact yieldTrap_runnable
    have hshare' : (((hogTraps n).call k).procArray 1).pShare = intMax := by
      rw [Trap.call_pShare, hr.current]
      unfold hogTraps
      split
      · exact if_pos ⟨rfl, rfl⟩
      · next hn => rw [if_neg fun he => absurd he.1 (by decide), hshare hn]
    have hs : ((hogTraps n).call k).HasShare 1 := by
      refine ⟨(hrun' 1).mpr ((hrun 1).mpr (by decide)), ?_⟩
      rw [hshare']
      exact le_intMax _
    have hserved : Served (hogTraps n).reg.regIntno ∧ 0 < (hogTraps n).fuel := by
      unfold hogTraps
      split
      · exact ⟨by decide, by decide⟩
      · exact ⟨by decide, by decide⟩
    have hsame := sameUpToTimes_tick ((hogTraps n).call k) 1
    have hstep : hog (n + 1) = run 1 (((hogTraps n).call k).tick 1) := by
      rw [hog, system_succ, ← hog, hk]
      exact trap_of_schedule hserved.1
        (schedule_share_stay (hr.call_algorithm _) (hr.call_pPid _) hs hserved.2)
    refine ⟨_, _, hstep, fun i => ?_, fun _ => ?_⟩
    · exact ((hsame.runnable_iff i).trans (hrun' i)).trans (hrun i)
    · exact (hsame.pShare 1).trans hshare'

/-- The bound needs `S` to be below `INT_MAX`: with that share, a single call keeps process 2
waiting for as long as one likes. -/
theorem hog_waits (L : Nat) : Waits hog 2 0 L := by
  intro i _
  obtain ⟨k, cpu, hk, hrun, -⟩ := hog_spec (0 + i)
  exact ⟨1, k, cpu, hk, by decide, (hrun 2).mpr (by decide)⟩

end SchedOS
