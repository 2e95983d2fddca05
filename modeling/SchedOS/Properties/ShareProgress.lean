import SchedOS.Properties.Progress
import SchedOS.Properties.Waiting

/-!
# The applications come to an end under the share scheduler

Under algorithm 3 the processor does not go round among the candidates: a process keeps it for a
whole turn. But every dispatch uses up some of the credit that the others have before a process
that waits (`credit_step`), and in a run without progress nobody sets a share, so that none is
given back.

* `shared_run_ends` — the run ends if the clock keeps ticking and no share is negative, or as large
  as an `int` can be
-/

namespace SchedOS

open Infra Filter

variable {apps : Apps} {t : Tick} {p q r : Pid} {k k' : Machine} {cpu cpu' : Registers} {e : Exec}
  {w w' : World} {pc : Pc} {S : Nat}

/-! ## Counters and shares -/

/-- What holds of the counters and of the shares while a process runs. -/
def World.Sharing (S : Nat) (w : World) : Prop :=
  ∀ p k cpu, w.config = .user p k cpu → k.Counting p ∧ k.SharesIn S

/-- The shares that the applications pass to `sys_set_share`. -/
def Apps.SharesIn (apps : Apps) (S : Nat) : Prop :=
  ∀ p, 0 ≤ (apps.program p).share.toInt ∧ (apps.program p).share.toInt ≤ S

theorem exec_share {program : Program} {runcount : Nat} {ram : Mem}
    (h : (program.exec runcount cpu ram pc).int = some intSysUser2) :
    (program.exec runcount cpu ram pc).cpu.regEax.toInt32 = program.share := by
  cases pc
  case sysSetShare => rfl
  all_goals simp [Program.exec, intSysUser1, intSysUser2, intSysSetLottery, intSysYield,
    intSysExit] at h

theorem shareIn_resume (hshare : e.int = some intSysUser2 →
      0 ≤ e.cpu.regEax.toInt32.toInt ∧ e.cpu.regEax.toInt32.toInt ≤ S)
    {intno : UInt32} (hint : e.int = some intno) :
    Trap.ShareIn ⟨apps.resume p e, e.ram, t.tsc, t.fuel⟩ S := by
  intro huser
  refine hshare ?_
  rw [hint, ← huser]
  simp [Apps.resume, hint]

theorem finish_sharing (hr : Running 3 p k (k.procArray p).pRegisters)
    (hw : w.config = .user p k cpu) (h : k.Counting p ∧ k.SharesIn S)
    (hshare : e.int = some intSysUser2 →
      0 ≤ e.cpu.regEax.toInt32.toInt ∧ e.cpu.regEax.toInt32.toInt ≤ S) :
    (w.finish apps t p k e).Sharing S := by
  intro q k' cpu' hq
  cases hint : e.int with
  | none =>
    rw [finish_of_none hint] at hq
    cases hq
    exact ⟨⟨h.1.fresh, h.1.nonneg, h.1.le⟩, h.2⟩
  | some intno =>
    rw [finish_config hint hw] at hq
    refine ⟨counting_trap hr h.1 hq, ?_⟩
    rcases trap_spec _ p k cpu with ⟨r, k₁, hc, -, hsame, -⟩ | ⟨k₁, hc, -⟩
    · rw [hc] at hq
      cases hq
      have hin := (h.2.call (shareIn_resume hshare hint)).of_same hsame
      exact hin
    · rw [hc] at hq
      cases hq

theorem World.Steps.sharing (hstep : World.Steps apps 3 t w w') (hshares : apps.SharesIn S)
    (h : w.Sharing S) : w'.Sharing S := by
  cases hstep with
  | spinning _ => exact h
  | clock _ hw hr _ _ =>
    refine finish_sharing hr hw (h _ _ _ hw) fun he => ?_
    have hint : some intClock ≠ some intSysUser2 := by decide
    exact absurd he hint
  | @instr p k cpu pc _ hw hr _ _ =>
    refine finish_sharing hr ((record_config pc).trans hw) (h _ _ _ hw) fun he => ?_
    rw [exec_share he]
    exact hshares p

/-! ## The kernel comes back -/

/-- While somebody is willing, `schedule` finds a process to run. -/
theorem trap_share_run (hr : Running 3 p k (k.procArray p).pRegisters) (hk : k.Counting p)
    {trap : Trap} (hserved : Served trap.reg.regIntno) (hfuel : nprocs < trap.fuel)
    (hwilling : ∃ q, (trap.call k).Willing q) :
    ∃ r k' cpu', (Config.user p k cpu).trap trap = .user r k' cpu' := by
  by_cases hshare : (trap.call k).HasShare p
  · exact ⟨_, _, _, trap_of_schedule hserved (schedule_share_stay (hr.call_algorithm trap)
      (hr.call_pPid trap) hshare (Nat.zero_lt_of_lt hfuel))⟩
  · obtain ⟨q, hq⟩ := exists_isNext p hwilling
    exact ⟨_, _, _, trap_of_schedule hserved (schedule_share_move (hr.call_algorithm trap)
      (hr.call_pPid trap) (hk.call hr.current).fresh hshare hq hfuel)⟩

/-- As long as no share is negative, whoever is runnable is willing. -/
theorem trap_share_awake (hr : Running 3 p k (k.procArray p).pRegisters) (hk : k.Counting p)
    (hin : k.SharesIn S) {trap : Trap} (hserved : Served trap.reg.regIntno)
    (hfuel : nprocs < trap.fuel) (hshares : trap.ShareIn S) (hq : (trap.call k).Runnable q) :
    ∃ r k' cpu', (Config.user p k cpu).trap trap = .user r k' cpu' :=
  trap_share_run hr hk hserved hfuel ⟨q, hq, zero_le_iff.mpr (hin.call hshares q).1⟩

theorem finish_share_awake (hr : Running 3 p k (k.procArray p).pRegisters)
    (hw : w.config = .user p k cpu) (h : k.Counting p ∧ k.SharesIn S)
    (hshare : e.int = some intSysUser2 →
      0 ≤ e.cpu.regEax.toInt32.toInt ∧ e.cpu.regEax.toInt32.toInt ≤ S)
    (hserved : ∀ intno, e.int = some intno → Served intno) (hfuel : nprocs < t.fuel) :
    (w.finish apps t p k e).Awake := by
  intro q hnone hq
  cases hint : e.int with
  | none =>
    rw [finish_of_none hint] at hnone
    cases hnone
  | some intno =>
    rw [finish_config hint hw] at hnone hq
    have hintno : (apps.resume p e).regIntno = intno := by simp [Apps.resume, hint]
    have hcall : (Trap.call ⟨apps.resume p e, e.ram, t.tsc, t.fuel⟩ k).Runnable q := by
      unfold Machine.Runnable at hq ⊢
      rwa [trap_field _ p k cpu Process.pState (fun _ => rfl)] at hq
    obtain ⟨r, k', cpu', hc⟩ := @trap_share_awake p q k cpu S hr h.1 h.2 _
      (by rw [hintno]; exact hserved _ hint) hfuel (shareIn_resume hshare hint) hcall
    rw [hc] at hnone
    cases hnone

theorem World.Steps.share_awake (hstep : World.Steps apps 3 t w w') (hshares : apps.SharesIn S)
    (h : w.Sharing S) (hfuel : nprocs < t.fuel) (hawake : w.Awake) : w'.Awake := by
  cases hstep with
  | spinning _ => exact hawake
  | clock _ hw hr _ _ =>
    have hclock : Served intClock := by decide
    have hint : some intClock ≠ some intSysUser2 := by decide
    exact finish_share_awake hr hw (h _ _ _ hw) (fun he => absurd he hint)
      (fun _ he => Option.some.inj he ▸ hclock) hfuel
  | @instr p k cpu pc _ hw hr _ _ =>
    refine finish_share_awake hr ((record_config pc).trans hw) (h _ _ _ hw) (fun he => ?_)
      (fun _ => exec_served) hfuel
    rw [exec_share he]
    exact hshares p

section Runs

variable {ramimages : Fin 4 → Ramimage} {k₀ : Machine} {program : Pid → Program}
  {runcount : Nat} {ticks : Nat → Tick}

theorem boot_sharing :
    (World.boot (start ramimages 3 k₀)).Sharing S := by
  intro p k cpu h
  have h₀ : system ramimages 3 k₀ (fun _ => yieldTrap) 0 = .user p k cpu := h
  refine ⟨system_counting h₀, fun i => ?_⟩
  obtain ⟨-, -, hb⟩ := start_user h
  rw [hb.field Process.pShare rfl (fun _ _ => rfl) i]
  exact ⟨by decide, Int.natCast_nonneg S⟩

theorem world_sharing (hrun : runcount < 2 ^ 31) (hboot : (start ramimages 3 k₀).proc? ≠ none)
    (hshares : (Apps.load program runcount (start ramimages 3 k₀)).SharesIn S) (n : Nat) :
    (world program runcount (start ramimages 3 k₀) ticks n).Sharing S := by
  induction n with
  | zero => exact boot_sharing
  | succ n ih => exact (world_steps program hrun hboot ticks n).sharing hshares ih

theorem world_share_awake (hrun : runcount < 2 ^ 31)
    (hboot : (start ramimages 3 k₀).proc? ≠ none)
    (hshares : (Apps.load program runcount (start ramimages 3 k₀)).SharesIn S)
    (hfuel : ∀ n, nprocs < (ticks n).fuel) (n : Nat) :
    (world program runcount (start ramimages 3 k₀) ticks n).Awake := by
  induction n with
  | zero => exact fun q hnone => absurd hnone hboot
  | succ n ih =>
    exact (world_steps program hrun hboot ticks n).share_awake hshares
      (world_sharing hrun hboot hshares n) (hfuel n) ih

end Runs

/-! ## A run without progress -/

namespace Stalled

variable {ram₀ : Mem} {ticks : Nat → Tick} {run : Nat → World} {n : Nat}
  (hrun : Stalled apps 3 ram₀ ticks run) (hsharing : ∀ n, (run n).Sharing S)
  (hS : S < 2147483647) (hfuel : ∀ n, nprocs < (ticks n).fuel)
include hrun hsharing hS hfuel

/-- A clock interrupt hands the processor on to somebody. Credit is used up if that is not the
process that waits. -/
theorem credit_of_clock (hclock : (ticks n).clock = true)
    (hw : (run n).config = .user p k cpu) : ∃ r k' cpu',
      (run (n + 1)).config = .user r k' cpu' ∧
        (p ≠ q → r ≠ q → k'.Runnable q → credit S k' r q + 1 ≤ credit S k p q) := by
  have hstalls := hrun.stalls n
  obtain ⟨hcounting, hin⟩ := hsharing n _ _ _ hw
  generalize run (n + 1) = w' at hstalls ⊢
  cases hstalls with
  | spinning hw' =>
    rw [hw] at hw'
    cases hw'
  | vain hfalse _ _ _ _ _ =>
    rw [hclock] at hfalse
    cases hfalse
  | @clock p' k' cpu' pc _ hw' hr ht hm =>
    rw [hw] at hw'
    cases hw'
    rw [finish_config rfl hw]
    generalize htrap : Trap.mk (apps.resume p ⟨pc, cpu, k.ram, some intClock⟩) k.ram
      (ticks n).tsc (ticks n).fuel = trap
    have hint : trap.reg.regIntno = intClock := by
      rw [← htrap]
      rfl
    have hserved : Served trap.reg.regIntno := by
      rw [hint]
      decide
    have huser2 : trap.reg.regIntno ≠ intSysUser2 := by
      rw [hint]
      decide
    have hshares : trap.ShareIn S := fun he => absurd he huser2
    have hrunnable : (trap.call k).Runnable p := by
      refine Trap.call_runnable.mpr ⟨hr.runnable, fun he => ?_⟩
      rw [hint] at he
      exact absurd he.1 (by decide)
    obtain ⟨r, k', cpu', hnext⟩ := @trap_share_awake p p k cpu S hr hcounting hin _ hserved
      (by rw [← htrap]; exact hfuel n) hshares hrunnable
    refine ⟨r, k', cpu', hnext, fun hqp hqr hq => ?_⟩
    have hcredit := credit_step hr hcounting hin hS hshares hnext hqp hqr hq
    rwa [if_neg huser2, Nat.add_zero] at hcredit

omit hsharing hS hfuel in
/-- Up to the next clock interrupt the kernel is not entered. -/
theorem until_clock (hclock : ∃ᶠ n in atTop, (ticks n).clock = true)
    (hw : (run n).config = .user p k cpu) : ∃ m k' cpu', n ≤ m ∧ (ticks m).clock = true ∧
      (run m).config = .user p k' cpu' ∧ k'.procArray = k.procArray := by
  classical
  have hex := frequently_atTop.mp hclock n
  obtain ⟨hle, hm⟩ := Nat.find_spec hex
  have hquiet : ∀ j, n ≤ j → j ≤ Nat.find hex → ∃ k' cpu',
      (run j).config = .user p k' cpu' ∧ k'.procArray = k.procArray := by
    intro j hnj
    induction hnj with
    | refl => exact fun _ => ⟨k, cpu, hw, rfl⟩
    | @step j hnj ih =>
      intro hj
      obtain ⟨k', cpu', hw', hsame⟩ := ih (Nat.le_of_succ_le hj)
      have hno : (ticks j).clock ≠ true := fun hc => Nat.find_min hex hj ⟨hnj, hc⟩
      have hstalls := hrun.stalls j
      generalize run (j + 1) = w' at hstalls ⊢
      cases hstalls with
      | spinning hw'' =>
        rw [hw'] at hw''
        cases hw''
      | clock htrue _ _ _ _ => exact absurd htrue hno
      | vain _ hw'' _ _ hvain _ =>
        rw [hw'] at hw''
        cases hw''
        rw [finish_of_none hvain.exec.1]
        exact ⟨_, _, rfl, hsame⟩
  obtain ⟨k', cpu', hw', hsame⟩ := hquiet _ hle (Nat.le_refl _)
  exact ⟨_, k', cpu', hle, hm, hw', hsame⟩

variable (hclock : ∃ᶠ n in atTop, (ticks n).clock = true)
  (hslice : ∀ n, (ticks n).clock = true → (ticks (n + 1)).clock = false)
  (hq : (run 0).config.machine.Runnable q)
include hclock hslice hq

/-- A process that waits has its turn when the credit is used up. -/
theorem executes_of_credit (d : Nat) : ∀ {n : Nat} {p : Pid} {k : Machine} {cpu : Registers},
    (run n).config = .user p k cpu → p ≠ q → credit S k p q = d →
      ∃ m, n ≤ m ∧ Executes ticks run q m := by
  induction d using Nat.strong_induction_on with
  | _ d ih =>
    intro n p k cpu hw hpq hd
    obtain ⟨m, k₁, cpu₁, hnm, hm, hw₁, hsame⟩ := hrun.until_clock hclock hw
    obtain ⟨r, k', cpu', hw', hcredit⟩ :=
      hrun.credit_of_clock (q := q) hsharing hS hfuel hm hw₁
    have hd₁ : credit S k₁ p q = d := by
      rw [← hd, credit, credit, hsame]
    by_cases hrq : r = q
    · refine ⟨m + 1, Nat.le_succ_of_le hnm, ?_, hslice m hm⟩
      rw [hw', hrq]
      rfl
    · have hrunnable := (hrun.runnable_iff (m + 1) q).mpr hq
      rw [hw'] at hrunnable
      have hless := hcredit hpq hrq hrunnable
      obtain ⟨j, hj, hexecutes⟩ := ih (credit S k' r q) (by omega) hw' hrq rfl
      exact ⟨j, by omega, hexecutes⟩

/-- **Every runnable process executes instructions, again and again.** -/
theorem executes_share (hboot : (run 0).config.proc? ≠ none) :
    ∃ᶠ n in atTop, Executes ticks run q n := by
  have hlive : ∀ n, ∃ p k cpu, (run n).config = .user p k cpu := by
    intro n
    induction n with
    | zero =>
      obtain ⟨p, hp⟩ := Option.ne_none_iff_exists'.mp hboot
      exact ⟨p, Config.proc?_eq_some hp⟩
    | succ n ih =>
      obtain ⟨p, k, cpu, hw⟩ := ih
      by_cases hn : (ticks n).clock = true
      · obtain ⟨r, k', cpu', hw', -⟩ := hrun.credit_of_clock (q := q) hsharing hS hfuel hn hw
        exact ⟨r, k', cpu', hw'⟩
      · have hproc := hrun.proc?_of_not_clock hn
        rw [hw] at hproc
        exact ⟨p, Config.proc?_eq_some hproc⟩
  refine frequently_atTop.mpr fun n => ?_
  obtain ⟨p, k, cpu, hw⟩ := hlive n
  by_cases hpq : p = q
  · subst hpq
    by_cases hn : (ticks n).clock = true
    · -- it is interrupted at once
      obtain ⟨r, k', cpu', hw', -⟩ := hrun.credit_of_clock (q := p) hsharing hS hfuel hn hw
      by_cases hrp : r = p
      · refine ⟨n + 1, Nat.le_succ n, ?_, hslice n hn⟩
        rw [hw', hrp]
        rfl
      · obtain ⟨m, hm, hexecutes⟩ := hrun.executes_of_credit hsharing hS hfuel hclock hslice hq _
          hw' hrp rfl
        exact ⟨m, by omega, hexecutes⟩
    · exact ⟨n, Nat.le_refl n, by rw [hw]; rfl, Bool.eq_false_iff.mpr hn⟩
  · exact hrun.executes_of_credit hsharing hS hfuel hclock hslice hq _ hw hpq rfl

end Stalled

/-- **Under the share scheduler too the run comes to an end**, with shares from 0 on and smaller
than the largest `int`. The search for the next process may visit everybody twice. -/
theorem shared_run_ends (ramimages : Fin 4 → Ramimage) (k₀ : Machine)
    (program : Pid → Program) (runcount : Nat) (ticks : Nat → Tick)
    (hshares : ∀ p, 0 ≤ (program p).share ∧ (program p).share < intMax)
    (hrun : 4 * runcount ≤ 2000) (hclock : ∃ᶠ n in atTop, (ticks n).clock = true)
    (hslice : ∀ n, (ticks n).clock = true → (ticks (n + 1)).clock = false)
    (hfuel : ∀ n, nprocs < (ticks n).fuel) (hboot : (start ramimages 3 k₀).proc? ≠ none)
    (hlock : (start ramimages 3 k₀).machine.lock = 0) :
    ∃ N, ∀ n, N ≤ n → (world program runcount (start ramimages 3 k₀) ticks n).Finished
      (.load program runcount (start ramimages 3 k₀)) (start ramimages 3 k₀).machine.ram := by
  have hsmall : runcount < 2 ^ 31 := by omega
  have hknown : KnownAlgorithm 3 := Or.inr (Or.inr (Or.inr (Or.inl rfl)))
  have hin : (Apps.load program runcount (start ramimages 3 k₀)).SharesIn 2147483646 := by
    intro p
    obtain ⟨hnonneg, hlt⟩ := hshares p
    have hlt' := Int32.lt_iff_toInt_lt.mp hlt
    rw [show intMax.toInt = 2147483647 from rfl] at hlt'
    exact ⟨zero_le_iff.mp hnonneg, show (program p).share.toInt ≤ 2147483646 by omega⟩
  have hsharing : ∀ n, (world program runcount (start ramimages 3 k₀) ticks n).Sharing _ :=
    world_sharing hsmall hboot hin
  refine exists_finished hknown hrun hboot hlock fun m hstalled q hq => ?_
  refine hstalled.absurd_of_executes (C := fun q =>
    (world program runcount (start ramimages 3 k₀) ticks m).config.machine.Runnable q) ⟨q, hq⟩ ?_
    fun q hq => ?_
  · exact fun n h hinside =>
      (hstalled.runnable_iff n h).mp ((hstalled.inv n).toOnTrack.runnable_of_inside hinside)
  · have hawake := world_share_awake hsmall hboot hin hfuel m
    exact hstalled.executes_share (fun n => hsharing (m + n)) (by decide)
      (fun n => hfuel (m + n)) (frequently_add_left hclock m) (fun n => hslice (m + n)) hq
      fun hnone => hawake q hnone hq

/-- As `thirdTicks`, with more time for each search. -/
def longTicks (n : Nat) : Tick := { thirdTicks n with fuel := 2 * nprocs }

/-- The shipped applications pass the shares 2, 4, 8 and 4. -/
theorem shared_run_ends_shipped :
    ∃ N, ∀ n, N ≤ n → (world shippedProgram shippedRuncount (start bareImages 3 bareMachine)
        longTicks n).Finished
      (.load shippedProgram shippedRuncount (start bareImages 3 bareMachine))
      (start bareImages 3 bareMachine).machine.ram :=
  shared_run_ends bareImages bareMachine shippedProgram shippedRuncount longTicks (by decide)
    (by decide) thirdTicks_often thirdTicks_slice
    (fun _ => show nprocs < 2 * nprocs by decide) (bare_proc? 3) (start_bare_lock 3)

end SchedOS
