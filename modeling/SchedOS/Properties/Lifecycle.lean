import SchedOS.Properties.Interrupt
import SchedOS.Properties.Boot
import SchedOS.Infra.TimeSharing

/-!
# Process life cycle and context switches

The kernel seen from far away is a shared processor in the sense of `Infra.TimeSharing`: the
process that runs is the active task, the runnable ones are alive, and the descriptor (up to
`p_num_times`, which the scheduler counts) is the saved context. `system_step` says that the
kernel's steps are steps of that abstract processor, under whatever scheduling algorithm.

* `life_cycle` — only runnable processes run, `current` is the one that ran last, and exiting
  is for good
* `context_restored` — a process goes on with the registers with which it was interrupted
-/

namespace SchedOS

open Infra

/-! ## Refinement -/

/-- The shared processor that a configuration implements. -/
def Config.sharing (c : Config) : TimeSharing Pid Process where
  active := c.proc?
  live := {p | c.machine.Runnable p}
  saved p := (c.machine.procArray p).sansTimes

/-- How the interrupt `t` ends the slice of the process that runs. -/
def Config.sliceEnd (t : Trap) (c : Config) : SliceEnd Process where
  context := ((c.machine.procArray c.machine.current).served t.reg).sansTimes
  leaves := t.reg.regIntno = intSysExit

section Step

variable {alg : Int32} {t : Trap} {p : Pid}

/-- Whatever the scheduler counts, the descriptors are those that the interrupt left. -/
theorem sharing_saved (k k' : Machine) (hcur : k.current = p)
    (hsame : (t.call k).SameUpToTimes k') :
    (fun i => (k'.procArray i).sansTimes)
      = Function.update (fun i => (k.procArray i).sansTimes) p
        ((k.procArray p).served t.reg).sansTimes := by
  funext i
  rw [hsame.proc i]
  by_cases hi : i = p
  · rw [hi, Function.update_self, ← hcur, Trap.call_self]
  · rw [Function.update_of_ne hi, Trap.call_of_ne (hcur ▸ hi)]

theorem sharing_live (k k' : Machine) (hcur : k.current = p) (hsame : (t.call k).SameUpToTimes k') :
    {i | k'.Runnable i} = {i ∈ {i | k.Runnable i} | ¬(t.reg.regIntno = intSysExit ∧ i = p)} := by
  ext i
  rw [← hcur]
  exact (hsame.runnable_iff i).trans Trap.call_runnable

/-- **The kernel refines the shared processor**: one interrupt is one step. -/
theorem trap_step (t : Trap) {c : Config} (h : c.Ok alg) :
    TimeSharing.Step (c.sliceEnd t) c.sharing (c.trap t).sharing := by
  cases c with
  | spinning k => exact rfl
  | user p k cpu =>
    have hcur : k.current = p := h.current
    have hctx : ((Config.user p k cpu).sliceEnd t).context
        = ((k.procArray p).served t.reg).sansTimes := by
      rw [← hcur]
      rfl
    rcases trap_spec t p k cpu with ⟨q, k', hc, hrun, hsame, -⟩ | ⟨k', hc, hsame, -⟩
    · rw [hc]
      refine ⟨sharing_live k k' hcur hsame, ?_, fun q' hq' => ?_⟩
      · rw [hctx]
        exact sharing_saved k k' hcur hsame
      · rw [← Option.some.inj hq']
        exact hrun
    · rw [hc]
      refine ⟨sharing_live k k' hcur hsame, ?_, fun q' hq' => by cases hq'⟩
      rw [hctx]
      exact sharing_saved k k' hcur hsame

end Step

section Runs

variable {ramimages : Fin 4 → Ramimage} {alg : Int32} {k₀ : Machine} {traps : Nat → Trap}

/-- A run of the system is a run of the shared processor. -/
theorem system_step (j : Nat) :
    TimeSharing.Step ((system ramimages alg k₀ traps j).sliceEnd (traps j))
      (system ramimages alg k₀ traps j).sharing (system ramimages alg k₀ traps (j + 1)).sharing :=
  trap_step (traps j) (system_ok ramimages alg k₀ traps j)

theorem system_active_live : ∀ q ∈ (system ramimages alg k₀ traps 0).sharing.active,
    q ∈ (system ramimages alg k₀ traps 0).sharing.live := by
  intro q hq
  obtain ⟨k, cpu, hc⟩ := Config.proc?_eq_some hq
  have hrun := (system_running hc).runnable
  rw [hc]
  exact hrun

/-! ## The life cycle -/

/-- A kernel that has stopped giving out the processor never gives it out again. -/
theorem system_spinning {m n : Nat} {k : Machine} (hmn : m ≤ n)
    (h : system ramimages alg k₀ traps m = .spinning k) :
    system ramimages alg k₀ traps n = .spinning k := by
  refine states_invariant_from (I := fun c => c = Config.spinning k) (fun t c hc => ?_) hmn h
  rw [hc, trap_spinning]

/-- `current` is the entry dispatched last, also while the kernel spins. -/
theorem system_current {m n : Nat} {p : Pid} (hmn : m ≤ n)
    (hm : (system ramimages alg k₀ traps m).proc? = some p)
    (hlast : ∀ j, m < j → j ≤ n → (system ramimages alg k₀ traps j).proc? = none) :
    (system ramimages alg k₀ traps n).machine.current = p ∧
      ((system ramimages alg k₀ traps n).machine.procArray p).pPid = p := by
  obtain ⟨k, cpu, hc⟩ := Config.proc?_eq_some hm
  have hr := system_running hc
  rcases Nat.eq_or_lt_of_le hmn with rfl | hlt
  · rw [hc]
    exact ⟨hr.current, hr.pPid p⟩
  · have hnone := hlast (m + 1) (Nat.lt_succ_self m) hlt
    have hstep : system ramimages alg k₀ traps (m + 1) = (Config.user p k cpu).trap (traps m) := by
      rw [← hc, system_succ]
    rcases trap_spec (traps m) p k cpu with ⟨q, k', hk', -⟩ | ⟨k', hk', hsame, -⟩
    · rw [hstep, hk'] at hnone
      cases hnone
    · rw [system_spinning hlt (hstep.trans hk')]
      refine ⟨hsame.current.trans hr.current, ?_⟩
      show (k'.procArray p).pPid = p
      rw [hsame.pPid, Trap.call_pPid, hr.pPid]

/-- The life cycle of the processes, after `n` interrupts of the run `sys`. -/
structure LifeCycle (sys : Nat → Config) (traps : Nat → Trap) (n : Nat) : Prop where
  /-- `run` is called on a runnable entry, which is not entry 0. -/
  dispatched : ∀ p k cpu, sys n = .user p k cpu → k.Runnable p ∧ p ≠ 0
  /-- `current` points to the entry dispatched last, and `current->p_pid` is its index. -/
  current : ∀ m p, m ≤ n → (sys m).proc? = some p → (∀ j, m < j → j ≤ n → (sys j).proc? = none) →
    (sys n).machine.current = p ∧ ((sys n).machine.procArray p).pPid = p
  /-- A process that has called `sys_exit` does not run again, and its descriptor keeps what the
  call stored there. -/
  exited : ∀ m p, m < n → (sys m).proc? = some p → (traps m).reg.regIntno = intSysExit →
    (sys n).proc? ≠ some p ∧
      ((sys n).machine.procArray p).pState = .pZombie ∧
      ((sys n).machine.procArray p).pExitStatus = (traps m).reg.regEax.toInt32 ∧
      ((sys n).machine.procArray p).pRegisters = (traps m).reg

/-- What is left of an exited process. -/
theorem system_exited {m n : Nat} {p : Pid} (hmn : m < n)
    (hm : (system ramimages alg k₀ traps m).proc? = some p)
    (hexit : (traps m).reg.regIntno = intSysExit) :
    (system ramimages alg k₀ traps n).proc? ≠ some p ∧
      ((system ramimages alg k₀ traps n).machine.procArray p).pState = .pZombie ∧
      ((system ramimages alg k₀ traps n).machine.procArray p).pExitStatus
        = (traps m).reg.regEax.toInt32 ∧
      ((system ramimages alg k₀ traps n).machine.procArray p).pRegisters = (traps m).reg := by
  obtain ⟨-, hinactive, hsaved⟩ :=
    TimeSharing.exited system_step system_active_live hmn hm hexit
  refine ⟨hinactive, ?_, ?_, congrArg Process.pRegisters hsaved⟩
  · refine (congrArg Process.pState hsaved).trans ?_
    exact if_pos hexit
  · refine (congrArg Process.pExitStatus hsaved).trans ?_
    exact if_pos hexit

/-- **The life cycle of processes**, in every state of every run under every algorithm. -/
theorem life_cycle (ramimages : Fin 4 → Ramimage) (alg : Int32) (k₀ : Machine)
    (traps : Nat → Trap) (n : Nat) : LifeCycle (system ramimages alg k₀ traps) traps n where
  dispatched _ _ _ hn := ⟨(system_running hn).runnable, (system_running hn).ne_zero⟩
  current _ _ hmn hm hlast := system_current hmn hm hlast
  exited _ _ hmn hm hexit := system_exited hmn hm hexit

/-! ## Context switches -/

/-- A process goes on with the registers with which it was interrupted. -/
theorem system_resume {m n : Nat} {p : Pid} {k : Machine} {cpu : Registers} (hmn : m < n)
    (hm : (system ramimages alg k₀ traps m).proc? = some p)
    (hn : system ramimages alg k₀ traps n = .user p k cpu)
    (hbetween : ∀ j, m < j → j < n → (system ramimages alg k₀ traps j).proc? ≠ some p) :
    cpu = (traps m).reg := by
  have hsaved := TimeSharing.saved_resume system_step hmn hm hbetween
  rw [hn] at hsaved
  rw [(system_running hn).cpu]
  exact congrArg Process.pRegisters hsaved

/-- A process that has not run yet starts with the registers that `start` gave it. -/
theorem system_first {n : Nat} {p : Pid} {k : Machine} {cpu : Registers}
    (hn : system ramimages alg k₀ traps n = .user p k cpu)
    (hbefore : ∀ j, j < n → (system ramimages alg k₀ traps j).proc? ≠ some p) :
    ∃ k₁ cpu₁ entry, start ramimages alg k₀ = .user 1 k₁ cpu₁ ∧
      cpu = (k₁.procArray p).pRegisters ∧ cpu = bootRegisters p entry := by
  have hr := system_running hn
  cases hs : start ramimages alg k₀ with
  | spinning k₁ =>
    rw [system_spinning (Nat.zero_le n) hs] at hn
    cases hn
  | user p₁ k₁ cpu₁ =>
    obtain ⟨rfl, -, hb⟩ := start_user hs
    obtain ⟨entry, hproc⟩ := hb.proc
    have hsaved := TimeSharing.saved_of_inactive system_step (Nat.zero_le n)
      fun j _ hj => hbefore j hj
    have hregs : cpu = (k₁.procArray p).pRegisters := by
      rw [hr.cpu]
      have hcong := congrArg Process.pRegisters hsaved
      rw [hn] at hcong
      have h₀ : system ramimages alg k₀ traps 0 = .user 1 k₁ cpu₁ := hs
      rw [h₀] at hcong
      exact hcong
    refine ⟨k₁, cpu₁, entry p, rfl, hregs, ?_⟩
    rw [hregs, hproc p hr.ne_zero]
    rfl

end Runs

/-! ## A run of yields -/

theorem system_bare_zero (alg : Int32) (traps : Nat → Trap) : ∃ entry ram,
    system bareImages alg bareMachine traps 0
      = .user 1 ⟨bootTable entry, 1, alg, ram⟩ (bootRegisters 1 (entry 1)) := by
  obtain ⟨entry, ram, h₀⟩ := start_bare alg
  exact ⟨entry, ram, by rw [system_zero, h₀]⟩

/-- A process yields; we look for one round of the table and one pass more. -/
def yieldTrap : Trap where
  reg := { Registers.zero with regIntno := intSysYield }
  ram := fun _ => 0
  tsc := fun _ => 0
  fuel := nprocs + 1

/-- The process after `p` when 1 to 4 take turns. -/
def turnAfter (p : Pid) : Pid := if p = 4 then 1 else p + 1

theorem isNext_turnAfter {S : Pid → Prop} (h : ∀ i, S i ↔ i ≠ 0) {p : Pid} (hp : p ≠ 0) :
    IsNext S p (turnAfter p) := by
  have hturn : ∀ p : Pid, p ≠ 0 →
      turnAfter p ≠ 0 ∧ ∀ r : Pid, r ≠ 0 → gap p (turnAfter p) ≤ gap p r := by decide
  exact ⟨(h _).mpr (hturn p hp).1, fun r hr => (hturn p hp).2 r ((h r).mp hr)⟩

/-- All four processes are runnable, with priority 0. -/
structure Machine.Level (k : Machine) : Prop where
  runnable : ∀ i, k.Runnable i ↔ i ≠ 0
  pPriority : ∀ i, (k.procArray i).pPriority = 0

theorem Machine.Level.urgent {k : Machine} (h : k.Level) (i : Pid) : k.Urgent i ↔ i ≠ 0 := by
  simp only [Machine.Urgent, h.pPriority, h.runnable, Int32.le_refl, implies_true, and_true]

/-- A process yields, and there is time to look at the whole process table. -/
structure Trap.Yields (t : Trap) : Prop where
  intno : t.reg.regIntno = intSysYield
  fuel : nprocs ≤ t.fuel

section Yields

variable {t : Trap} (ht : t.Yields)
include ht

theorem Trap.Yields.runnable {k : Machine} {i : Pid} :
    (t.call k).Runnable i ↔ k.Runnable i := by
  have hne : intSysYield ≠ intSysExit := by decide
  rw [Trap.call_runnable, ht.intno]
  exact and_iff_left fun he => hne he.1

theorem Trap.Yields.level {k : Machine} (h : k.Level) : (t.call k).Level where
  runnable i := ht.runnable.trans (h.runnable i)
  pPriority i := by
    have hne : intSysYield ≠ intSysUser1 := by decide
    rw [Trap.call_pPriority, ht.intno, if_neg fun he => hne he.1, h.pPriority]

theorem Trap.Yields.trap {alg : Int32} (halg : alg = 0 ∨ alg = 2) {p : Pid} {k : Machine}
    {cpu : Registers} (hr : Running alg p k cpu) (h : k.Level) :
    (Config.user p k cpu).trap t = run (turnAfter p) (t.call k) := by
  have hcall := ht.level h
  have hserved : Served t.reg.regIntno := Or.inl ht.intno
  refine trap_of_schedule hserved ?_
  rcases halg with rfl | rfl
  · exact schedule_roundRobin_run (hr.call_algorithm _) (hr.call_pPid _)
      (isNext_turnAfter hcall.runnable hr.ne_zero) ht.fuel
  · exact schedule_priority_run (hr.call_algorithm _) (hr.call_pPid _)
      (isNext_turnAfter hcall.urgent hr.ne_zero) ht.fuel

end Yields

theorem yieldTrap_yields : yieldTrap.Yields := ⟨rfl, Nat.le_succ _⟩

theorem yieldTrap_runnable {k : Machine} {i : Pid} :
    (yieldTrap.call k).Runnable i ↔ k.Runnable i := yieldTrap_yields.runnable

/-- The processes of the bare system take turns. -/
theorem system_yields {alg : Int32} (halg : alg = 0 ∨ alg = 2) {traps : Nat → Trap}
    (htraps : ∀ n, (traps n).Yields) : ∀ n, ∃ k cpu,
      system bareImages alg bareMachine traps n = .user (turnAfter^[n] 1) k cpu ∧ k.Level
  | 0 => by
    obtain ⟨entry, ram, h₀⟩ := system_bare_zero alg traps
    refine ⟨_, _, h₀, fun i => bootTable_pState, fun i => ?_⟩
    show (bootTable entry i).pPriority = 0
    unfold bootTable
    split <;> rfl
  | n + 1 => by
    obtain ⟨k, cpu, hn, hlevel⟩ := system_yields halg htraps n
    have hstep : system bareImages alg bareMachine traps (n + 1)
        = run (turnAfter (turnAfter^[n] 1)) ((traps n).call k) := by
      rw [← (htraps n).trap halg (system_running hn) hlevel, ← hn, system_succ]
    have hnext := (htraps n).level hlevel
    rw [hstep, Function.iterate_succ_apply']
    exact ⟨_, _, rfl, hnext.runnable, hnext.pPriority⟩

/-! ## Transparency -/

/-- **Context switches are transparent.** A process that is dispatched again finds the registers
of the interrupt that ended its last dispatch; at its first dispatch, those that `start` built. -/
theorem context_restored (ramimages : Fin 4 → Ramimage) (alg : Int32) (k₀ : Machine)
    (traps : Nat → Trap) {n : Nat} {p : Pid} {k : Machine} {cpu : Registers}
    (hn : system ramimages alg k₀ traps n = .user p k cpu) :
    (∀ m, m < n → (system ramimages alg k₀ traps m).proc? = some p →
        (∀ j, m < j → j < n → (system ramimages alg k₀ traps j).proc? ≠ some p) →
        cpu = (traps m).reg) ∧
      ((∀ j, j < n → (system ramimages alg k₀ traps j).proc? ≠ some p) →
        ∃ k₁ cpu₁ entry, start ramimages alg k₀ = .user 1 k₁ cpu₁ ∧
          cpu = (k₁.procArray p).pRegisters ∧ cpu = bootRegisters p entry) :=
  ⟨fun _ hmn hm hbetween => system_resume hmn hm hn hbetween,
    fun hbefore => system_first hn hbefore⟩

/-- The yields with their numbers in `%eax`. -/
def numberedYields (n : Nat) : Trap :=
  { yieldTrap with reg := { yieldTrap.reg with regEax := UInt32.ofNat n } }

/-- Processes 2, 3 and 4 run before process 1 goes on where it was. -/
theorem context_restored_bare :
    (∀ n, n < 4 → (system bareImages 0 bareMachine numberedYields n).proc?
      = some (turnAfter^[n] 1)) ∧
    ∃ k cpu, system bareImages 0 bareMachine numberedYields 4 = .user 1 k cpu ∧
      cpu = (numberedYields 0).reg ∧ ∀ n, 0 < n → n < 4 → cpu ≠ (numberedYields n).reg := by
  have hyields : ∀ n, (numberedYields n).Yields := fun _ => ⟨rfl, Nat.le_succ _⟩
  have hturns := system_yields (Or.inl rfl) hyields
  have hproc : ∀ n, (system bareImages 0 bareMachine numberedYields n).proc?
      = some (turnAfter^[n] 1) := by
    intro n
    obtain ⟨k, cpu, hn, -⟩ := hturns n
    rw [hn]
    rfl
  obtain ⟨k, cpu, h₄, -⟩ := hturns 4
  have hback : turnAfter^[4] 1 = 1 := by decide
  have haway : ∀ n, n < 4 → 0 < n → turnAfter^[n] 1 ≠ 1 := by decide
  rw [hback] at h₄
  have hcpu : cpu = (numberedYields 0).reg := by
    refine (context_restored _ _ _ _ h₄).1 0 (by decide) (hproc 0) fun j hj hj' => ?_
    rw [hproc j]
    exact fun he => haway j hj' hj (Option.some.inj he)
  refine ⟨fun n _ => hproc n, k, cpu, h₄, hcpu, fun n hn hn' he => ?_⟩
  have heax : UInt32.ofNat 0 = UInt32.ofNat n := congrArg Registers.regEax (hcpu.symm.trans he)
  have hval := congrArg UInt32.toNat heax
  rw [UInt32.toNat_ofNat', UInt32.toNat_ofNat'] at hval
  omega

end SchedOS
