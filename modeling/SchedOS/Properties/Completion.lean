import SchedOS.Properties.Fairness

/-!
# Run to completion

Algorithm 1 looks for the lowest pid that is runnable. A process that is not runnable never
becomes so again, and only `sys_exit` takes a process out of the runnable ones. So the
processes run one after another, each until it exits.

* `run_to_completion` — the order of the dispatches in every run
-/

namespace SchedOS

open Infra

section Runs

variable {ramimages : Fin 4 → Ramimage} {alg : Int32} {k₀ : Machine} {traps : Nat → Trap}
  {m n : Nat} {p q : Pid}

/-- A process that was runnable and is so no longer has exited. -/
theorem system_exit_of_not_runnable (hmn : m ≤ n)
    (hm : (system ramimages alg k₀ traps m).machine.Runnable p)
    (hn : ¬ (system ramimages alg k₀ traps n).machine.Runnable p) :
    ∃ j, m ≤ j ∧ j < n ∧ (system ramimages alg k₀ traps j).proc? = some p ∧
      (traps j).reg.regIntno = intSysExit :=
  TimeSharing.exists_leaves system_step hmn hm hn

/-- When a process runs, all but entry 0 were runnable in the beginning. -/
theorem system_runnable_zero (hn : (system ramimages alg k₀ traps n).proc? = some p)
    (hq : q ≠ 0) : (system ramimages alg k₀ traps 0).machine.Runnable q := by
  obtain ⟨k, hk, hb⟩ := start_booted (system_live hn (Nat.zero_le n))
  rw [system_zero, hk]
  exact (hb.runnable_iff q).mpr hq

/-- Under algorithm 1, the process that runs is the lowest one. -/
theorem system_lowest : ∀ {n : Nat} {p : Pid} {k : Machine} {cpu : Registers},
    system ramimages 1 k₀ traps n = .user p k cpu → k.Lowest p
  | 0, p, k, cpu, h => by
    obtain ⟨rfl, -, hb⟩ := start_user h
    refine ⟨(hb.runnable_iff 1).mpr (by decide), fun q hq hrun => ?_⟩
    exact (hb.runnable_iff q).mp hrun (Fin.lt_one_iff q |>.mp hq)
  | n + 1, p, k, cpu, h => by
    cases hn : system ramimages 1 k₀ traps n with
    | spinning k' =>
      rw [system_succ, hn] at h
      cases h
    | user p' k' cpu' =>
      have hr := system_running hn
      obtain ⟨hlow, rfl⟩ :=
        schedule_lowestPid_user (hr.call_algorithm _) (system_schedule hn h)
      exact hlow

end Runs

/-- The dispatches of the run `sys` up to the one after `n` interrupts. -/
structure RunsToCompletion (sys : Nat → Config) (traps : Nat → Trap) (n : Nat) : Prop where
  /-- The runnable process with the lowest pid is dispatched. -/
  lowest : ∀ p k cpu, sys n = .user p k cpu → k.Lowest p
  /-- Pids never go down. -/
  monotone : ∀ m p q, m ≤ n → (sys m).proc? = some p → (sys n).proc? = some q → p ≤ q
  /-- All processes with a lower pid have exited. -/
  exited : ∀ p, (sys n).proc? = some p → ∀ q, q ≠ 0 → q < p →
    ∃ m, m < n ∧ (sys m).proc? = some q ∧ (traps m).reg.regIntno = intSysExit

/-- **Algorithm 1 runs every process to its completion**, in the order of the pids. -/
theorem run_to_completion (ramimages : Fin 4 → Ramimage) (k₀ : Machine) (traps : Nat → Trap)
    (n : Nat) : RunsToCompletion (system ramimages 1 k₀ traps) traps n where
  lowest _ _ _ hn := system_lowest hn
  monotone m p q hmn hm hn := by
    obtain ⟨k, cpu, hc⟩ := Config.proc?_eq_some hm
    have hrun := system_runnable hn hmn
    rw [hc] at hrun
    exact not_lt.mp fun hlt => (system_lowest hc).2 q hlt hrun
  exited p hn q hq hlt := by
    obtain ⟨k, cpu, hc⟩ := Config.proc?_eq_some hn
    have hnot : ¬ (system ramimages 1 k₀ traps n).machine.Runnable q := by
      rw [hc]
      exact (system_lowest hc).2 q hlt
    obtain ⟨j, -, hjn, hj⟩ :=
      system_exit_of_not_runnable (Nat.zero_le n) (system_runnable_zero hn hq) hnot
    exact ⟨j, hjn, hj⟩

end SchedOS
