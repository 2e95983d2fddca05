import SchedOS.Properties.Interrupt

/-!
# Whom a system call affects

A field of a descriptor is set by the system calls of its own process and by nothing else: it
holds the argument of the last call (`lastCall`), or the 0 of `start` if there has been none.
This rests on `interrupt` not running on from one `case` into the next, under any algorithm.

* `calls_own` — the fields of every process in every state of every run
-/

namespace SchedOS

open Infra

/-- The argument of the last system call `intno` of process `p` among the first `n` interrupts. -/
def lastCall (sys : Nat → Config) (traps : Nat → Trap) (p : Pid) (intno : UInt32) :
    Nat → Option UInt32
  | 0 => none
  | n + 1 =>
    if (sys n).proc? = some p ∧ (traps n).reg.regIntno = intno then some (traps n).reg.regEax
    else lastCall sys traps p intno n

/-- Only `p_registers`, `p_num_times` and `p_pid` may differ. -/
structure Process.SameSettings (p p' : Process) : Prop where
  pState : p'.pState = p.pState
  pExitStatus : p'.pExitStatus = p.pExitStatus
  pPriority : p'.pPriority = p.pPriority
  pShare : p'.pShare = p.pShare
  pNumTickets : p'.pNumTickets = p.pNumTickets

/-! ## One interrupt -/

section Step

variable {alg : Int32} {p q : Pid} {k : Machine} {cpu : Registers} {t : Trap}

/-- A field that `interrupt` sets to the argument of the call `intno`. -/
structure SetBy (intno : UInt32) (g : Process → Int32) : Prop where
  served : ∀ reg p, g (Process.served reg p)
    = if reg.regIntno = intno then reg.regEax.toInt32 else g p
  sansTimes : ∀ p : Process, g p.sansTimes = g p

theorem setBy_pExitStatus : SetBy intSysExit Process.pExitStatus := ⟨fun _ _ => rfl, fun _ => rfl⟩

theorem setBy_pPriority : SetBy intSysUser1 Process.pPriority := ⟨fun _ _ => rfl, fun _ => rfl⟩

theorem setBy_pShare : SetBy intSysUser2 Process.pShare := ⟨fun _ _ => rfl, fun _ => rfl⟩

theorem setBy_pNumTickets : SetBy intSysSetLottery Process.pNumTickets :=
  ⟨fun _ _ => rfl, fun _ => rfl⟩

theorem SetBy.trap {intno : UInt32} {g : Process → Int32} (hg : SetBy intno g)
    (hr : Running alg q k cpu) (t : Trap) (p : Pid) :
    g (((Config.user q k cpu).trap t).machine.procArray p)
      = if q = p ∧ t.reg.regIntno = intno then t.reg.regEax.toInt32 else g (k.procArray p) := by
  rw [trap_field t q k cpu g hg.sansTimes]
  by_cases hp : p = q
  · rw [hp, ← hr.current, Trap.call_self, hg.served]
    simp
  · rw [Trap.call_of_ne (hr.current ▸ hp), if_neg fun h => hp h.1.symm]

theorem trap_zombie_iff (hr : Running alg q k cpu) (t : Trap) (p : Pid) :
    (((Config.user q k cpu).trap t).machine.procArray p).pState = .pZombie ↔
      (k.procArray p).pState = .pZombie ∨ q = p ∧ t.reg.regIntno = intSysExit := by
  rw [trap_field t q k cpu Process.pState (fun _ => rfl)]
  by_cases hp : p = q
  · rw [hp, ← hr.current, Trap.call_self]
    by_cases hexit : t.reg.regIntno = intSysExit <;> simp [Process.served, hexit]
  · rw [Trap.call_of_ne (hr.current ▸ hp)]
    exact ⟨Or.inl, fun h => h.resolve_right fun hq => hp hq.1.symm⟩

/-- An interrupt that another process takes. -/
theorem trap_sameSettings (hr : Running alg q k cpu) (t : Trap) (hp : p ≠ q) :
    (k.procArray p).SameSettings (((Config.user q k cpu).trap t).machine.procArray p) := by
  have hcall : (t.call k).procArray p = k.procArray p := Trap.call_of_ne (hr.current ▸ hp)
  constructor
  · rw [trap_field t q k cpu Process.pState (fun _ => rfl), hcall]
  · rw [trap_field t q k cpu Process.pExitStatus (fun _ => rfl), hcall]
  · rw [trap_field t q k cpu Process.pPriority (fun _ => rfl), hcall]
  · rw [trap_field t q k cpu Process.pShare (fun _ => rfl), hcall]
  · rw [trap_field t q k cpu Process.pNumTickets (fun _ => rfl), hcall]

end Step

/-! ## The counter -/

section NumTimes

variable {fuel : Nat} {tsc : Nat → UInt64} {k : Machine} {c : Config}

/-- Only the share scheduler counts dispatches. -/
theorem schedule_procArray (halg : k.schedulingAlgorithm ≠ 3)
    (h : schedule fuel tsc k = .error c) : c.machine.procArray = k.procArray := by
  rcases schedule_const_spec halg h with ⟨pid, rfl, -⟩ | rfl | ⟨-, rfl⟩
  · rfl
  · rfl
  · show (unknownAlgorithm k).procArray = _
    unfold unknownAlgorithm
    split <;> rfl

/-- The counter that an interrupt finds is changed by `sys_set_share` of that process or by the
loop of the share scheduler. -/
theorem trap_pNumTimes {alg : Int32} {q : Pid} {cpu : Registers} (hr : Running alg q k cpu)
    (t : Trap) {p : Pid} (hcall : ¬(q = p ∧ t.reg.regIntno = intSysUser2)) (halg : alg ≠ 3) :
    (((Config.user q k cpu).trap t).machine.procArray p).pNumTimes
      = (k.procArray p).pNumTimes := by
  have hkept : ((t.call k).procArray p).pNumTimes = (k.procArray p).pNumTimes := by
    rw [Trap.call_pNumTimes, hr.current, if_neg fun h => hcall ⟨h.2.symm, h.1⟩]
  rcases trap_cases t q k cpu with h | h
  · rw [schedule_procArray (by rwa [hr.call_algorithm]) h, hkept]
  · rw [h]
    exact hkept

end NumTimes

/-! ## `start` -/

/-- No system call has been made for this entry. -/
structure Process.Untouched (p : Process) : Prop where
  pState : p.pState ≠ .pZombie
  pExitStatus : p.pExitStatus = 0
  pPriority : p.pPriority = 0
  pShare : p.pShare = 0
  pNumTickets : p.pNumTickets = 0

theorem keptByStart_untouched : KeptByStart Process.Untouched where
  zero _ := ⟨by simp [Process.zero], rfl, rfl, rfl, rfl⟩
  registers _ _ h := ⟨h.pState, h.pExitStatus, h.pPriority, h.pShare, h.pNumTickets⟩
  runnable _ _ h := ⟨by simp, h.pExitStatus, h.pPriority, h.pShare, h.pNumTickets⟩

theorem start_untouched (ramimages : Fin 4 → Ramimage) (alg : Int32) (k₀ : Machine) (p : Pid) :
    ((start ramimages alg k₀).machine.procArray p).Untouched :=
  keptByStart_untouched.start alg k₀ p

/-! ## Runs -/

/-- The settings of the processes along the run `sys`, under `scheduling_algorithm`. -/
structure CallsOwn (scheduling_algorithm : Int32) (sys : Nat → Config) (traps : Nat → Trap) :
    Prop where
  pPriority : ∀ n p, ((sys n).machine.procArray p).pPriority
    = ((lastCall sys traps p intSysUser1 n).getD 0).toInt32
  pShare : ∀ n p, ((sys n).machine.procArray p).pShare
    = ((lastCall sys traps p intSysUser2 n).getD 0).toInt32
  pNumTickets : ∀ n p, ((sys n).machine.procArray p).pNumTickets
    = ((lastCall sys traps p intSysSetLottery n).getD 0).toInt32
  pExitStatus : ∀ n p, ((sys n).machine.procArray p).pExitStatus
    = ((lastCall sys traps p intSysExit n).getD 0).toInt32
  pState : ∀ n p, ((sys n).machine.procArray p).pState = .pZombie ↔
    ∃ m, m < n ∧ (sys m).proc? = some p ∧ (traps m).reg.regIntno = intSysExit
  /-- An interrupt of another process changes none of these. -/
  others : ∀ n p, (sys n).proc? ≠ some p →
    ((sys n).machine.procArray p).SameSettings ((sys (n + 1)).machine.procArray p)
  /-- The counter is changed by the process's own `sys_set_share` … -/
  pNumTimes_call : ∀ n q k cpu, sys n = .user q k cpu → ∀ p,
    (((traps n).call k).procArray p).pNumTimes
      = if (traps n).reg.regIntno = intSysUser2 ∧ p = q then 0 else (k.procArray p).pNumTimes
  /-- … and after that by the loop of the share scheduler only. -/
  pNumTimes : ∀ n p, ¬((sys n).proc? = some p ∧ (traps n).reg.regIntno = intSysUser2) →
    scheduling_algorithm ≠ 3 → ((sys (n + 1)).machine.procArray p).pNumTimes
      = ((sys n).machine.procArray p).pNumTimes

section Runs

variable {ramimages : Fin 4 → Ramimage} {alg : Int32} {k₀ : Machine} {traps : Nat → Trap}

/-- **A field holds the argument of the last call that sets it.** -/
theorem SetBy.runs {intno : UInt32} {g : Process → Int32} (hg : SetBy intno g) {p : Pid}
    (hzero : g ((start ramimages alg k₀).machine.procArray p) = 0) :
    ∀ n, g ((system ramimages alg k₀ traps n).machine.procArray p)
      = ((lastCall (system ramimages alg k₀ traps) traps p intno n).getD 0).toInt32
  | 0 => hzero
  | n + 1 => by
    have ih := hg.runs hzero n
    rw [lastCall, system_succ]
    cases hn : system ramimages alg k₀ traps n with
    | spinning k =>
      rw [hn] at ih
      rw [trap_spinning, if_neg fun h => by cases h.1]
      exact ih
    | user q k cpu =>
      rw [hn] at ih
      rw [hg.trap (system_running hn), Config.proc?_user]
      by_cases h : q = p ∧ (traps n).reg.regIntno = intno
      · rw [if_pos h, if_pos ⟨congrArg some h.1, h.2⟩]
        rfl
      · rw [if_neg h, if_neg fun h' => h ⟨Option.some.inj h'.1, h'.2⟩]
        exact ih

theorem system_zombie_iff (p : Pid) : ∀ n,
    ((system ramimages alg k₀ traps n).machine.procArray p).pState = .pZombie ↔
      ∃ m, m < n ∧ (system ramimages alg k₀ traps m).proc? = some p ∧
        (traps m).reg.regIntno = intSysExit
  | 0 => by
    have h := (start_untouched ramimages alg k₀ p).pState
    rw [system_zero]
    exact iff_of_false h fun ⟨m, hm, _⟩ => Nat.not_lt_zero m hm
  | n + 1 => by
    have hsplit : (∃ m, m < n + 1 ∧ (system ramimages alg k₀ traps m).proc? = some p ∧
          (traps m).reg.regIntno = intSysExit) ↔
        (∃ m, m < n ∧ (system ramimages alg k₀ traps m).proc? = some p ∧
          (traps m).reg.regIntno = intSysExit) ∨
        (system ramimages alg k₀ traps n).proc? = some p ∧ (traps n).reg.regIntno = intSysExit := by
      simp only [Nat.lt_succ_iff_lt_or_eq, or_and_right, exists_or, exists_eq_left]
    rw [hsplit, ← system_zombie_iff p n, system_succ]
    cases hn : system ramimages alg k₀ traps n with
    | spinning k => simp [Config.proc?]
    | user q k cpu =>
      rw [trap_zombie_iff (system_running hn), Config.proc?_user, Option.some_inj,
        Config.machine_user]

end Runs

/-- **The effects of a system call belong to the caller alone**, under every algorithm. -/
theorem calls_own (ramimages : Fin 4 → Ramimage) (alg : Int32) (k₀ : Machine)
    (traps : Nat → Trap) : CallsOwn alg (system ramimages alg k₀ traps) traps where
  pPriority n p := setBy_pPriority.runs (start_untouched ramimages alg k₀ p).pPriority n
  pShare n p := setBy_pShare.runs (start_untouched ramimages alg k₀ p).pShare n
  pNumTickets n p := setBy_pNumTickets.runs (start_untouched ramimages alg k₀ p).pNumTickets n
  pExitStatus n p := setBy_pExitStatus.runs (start_untouched ramimages alg k₀ p).pExitStatus n
  pState n p := system_zombie_iff p n
  others n p hp := by
    rw [system_succ]
    cases hn : system ramimages alg k₀ traps n with
    | spinning k => exact ⟨rfl, rfl, rfl, rfl, rfl⟩
    | user q k cpu =>
      rw [hn, Config.proc?_user] at hp
      exact trap_sameSettings (system_running hn) (traps n) fun h => hp (by rw [h])
  pNumTimes_call n q k cpu hn p := by
    rw [Trap.call_pNumTimes, (system_running hn).current]
  pNumTimes n p hcall halg := by
    rw [system_succ]
    cases hn : system ramimages alg k₀ traps n with
    | spinning k => rfl
    | user q k cpu =>
      rw [hn, Config.proc?_user] at hcall
      exact trap_pNumTimes (system_running hn) (traps n)
        (fun h => hcall ⟨congrArg some h.1, h.2⟩) halg

end SchedOS
