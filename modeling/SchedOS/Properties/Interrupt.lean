import SchedOS.Properties.Schedule
import SchedOS.Kern.System

/-!
# What an interrupt can do

`interrupt` stores the registers, does what the interrupt number asks for to `*current` (and,
for `INT_SYS_ATOMIC_PRINT`, to the console), and calls `schedule` (`interrupt_eq`). Since
`schedule` does not return, no arm of the `switch` runs on into the next.
-/

namespace SchedOS

open Infra

/-! ## The effect of the arms -/

/-- The interrupt numbers that have a `case`. -/
def Served (intno : UInt32) : Prop :=
  intno = intSysYield ∨ intno = intSysExit ∨ intno = intSysUser1 ∨ intno = intSysUser2 ∨
    intno = intClock ∨ intno = intSysAtomicPrint ∨ intno = intSysSetLottery

instance (intno : UInt32) : Decidable (Served intno) := by
  unfold Served
  infer_instance

/-- What an interrupt does to the descriptor of the process that takes it. -/
def Process.served (reg : Registers) (p : Process) : Process where
  pPid := p.pPid
  pRegisters := reg
  pState := if reg.regIntno = intSysExit then .pZombie else p.pState
  pExitStatus := if reg.regIntno = intSysExit then reg.regEax.toInt32 else p.pExitStatus
  pPriority := if reg.regIntno = intSysUser1 then reg.regEax.toInt32 else p.pPriority
  pShare := if reg.regIntno = intSysUser2 then reg.regEax.toInt32 else p.pShare
  pNumTimes := if reg.regIntno = intSysUser2 then 0 else p.pNumTimes
  pNumTickets := if reg.regIntno = intSysSetLottery then reg.regEax.toInt32 else p.pNumTickets

/-- The state in which an interrupt calls `schedule`. -/
def Machine.served (reg : Registers) (k : Machine) : Machine :=
  { k.setCurrent (Process.served reg) with
    ram := if reg.regIntno = intSysAtomicPrint then (k.atomicPrint reg.regEax).ram else k.ram }

section Served

variable {reg : Registers} {k : Machine}

@[simp] theorem Machine.served_self :
    (k.served reg).procArray k.current = (k.procArray k.current).served reg :=
  Machine.setProc_self ..

theorem Machine.served_of_ne {i : Pid} (h : i ≠ k.current) :
    (k.served reg).procArray i = k.procArray i :=
  Machine.setProc_of_ne _ _ _ h

theorem Machine.served_pPid (i : Pid) :
    ((k.served reg).procArray i).pPid = (k.procArray i).pPid :=
  Machine.setProc_field _ _ _ Process.pPid rfl i

theorem Machine.served_runnable_of_ne {i : Pid} (h : i ≠ k.current) :
    (k.served reg).Runnable i ↔ k.Runnable i := by
  unfold Machine.Runnable
  rw [Machine.served_of_ne h]

theorem Machine.served_runnable_self :
    (k.served reg).Runnable k.current ↔ reg.regIntno ≠ intSysExit ∧ k.Runnable k.current := by
  unfold Machine.Runnable
  rw [Machine.served_self]
  by_cases h : reg.regIntno = intSysExit <;> simp [Process.served, h]

end Served

/-! ## `interrupt` -/

variable {fuel : Nat} {tsc : Nat → UInt64} {reg : Registers} {k : Machine}

theorem switch_schedule {v : UInt32} {f : Machine → Except Config Machine}
    {arms : List (UInt32 × (Machine → Except Config Machine))}
    {dflt : Machine → Except Config Machine} {s k' : Machine} (h : f s = schedule fuel tsc k') :
    switch v ((v, f) :: arms) dflt s = schedule fuel tsc k' := by
  obtain ⟨c, hc⟩ := schedule_error fuel tsc k'
  rw [hc] at h ⊢
  exact switch_cons_eq h

/-- **What `interrupt` does** for the interrupts that it knows. -/
theorem interrupt_eq (h : Served reg.regIntno) :
    interrupt fuel tsc reg k = schedule fuel tsc (k.served reg) := by
  unfold interrupt interruptArms
  dsimp only
  rcases h with h | h | h | h | h | h | h
  all_goals
    rw [h]
    -- the arms before the matching one are passed over
    repeat rw [switch_cons_ne (by decide)]
    refine switch_schedule (congrArg _ ?_)
    simp [Machine.served, Process.served, Machine.setCurrent, Machine.setProc, h,
      Machine.atomicPrint, Machine.cursorpos, intSysYield, intSysExit, intSysUser1, intSysUser2,
      intClock, intSysAtomicPrint, intSysSetLottery]

/-- For every other interrupt number the kernel loops for ever. -/
theorem interrupt_default (h : ¬ Served reg.regIntno) :
    interrupt fuel tsc reg k = .error (.spinning (k.served reg)) := by
  unfold Served at h
  push Not at h
  obtain ⟨h₁, h₂, h₃, h₄, h₅, h₆, h₇⟩ := h
  unfold interrupt interruptArms
  dsimp only
  rw [switch_cons_ne h₁.symm, switch_cons_ne h₂.symm, switch_cons_ne h₃.symm,
    switch_cons_ne h₄.symm, switch_cons_ne h₅.symm, switch_cons_ne h₆.symm,
    switch_cons_ne h₇.symm, switch_nil]
  simp [Machine.served, Process.served, Machine.setCurrent, Machine.setProc, h₂, h₃, h₄, h₆, h₇]

/-- **`interrupt` does not return**: no `case` runs on into the next one. -/
theorem interrupt_never_returns (k' : Machine) : interrupt fuel tsc reg k ≠ .ok k' := by
  by_cases h : Served reg.regIntno
  · rw [interrupt_eq h]
    exact schedule_never_returns k'
  · rw [interrupt_default h]
    simp

/-! ## One step of the system -/

variable {t : Trap} {p : Pid} {cpu : Registers}

/-- The state in which the interrupt `t`, taken in `k`, calls `schedule`. -/
def Trap.call (t : Trap) (k : Machine) : Machine := { k with ram := t.ram }.served t.reg

@[simp] theorem Trap.call_current : (t.call k).current = k.current := rfl

@[simp] theorem Trap.call_self :
    (t.call k).procArray k.current = (k.procArray k.current).served t.reg :=
  Machine.served_self ..

theorem Trap.call_of_ne {i : Pid} (h : i ≠ k.current) :
    (t.call k).procArray i = k.procArray i :=
  Machine.served_of_ne h

theorem Trap.call_pPid (i : Pid) : ((t.call k).procArray i).pPid = (k.procArray i).pPid :=
  Machine.served_pPid i

/-- Only `INT_SYS_USER1` sets a priority … -/
theorem Trap.call_pPriority (i : Pid) : ((t.call k).procArray i).pPriority
    = if t.reg.regIntno = intSysUser1 ∧ i = k.current then t.reg.regEax.toInt32
      else (k.procArray i).pPriority := by
  by_cases hi : i = k.current
  · rw [hi, Trap.call_self]
    simp [Process.served]
  · simp [Trap.call_of_ne hi, hi]

/-- … and only `INT_SYS_USER2` a share, … -/
theorem Trap.call_pShare (i : Pid) : ((t.call k).procArray i).pShare
    = if t.reg.regIntno = intSysUser2 ∧ i = k.current then t.reg.regEax.toInt32
      else (k.procArray i).pShare := by
  by_cases hi : i = k.current
  · rw [hi, Trap.call_self]
    simp [Process.served]
  · simp [Trap.call_of_ne hi, hi]

/-- … and with it the counter to 0. -/
theorem Trap.call_pNumTimes (i : Pid) : ((t.call k).procArray i).pNumTimes
    = if t.reg.regIntno = intSysUser2 ∧ i = k.current then 0 else (k.procArray i).pNumTimes := by
  by_cases hi : i = k.current
  · rw [hi, Trap.call_self]
    simp [Process.served]
  · simp [Trap.call_of_ne hi, hi]

/-- Who is runnable when `schedule` is called: who was, but for a process that has exited. -/
theorem Trap.call_runnable {i : Pid} :
    (t.call k).Runnable i ↔ k.Runnable i ∧ ¬(t.reg.regIntno = intSysExit ∧ i = k.current) := by
  by_cases hi : i = k.current
  · have h : (t.call k).Runnable k.current ↔ t.reg.regIntno ≠ intSysExit ∧ k.Runnable k.current :=
      Machine.served_runnable_self (k := { k with ram := t.ram })
    simp only [hi, and_true]
    exact h.trans and_comm
  · have h : (t.call k).Runnable i ↔ k.Runnable i :=
      Machine.served_runnable_of_ne (k := { k with ram := t.ram }) hi
    simp only [hi, and_false, not_false_eq_true, and_true]
    exact h

/-- A step of the system is a call of `schedule` … -/
theorem trap_of_served (h : Served t.reg.regIntno) :
    (Config.user p k cpu).trap t = .ofKernel (schedule t.fuel t.tsc (t.call k)) := by
  have hi : interrupt t.fuel t.tsc t.reg { k with ram := t.ram }
      = schedule t.fuel t.tsc (t.call k) := interrupt_eq h
  rw [Config.trap, hi]

/-- … or the end of all scheduling. -/
theorem trap_of_not_served (h : ¬ Served t.reg.regIntno) :
    (Config.user p k cpu).trap t = .spinning (t.call k) := by
  have hi : interrupt t.fuel t.tsc t.reg { k with ram := t.ram }
      = .error (.spinning (t.call k)) := interrupt_default h
  rw [Config.trap, hi]
  rfl

theorem trap_of_schedule {c : Config} (h : Served t.reg.regIntno)
    (hs : schedule t.fuel t.tsc (t.call k) = .error c) : (Config.user p k cpu).trap t = c := by
  rw [trap_of_served h, hs]
  rfl

theorem trap_cases (t : Trap) (p : Pid) (k : Machine) (cpu : Registers) :
    schedule t.fuel t.tsc (t.call k) = .error ((Config.user p k cpu).trap t) ∨
      (Config.user p k cpu).trap t = .spinning (t.call k) := by
  by_cases h : Served t.reg.regIntno
  · obtain ⟨c, hc⟩ := schedule_error t.fuel t.tsc (t.call k)
    exact Or.inl (by rw [hc, trap_of_schedule h hc])
  · exact Or.inr (trap_of_not_served h)

/-- If a process runs after the step, `schedule` has chosen it. -/
theorem schedule_of_trap {q : Pid} {k' : Machine} {cpu' : Registers}
    (h : (Config.user p k cpu).trap t = .user q k' cpu') :
    schedule t.fuel t.tsc (t.call k) = .error (.user q k' cpu') := by
  rcases trap_cases t p k cpu with hs | hs
  · rw [hs, h]
  · rw [hs] at h
    cases h

/-- **What one step can do.** It runs a process that is runnable after the interrupt has been
served, or no process runs any more; beyond the interrupt's own effect only counters change. -/
theorem trap_spec (t : Trap) (p : Pid) (k : Machine) (cpu : Registers) :
    RunsFrom (t.call k) ((Config.user p k cpu).trap t) ∨
      SpinsFrom (t.call k) ((Config.user p k cpu).trap t) := by
  rcases trap_cases t p k cpu with h | h
  · exact schedule_spec h
  · exact Or.inr ⟨_, h, .refl _, fun _ => rfl⟩

/-- Every field of a descriptor but `p_num_times` is as the interrupt has left it. -/
theorem trap_field (t : Trap) (p : Pid) (k : Machine) (cpu : Registers) {β : Type*}
    (g : Process → β) (hg : ∀ p : Process, g p.sansTimes = g p) (i : Pid) :
    g (((Config.user p k cpu).trap t).machine.procArray i) = g ((t.call k).procArray i) := by
  rcases trap_spec t p k cpu with ⟨q, k', hc, -, hsame, -⟩ | ⟨k', hc, hsame, -⟩
  · rw [hc]
    exact hsame.field g hg i
  · rw [hc]
    exact hsame.field g hg i

theorem Trap.call_ram (h : t.reg.regIntno ≠ intSysAtomicPrint) : (t.call k).ram = t.ram :=
  if_neg h

theorem trap_algorithm (t : Trap) (p : Pid) (k : Machine) (cpu : Registers) :
    ((Config.user p k cpu).trap t).machine.schedulingAlgorithm = k.schedulingAlgorithm := by
  rcases trap_spec t p k cpu with ⟨q, k', hc, -, hsame, -⟩ | ⟨k', hc, hsame, -⟩
  · rw [hc]
    exact hsame.algorithm
  · rw [hc]
    exact hsame.algorithm

/-- `schedule` writes to the memory only to complain about the algorithm. -/
theorem trap_ram_call (t : Trap) (p : Pid) (k : Machine) (cpu : Registers)
    (hknown : KnownAlgorithm k.schedulingAlgorithm) :
    ((Config.user p k cpu).trap t).machine.ram = (t.call k).ram := by
  rcases trap_spec t p k cpu with ⟨q, k', hc, -, -, hram⟩ | ⟨k', hc, -, hram⟩
  · rw [hc]
    exact hram
  · rw [hc]
    exact hram hknown

/-- The kernel writes to the memory only to print. -/
theorem trap_ram (t : Trap) (p : Pid) (k : Machine) (cpu : Registers)
    (hknown : KnownAlgorithm k.schedulingAlgorithm) (h : t.reg.regIntno ≠ intSysAtomicPrint) :
    ((Config.user p k cpu).trap t).machine.ram = t.ram := by
  rw [trap_ram_call t p k cpu hknown, Trap.call_ram h]

@[simp] theorem trap_spinning (t : Trap) (k : Machine) :
    (Config.spinning k).trap t = .spinning k := rfl

/-! ## The invariant of the system -/

/-- What holds whenever the process `p` runs. -/
structure Running (scheduling_algorithm : Int32) (p : Pid) (k : Machine) (cpu : Registers) :
    Prop where
  current : k.current = p
  algorithm : k.schedulingAlgorithm = scheduling_algorithm
  pPid : ∀ i, (k.procArray i).pPid = i
  slot_zero : (k.procArray 0).pState = .pEmpty
  runnable : k.Runnable p
  cpu : cpu = (k.procArray p).pRegisters

/-- The scheduler starts its search at the process that was interrupted. -/
theorem Running.call_pPid {alg : Int32} (h : Running alg p k cpu) (t : Trap) :
    ((t.call k).procArray (t.call k).current).pPid = p := by
  rw [Trap.call_pPid, h.pPid, Trap.call_current, h.current]

theorem Running.call_algorithm {alg : Int32} (h : Running alg p k cpu) (t : Trap) :
    (t.call k).schedulingAlgorithm = alg :=
  h.algorithm

/-- Entry 0 is never runnable. -/
theorem Running.ne_zero_of_runnable {alg : Int32} (h : Running alg p k cpu) {i : Pid}
    (hi : k.Runnable i) : i ≠ 0 := by
  rintro rfl
  unfold Machine.Runnable at hi
  rw [h.slot_zero] at hi
  cases hi

theorem Running.ne_zero {alg : Int32} (h : Running alg p k cpu) : p ≠ 0 :=
  h.ne_zero_of_runnable h.runnable

/-- The entries that are ever used. -/
def applications : Finset Pid := {1, 2, 3, 4}

theorem mem_applications {p : Pid} : p ∈ applications ↔ p ≠ 0 := by
  revert p
  decide

/-- Two of the four are not between the two of them. -/
theorem ahead_applications {p q : Pid} (hp : p ≠ 0) (hq : q ≠ 0) (hne : p ≠ q) :
    ahead applications p q + 2 ≤ 4 :=
  ahead_add_two_le (mem_applications.mpr hp) (mem_applications.mpr hq) hne

/-- The invariant: nothing is claimed of a kernel that spins. -/
def Config.Ok (scheduling_algorithm : Int32) : Config → Prop
  | .user p k cpu => Running scheduling_algorithm p k cpu
  | .spinning _ => True

theorem ok_start (ramimages : Fin 4 → Ramimage) (alg : Int32) (k₀ : Machine) :
    (start ramimages alg k₀).Ok alg := by
  rcases start_cases ramimages alg k₀ with ⟨k, hk⟩ | ⟨k, hk, hb⟩
  · rw [hk]
    trivial
  · rw [hk]
    exact {
      current := hb.current
      algorithm := hb.algorithm
      pPid := hb.field Process.pPid rfl fun _ _ => rfl
      slot_zero := by
        rw [hb.slot_zero]
        rfl
      runnable := (hb.runnable_iff 1).mpr (by decide)
      cpu := rfl }

/-- The table is kept by everything that an interrupt and the scheduler do. -/
theorem Running.of_runsFrom {alg : Int32} (h : Running alg p k cpu) {q : Pid} {k' : Machine}
    (hrun : k'.Runnable q) (hsame : (t.call k).SameUpToTimes k') :
    Running alg q { k' with current := q } (k'.procArray q).pRegisters where
  current := rfl
  algorithm := hsame.algorithm.trans h.algorithm
  pPid i := by
    show (k'.procArray i).pPid = i
    rw [hsame.pPid, Trap.call_pPid, h.pPid]
  slot_zero := by
    show (k'.procArray 0).pState = .pEmpty
    have hne : (0 : Pid) ≠ k.current := by
      rw [h.current]
      exact h.ne_zero.symm
    rw [hsame.pState, Trap.call_of_ne hne, h.slot_zero]
  runnable := hrun
  cpu := rfl

theorem ok_trap {alg : Int32} (t : Trap) (c : Config) (h : c.Ok alg) : (c.trap t).Ok alg := by
  cases c with
  | spinning k => trivial
  | user p k cpu =>
    rcases trap_spec t p k cpu with ⟨q, k', hc, hrun, hsame, -⟩ | ⟨k', hc, -⟩
    · rw [hc]
      exact Running.of_runsFrom h hrun hsame
    · rw [hc]
      trivial

/-- **The invariant holds in every run.** -/
theorem system_ok (ramimages : Fin 4 → Ramimage) (alg : Int32) (k₀ : Machine)
    (traps : Nat → Trap) (n : Nat) : (system ramimages alg k₀ traps n).Ok alg :=
  states_invariant ok_trap (ok_start ramimages alg k₀) n

theorem system_running {ramimages : Fin 4 → Ramimage} {alg : Int32} {k₀ : Machine}
    {traps : Nat → Trap} {n : Nat} (h : system ramimages alg k₀ traps n = .user p k cpu) :
    Running alg p k cpu := by
  have hok := system_ok ramimages alg k₀ traps n
  rwa [h] at hok

end SchedOS
