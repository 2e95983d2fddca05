import SchedOS.Properties.Printing
import SchedOS.Properties.Rounds

/-!
# The transcript of a run

Without clock interrupts the run of the whole system is a run of the rota in
`Properties.Rounds`: `World.Implements` relates the world, whenever a process has just been
dispatched, to a state of the rota, and `Undisturbed.turn` says that the world gets from there to
the next state of the rota. In a turn a process executes at most nine instructions; nobody else is
inside the lock meanwhile, so it never waits.

* `system_transcript` — the run ends with four zombies of exit status 0 and the transcript on the
  console
-/

namespace SchedOS

open Infra

variable {alg : Int32} {apps : Apps} {t : Tick} {p q : Pid} {k : Machine} {cpu : Registers}
  {w w' : World} {pc : Pc} {turns : Pid → Nat} {log : List Pid} {s done : Nat}

/-! ## The exit status -/

/-- The programs call `sys_exit(0)`. -/
theorem exec_exit_status {program : Program} {runcount : Nat} {ram : Mem}
    (h : (program.exec runcount cpu ram pc).int = some intSysExit) :
    (program.exec runcount cpu ram pc).cpu.regEax = 0 := by
  cases pc
  case sysExit => rfl
  all_goals simp [Program.exec, intSysUser1, intSysUser2, intSysSetLottery, intSysYield,
    intSysExit] at h

theorem World.Steps.pExitStatus (hstep : World.Steps apps alg t w w')
    (h : ∀ q, (w.config.machine.procArray q).pExitStatus = 0) (q : Pid) :
    (w'.config.machine.procArray q).pExitStatus = 0 := by
  cases hstep with
  | spinning _ => exact h q
  | clock _ hw hr _ _ =>
    have hint : some intClock ≠ some intSysExit := by decide
    rw [finish_pExitStatus hr hw, if_neg fun he => hint he.1]
    exact h q
  | instr _ hw hr _ _ =>
    rw [finish_pExitStatus hr ((record_config _).trans hw), record_config]
    split
    · next he =>
      rw [exec_exit_status he.1]
      rfl
    · exact h q

/-- No process ever has an exit status other than 0. -/
theorem world_pExitStatus {ramimages : Fin 4 → Ramimage} {k₀ : Machine} (program : Pid → Program)
    {runcount : Nat} (hrun : runcount < 2 ^ 31)
    (hboot : (start ramimages alg k₀).proc? ≠ none) (ticks : Nat → Tick) :
    ∀ (n : Nat) (q : Pid), ((world program runcount (start ramimages alg k₀) ticks
      n).config.machine.procArray q).pExitStatus = 0
  | 0, q => by
    obtain ⟨k, hk, hb⟩ := start_booted hboot
    show ((start ramimages alg k₀).machine.procArray q).pExitStatus = 0
    rw [hk]
    exact hb.field Process.pExitStatus rfl (fun _ _ => rfl) q
  | n + 1, q => (world_steps program hrun hboot ticks n).pExitStatus
      (world_pExitStatus program hrun hboot ticks n) q

/-! ## Where the processes wait -/

/-- Where a process waits that has entered the kernel `s` times. -/
def restPc (runcount : Nat) : Nat → Pc
  | 0 => .sysSetPriority
  | 1 => .sysSetShare
  | 2 => .sysSetLotteryTickets
  | 3 => .initI
  | s + 4 => if s < runcount then .incI else .hang

/-- The system call with which its turn number `s` ends. -/
def callPc (runcount : Nat) : Nat → Pc
  | 0 => .sysSetPriority
  | 1 => .sysSetShare
  | 2 => .sysSetLotteryTickets
  | s + 3 => if s < runcount then .sysYield else .sysExit

theorem restPc_eq_hang {runcount : Nat} : restPc runcount s = .hang ↔ runcount + 4 ≤ s := by
  match s with
  | 0 | 1 | 2 | 3 => simp [restPc]
  | s + 4 =>
    simp only [restPc]
    split <;> simp <;> omega

theorem restPc_eq_sysSetPriority {runcount : Nat} :
    restPc runcount s = .sysSetPriority ↔ s = 0 := by
  match s with
  | 0 | 1 | 2 | 3 => simp [restPc]
  | s + 4 =>
    simp only [restPc]
    split <;> simp

/-- Whoever waits is not inside the lock. -/
theorem restPc_phase (runcount s : Nat) (cpu : Registers) :
    (restPc runcount s).phase cpu = .outside := by
  match s with
  | 0 | 1 | 2 | 3 => rfl
  | s + 4 =>
    simp only [restPc]
    split <;> rfl

theorem restPc_ne_testLock (runcount s : Nat) : restPc runcount s ≠ .testLock := by
  match s with
  | 0 | 1 | 2 | 3 => simp [restPc]
  | s + 4 =>
    simp only [restPc]
    split <;> simp

/-- The call takes the process to where it waits next. -/
theorem exec_callPc (program : Program) (runcount s : Nat) (cpu : Registers) (ram : Mem) :
    (∃ intno, (program.exec runcount cpu ram (callPc runcount s)).int = some intno) ∧
      (program.exec runcount cpu ram (callPc runcount s)).pc = restPc runcount (s + 1) := by
  match s with
  | 0 | 1 | 2 => exact ⟨⟨_, rfl⟩, rfl⟩
  | s + 3 =>
    simp only [callPc, restPc]
    split
    · exact ⟨⟨_, rfl⟩, rfl⟩
    · exact ⟨⟨_, rfl⟩, rfl⟩

theorem callPc_ne (runcount s : Nat) :
    callPc runcount s ≠ .storeCell ∧ callPc runcount s ≠ .releaseSwap := by
  match s with
  | 0 | 1 | 2 => simp [callPc]
  | s + 3 =>
    simp only [callPc]
    split <;> simp

theorem Tracks.runnable_iff (h : Tracks apps w q (restPc apps.runcount (turns q))) :
    w.config.machine.Runnable q ↔ Alive apps.runcount turns q := by
  unfold Machine.Runnable Alive
  rw [h.pState]
  simp only [restPc_eq_hang]
  by_cases hq : q = 0
  · split <;> simp [hq]
  · by_cases hs : apps.runcount + 4 ≤ turns q
    · simp [hs]
    · simp [hs, hq]
      omega

theorem Tracks.pPriority_eq (h : Tracks apps w q (restPc apps.runcount (turns q))) :
    (w.config.machine.procArray q).pPriority
      = priorityAt (fun p => (apps.program p).priority) turns q := by
  rw [h.pPriority]
  simp only [restPc_eq_sysSetPriority, priorityAt]

/-! ## Choosing -/

section Choice

variable (halg : alg = 0 ∨ alg = 1 ∨ alg = 2)
include halg

/-- Whom `schedule` goes on to, under the three algorithms. -/
theorem schedule_candidate_run {fuel : Nat} {tsc : Nat → UInt64}
    (hk : k.schedulingAlgorithm = alg) (hpid : (k.procArray k.current).pPid = p)
    (h : IsNext (candidate alg k.Runnable fun i => (k.procArray i).pPriority) p q)
    (hfuel : nprocs ≤ fuel) : schedule fuel tsc k = .error (run q k) := by
  rcases halg with rfl | rfl | rfl
  · exact schedule_roundRobin_run hk hpid h hfuel
  · obtain ⟨hq, hlow⟩ := candidate_lowestPid.mp h.1
    exact schedule_lowestPid_run hk hq hlow (Nat.lt_of_lt_of_le (by decide) hfuel)
  · exact schedule_priority_run hk hpid h hfuel

theorem exists_candidate (h : k.Runnable p) :
    ∃ q, candidate alg k.Runnable (fun i => (k.procArray i).pPriority) q := by
  rcases halg with rfl | rfl | rfl
  · exact ⟨p, h⟩
  · exact exists_lowest ⟨p, h⟩
  · exact exists_urgent ⟨p, h⟩

/-- An interrupt ends with the process that the choice falls on. -/
theorem trap_chooses {o : Option Pid} (trap : Trap)
    (hr : Running alg p k (k.procArray p).pRegisters) (hserved : Served trap.reg.regIntno)
    (hfuel : nprocs ≤ trap.fuel)
    (h : Chooses (candidate alg (trap.call k).Runnable
      fun i => ((trap.call k).procArray i).pPriority) p o) :
    ((Config.user p k cpu).trap trap).proc? = o := by
  cases h with
  | some h =>
    rw [trap_of_schedule hserved (schedule_candidate_run halg (hr.call_algorithm trap)
      (hr.call_pPid trap) h hfuel)]
    rfl
  | none hnone =>
    rcases trap_spec trap p k cpu with ⟨r, k', -, hrun, hsame, -⟩ | ⟨k', hc, -⟩
    · obtain ⟨r', hr'⟩ := exists_candidate halg ((hsame.runnable_iff r).mp hrun)
      exact absurd hr' (hnone r')
    · rw [hc]
      rfl

end Choice

/-- A system call is an interrupt of the process that runs. -/
theorem exists_trap {e : Exec} {intno : UInt32} (t : Tick) (hw : w.config = .user p k cpu)
    (hint : e.int = some intno) (hserved : Served intno) :
    ∃ trap : Trap, (w.finish apps t p k e).config = (Config.user p k cpu).trap trap ∧
      Served trap.reg.regIntno ∧ trap.fuel = t.fuel := by
  refine ⟨⟨apps.resume p e, e.ram, t.tsc, t.fuel⟩, finish_config hint hw, ?_, rfl⟩
  simp only [Apps.resume, hint, Option.getD_some]
  exact hserved

/-- The kernel chooses among the candidates of the rota. -/
theorem candidate_call {trap : Trap} (hw : w.config = (Config.user p k cpu).trap trap)
    (h : ∀ q, Tracks apps w q (restPc apps.runcount (turns q))) :
    candidate alg (trap.call k).Runnable (fun i => ((trap.call k).procArray i).pPriority)
      = (applicationsRota alg apps.runcount fun p => (apps.program p).priority).Candidate
        turns := by
  have hrunnable : (trap.call k).Runnable = Alive apps.runcount turns := by
    funext q
    rw [← (h q).runnable_iff, hw]
    unfold Machine.Runnable
    rw [trap_field trap p k cpu Process.pState fun _ => rfl]
  have hpriority : (fun i => ((trap.call k).procArray i).pPriority)
      = priorityAt (fun p => (apps.program p).priority) turns := by
    funext q
    rw [← (h q).pPriority_eq, hw, trap_field trap p k cpu Process.pPriority fun _ => rfl]
  rw [hrunnable, hpriority]
  rfl

/-! ## Turns -/

/-- The world is where the rota is: a process has just been dispatched, or none is left. -/
structure World.Implements (apps : Apps) (w : World) (s : Rota.State nprocs Pid) : Prop where
  active : w.config.proc? = s.active
  tracks : ∀ q, Tracks apps w q (restPc apps.runcount (s.turns q))
  completed : ∀ q, w.completed q = min apps.runcount (s.turns q - 3)
  log : w.written.map Prod.fst = s.log

/-- Process `p` is at `pc` in the turn that it began after the turns `turns`; it has completed
`done` prints. -/
structure World.InTurn (apps : Apps) (p : Pid) (turns : Pid → Nat) (w : World) (pc : Pc)
    (done : Nat) (log : List Pid) : Prop where
  active : w.config.proc? = some p
  tracks : Tracks apps w p pc
  others : ∀ q, q ≠ p → Tracks apps w q (restPc apps.runcount (turns q))
  completed : w.completed p = done
  completed_others : ∀ q, q ≠ p → w.completed q = min apps.runcount (turns q - 3)
  log : w.written.map Prod.fst = log
  /-- The lock was free. -/
  acquired : pc = .testLock → (w.config.regs p).regEax = 0

/-- A process that has just been dispatched begins where it has waited. -/
theorem World.Implements.inTurn (h : w.Implements apps ⟨turns, some p, log⟩) :
    w.InTurn apps p turns (restPc apps.runcount (turns p)) (min apps.runcount (turns p - 3))
      log where
  active := h.active
  tracks := h.tracks p
  others q _ := h.tracks q
  completed := h.completed p
  completed_others q _ := h.completed q
  log := h.log
  acquired hlock := absurd hlock (restPc_ne_testLock _ _)

/-- Where a process goes on from an instruction without an `int` if it finds the lock free. -/
def Pc.advance (runcount done : Nat) : Pc → Pc
  | .initI => .testI
  | .testI => if done < runcount then .acquireSwap else .sysExit
  | .acquireSwap => .testLock
  | .testLock => .loadCursorpos
  | .loadCursorpos => .storeCell
  | .storeCell => .storeCursorpos
  | .storeCursorpos => .releaseSwap
  | .releaseSwap => .sysYield
  | .incI => .testI
  | pc => pc

theorem advance_eq_testLock {runcount : Nat} (h : pc.advance runcount done = .testLock) :
    pc = .acquireSwap := by
  cases pc
  case acquireSwap => rfl
  case testI =>
    simp only [Pc.advance] at h
    split at h <;> cases h
  all_goals cases h

/-- The instruction is not an `int`, and not the final loop. -/
def Pc.Quiet (pc : Pc) : Prop := pc.advance 0 0 ≠ pc

instance (pc : Pc) : Decidable pc.Quiet := by
  unfold Pc.Quiet
  infer_instance

theorem exec_advance (program : Program) {runcount : Nat} (ram : Mem) (hpc : pc.Quiet)
    (hrun : runcount < 2 ^ 31) (h : pc.Accounts runcount done cpu.regEbx)
    (hacquired : pc = .testLock → cpu.regEax = 0) :
    (program.exec runcount cpu ram pc).int = none ∧
      (program.exec runcount cpu ram pc).pc = pc.advance runcount done := by
  cases pc
  case testI =>
    obtain ⟨hi, hle⟩ := h
    have htest := loopTest_iff hrun hle
    rw [← hi] at htest
    simp only [Program.exec, Pc.advance, htest]
    exact ⟨trivial, trivial⟩
  case testLock => simp [Program.exec, Pc.advance, hacquired rfl]
  case sysSetPriority => exact absurd rfl hpc
  case sysSetShare => exact absurd rfl hpc
  case sysSetLotteryTickets => exact absurd rfl hpc
  case sysYield => exact absurd rfl hpc
  case sysExit => exact absurd rfl hpc
  case hang => exact absurd rfl hpc
  all_goals exact ⟨rfl, rfl⟩

/-- Without a clock interrupt a step is an instruction of the process that runs. -/
theorem step_instr (hw : w.OnTrack apps alg) (hclock : t.clock = false)
    (hproc : w.config.proc? = some p) (ht : Tracks apps w p pc) :
    ∃ k cpu, w.config = .user p k cpu ∧ Running alg p k (k.procArray p).pRegisters ∧
      pc ≠ .hang ∧ w.step apps t = (w.record p cpu pc).finish apps t p k
        ((apps.program p).exec apps.runcount cpu k.ram pc) := by
  have hstep := hw.steps t
  generalize w.step apps t = w' at hstep ⊢
  cases hstep with
  | spinning hc =>
    rw [hc] at hproc
    cases hproc
  | clock htrue _ _ _ _ =>
    rw [hclock] at htrue
    cases htrue
  | @instr p' k cpu pc' _ hc hr ht' hpc =>
    have hp : p' = p := by
      rw [hc] at hproc
      exact Option.some.inj hproc
    subst hp
    obtain rfl : pc' = pc := Option.some.inj (ht'.decode.symm.trans ht.decode)
    exact ⟨k, cpu, hc, hr, hpc, rfl⟩

/-- A run without clock interrupts, in which the kernel always gets to the end of its search. -/
structure Undisturbed (apps : Apps) (scheduling_algorithm : Int32) (ram₀ : Mem)
    (ticks : Nat → Tick) (run : Nat → World) : Prop where
  step : ∀ n, run (n + 1) = (run n).step apps (ticks n)
  inv : ∀ n, (run n).Inv apps scheduling_algorithm ram₀
  clock : ∀ n, (ticks n).clock = false
  fuel : ∀ n, nprocs ≤ (ticks n).fuel
  runcount : apps.runcount < 2 ^ 31

namespace Undisturbed

variable {ram₀ : Mem} {ticks : Nat → Tick} {run : Nat → World} {n : Nat}
  (hrun : Undisturbed apps alg ram₀ ticks run)
include hrun

/-- While nobody is inside, the lock is free. -/
theorem lock_free (h : (run n).InTurn apps p turns pc done log)
    (hout : ∀ cpu, pc.phase cpu = .outside) : (run n).config.machine.lock = 0 := by
  refine (hrun.inv n).lock_free fun q => ?_
  by_cases hqp : q = p
  · rw [hqp, h.tracks.phase, hout]
  · rw [(h.others q hqp).phase, restPc_phase]

/-- **An instruction that does not enter the kernel.** -/
theorem quiet (h : (run n).InTurn apps p turns pc done log) (hpc : pc.Quiet) :
    (run (n + 1)).InTurn apps p turns (pc.advance apps.runcount done)
      (if pc = .releaseSwap then done + 1 else done)
      (if pc = .storeCell then log ++ [p] else log) := by
  obtain ⟨k, cpu, hw, hr, hhang, hstep⟩ :=
    step_instr (hrun.inv n).toOnTrack (hrun.clock n) h.active h.tracks
  have hm := moves_exec hrun.runcount h.tracks hw hhang
  have hregs : (run n).config.regs p = cpu := by simp [hw, Config.regs]
  have haccounts := h.tracks.accounts
  rw [h.completed, hregs] at haccounts
  obtain ⟨hint, hnext⟩ := exec_advance (apps.program p) k.ram hpc hrun.runcount haccounts
    (hregs ▸ h.acquired)
  rw [hrun.step, hstep]
  constructor
  · rw [finish_of_none hint]
    rfl
  · rw [← hnext]
    exact hm.tracks hr hw h.tracks
  · exact fun q hq => hm.tracks_of_ne hr hw hq (h.others q hq)
  · rw [finish_completed, record_completed, h.completed]
    simp
  · intro q hq
    rw [finish_completed, hm.others q hq, h.completed_others q hq]
  · rw [finish_written, ← h.log]
    cases pc
    case storeCell => simp [World.record]
    all_goals rfl
  · intro hlock
    have hacquire := advance_eq_testLock hlock
    subst hacquire
    have hfree := hrun.lock_free h fun _ => rfl
    rw [finish_regs hr (hm.config.trans hw), Function.update_self]
    rw [hw] at hfree
    exact hfree

/-- **A print.** From the lock on it takes six instructions. -/
theorem print (h : (run n).InTurn apps p turns .acquireSwap done log) :
    (run (n + 6)).InTurn apps p turns .sysYield (done + 1) (log ++ [p]) := by
  have h₁ : (run (n + 1)).InTurn apps p turns .testLock done log := hrun.quiet h (by decide)
  have h₂ : (run (n + 2)).InTurn apps p turns .loadCursorpos done log :=
    hrun.quiet h₁ (by decide)
  have h₃ : (run (n + 3)).InTurn apps p turns .storeCell done log := hrun.quiet h₂ (by decide)
  have h₄ : (run (n + 4)).InTurn apps p turns .storeCursorpos done (log ++ [p]) :=
    hrun.quiet h₃ (by decide)
  have h₅ : (run (n + 5)).InTurn apps p turns .releaseSwap done (log ++ [p]) :=
    hrun.quiet h₄ (by decide)
  exact hrun.quiet h₅ (by decide)

/-- From the test of the loop to the system call after it. -/
theorem loop (h : (run n).InTurn apps p turns .testI done log) :
    ∃ m, (run m).InTurn apps p turns (callPc apps.runcount (done + 3))
      (if done < apps.runcount then done + 1 else done)
      (if done < apps.runcount then log ++ [p] else log) := by
  have hnext := hrun.quiet h (by decide)
  simp only [Pc.advance, callPc] at hnext ⊢
  by_cases hlt : done < apps.runcount
  · simp only [hlt, if_true] at hnext ⊢
    exact ⟨_, hrun.print hnext⟩
  · simp only [hlt, if_false] at hnext ⊢
    exact ⟨_, hnext⟩

theorem begins (h : (run n).Implements apps ⟨turns, some p, log⟩) :
    Alive apps.runcount turns p := by
  obtain ⟨k, cpu, hw⟩ := Config.proc?_eq_some h.active
  have hvalid := (hrun.inv n).valid
  rw [hw] at hvalid
  have hr : Running alg p k (k.procArray p).pRegisters := hvalid
  rw [← (h.tracks p).runnable_iff, hw]
  exact hr.runnable

/-- A turn in the loop, up to the system call that ends it. -/
theorem call_loop (h : (run n).InTurn apps p turns (restPc apps.runcount (done + 3)) done log)
    (hle : done ≤ apps.runcount) (priority : Pid → Int32) :
    ∃ m, (run m).InTurn apps p turns (callPc apps.runcount (done + 3))
      (min apps.runcount (done + 1))
      (log ++ (applicationsRota alg apps.runcount priority).output p (done + 3)) := by
  have htest : (run (n + 1)).InTurn apps p turns .testI done log := by
    cases done with
    | zero =>
      have hinit : restPc apps.runcount (0 + 3) = .initI := rfl
      rw [hinit] at h
      exact hrun.quiet h (by decide)
    | succ d =>
      have hinc : restPc apps.runcount (d + 1 + 3) = .incI := if_pos hle
      rw [hinc] at h
      exact hrun.quiet h (by decide)
  obtain ⟨m, hm⟩ := hrun.loop htest
  refine ⟨m, ?_⟩
  by_cases hlt : done < apps.runcount
  · have hout : (applicationsRota alg apps.runcount priority).output p (done + 3) = [p] :=
      if_pos ⟨Nat.le_add_left 3 done, Nat.add_lt_add_right hlt 3⟩
    rw [hout, Nat.min_eq_right hlt]
    simpa [hlt] using hm
  · have hout : (applicationsRota alg apps.runcount priority).output p (done + 3) = [] :=
      if_neg fun hprints => hlt (Nat.lt_of_add_lt_add_right hprints.2)
    rw [hout, List.append_nil]
    obtain rfl : done = apps.runcount := Nat.le_antisymm hle (Nat.not_lt.mp hlt)
    simpa using hm

/-- The turn up to the system call that ends it. -/
theorem call (h : (run n).Implements apps ⟨turns, some p, log⟩) (priority : Pid → Int32) :
    ∃ m, (run m).InTurn apps p turns (callPc apps.runcount (turns p))
      (min apps.runcount (turns p + 1 - 3))
      (log ++ (applicationsRota alg apps.runcount priority).output p (turns p)) := by
  have halive := (hrun.begins h).2
  have hturn := h.inTurn
  generalize turns p = s at halive hturn ⊢
  by_cases hs : s < 3
  · -- before the loop the system call comes at once
    refine ⟨n, ?_⟩
    have hcall : callPc apps.runcount s = restPc apps.runcount s := by
      interval_cases s <;> rfl
    have hout : (applicationsRota alg apps.runcount priority).output p s = [] :=
      if_neg fun hprints => Nat.not_le.mpr hs hprints.1
    rw [hcall, hout, List.append_nil, show s + 1 - 3 = s - 3 by omega]
    exact hturn
  · obtain ⟨d, rfl⟩ := Nat.exists_eq_add_of_le' (Nat.not_lt.mp hs)
    rw [show d + 3 - 3 = d by omega, Nat.min_eq_right (by omega)] at hturn
    rw [show d + 3 + 1 - 3 = d + 1 by omega]
    exact hrun.call_loop hturn (by omega) priority

/-- **A system call** brings the world to the next state of the rota. -/
theorem served {o : Option Pid} (halg : alg = 0 ∨ alg = 1 ∨ alg = 2)
    (h : (run n).InTurn apps p turns (callPc apps.runcount (turns p))
      (min apps.runcount (turns p + 1 - 3)) log)
    (ho : Chooses ((applicationsRota alg apps.runcount
      fun p => (apps.program p).priority).Candidate (bump turns p)) p o) :
    (run (n + 1)).Implements apps ⟨bump turns p, o, log⟩ := by
  obtain ⟨k, cpu, hw, hr, hhang, hstep⟩ :=
    step_instr (hrun.inv n).toOnTrack (hrun.clock n) h.active h.tracks
  obtain ⟨⟨intno, hint⟩, hpc⟩ :=
    exec_callPc (apps.program p) apps.runcount (turns p) cpu k.ram
  obtain ⟨hcell, hrelease⟩ := callPc_ne apps.runcount (turns p)
  have hm := moves_exec hrun.runcount h.tracks hw hhang
  have htracks : ∀ q, Tracks apps (run (n + 1)) q
      (restPc apps.runcount (bump turns p q)) := by
    intro q
    rw [hrun.step, hstep]
    by_cases hq : q = p
    · subst hq
      rw [bump_self, ← hpc]
      exact hm.tracks hr hw h.tracks
    · rw [bump_of_ne _ hq]
      exact hm.tracks_of_ne hr hw hq (h.others q hq)
  obtain ⟨trap, htrap, hserved, hfuel⟩ := exists_trap (ticks n) (hm.config.trans hw) hint
    (exec_served hint)
  rw [← hstep, ← hrun.step] at htrap
  constructor
  · rw [htrap]
    refine trap_chooses halg trap hr hserved (hfuel ▸ hrun.fuel n) ?_
    rw [candidate_call htrap htracks]
    exact ho
  · exact htracks
  · intro q
    rw [hrun.step, hstep, finish_completed, record_completed, if_neg fun he => hrelease he.1]
    show (run n).completed q = min apps.runcount (bump turns p q - 3)
    by_cases hq : q = p
    · rw [hq, bump_self, h.completed]
    · rw [bump_of_ne _ hq, h.completed_others q hq]
  · rw [hrun.step, hstep, finish_written, record_written hcell, h.log]

/-- **One turn of the rota.** -/
theorem turn {s s' : Rota.State nprocs Pid} (halg : alg = 0 ∨ alg = 1 ∨ alg = 2)
    (h : (run n).Implements apps s)
    (hturn : (applicationsRota alg apps.runcount fun p => (apps.program p).priority).Turn s s') :
    ∃ m, (run m).Implements apps s' := by
  cases hturn with
  | turn ho =>
    obtain ⟨m, hm⟩ := hrun.call h fun p => (apps.program p).priority
    exact ⟨m + 1, hrun.served halg hm ho⟩

/-- **The run is a run of the rota.** -/
theorem reaches {s s' : Rota.State nprocs Pid} (halg : alg = 0 ∨ alg = 1 ∨ alg = 2)
    (h : (run n).Implements apps s)
    (hreaches : (applicationsRota alg apps.runcount
      fun p => (apps.program p).priority).Reaches s s') :
    ∃ m, (run m).Implements apps s' := by
  induction hreaches with
  | refl => exact ⟨n, h⟩
  | tail _ hturn ih =>
    obtain ⟨m, hm⟩ := ih
    exact hrun.turn halg hm hturn

end Undisturbed

/-! ## The whole run -/

/-- What a run has come to in `w` when the processes have printed in the order `writers`; `ram₀`
is the memory that they found. -/
structure Transcribed (apps : Apps) (ram₀ : Mem) (writers : List Pid) (w : World) : Prop where
  /-- Nobody is runnable. -/
  stopped : w.config.proc? = none ∧ ∀ p, ¬ w.config.machine.Runnable p
  exited : ∀ p, p ≠ 0 → (w.config.machine.procArray p).pState = .pZombie ∧
    (w.config.machine.procArray p).pExitStatus = 0
  /-- The cells have been written one after the other, from the first one on. -/
  written : w.written = writers.zip ((List.range writers.length).map cellAddr)
  printed : ((List.range writers.length).map fun i => readU16 w.config.machine.ram (cellAddr i))
    = writers.map fun p => (apps.program p).printchar
  unwritten : ∀ i, writers.length ≤ i → i < 2000 →
    readU16 w.config.machine.ram (cellAddr i) = readU16 ram₀ (cellAddr i)

theorem World.Implements.transcribed {ram₀ : Mem} (h : w.Implements apps ⟨turns, none, log⟩)
    (hinv : w.Inv apps alg ram₀) (hturns : ∀ q, q ≠ 0 → turns q = apps.runcount + 4)
    (hstatus : ∀ q, (w.config.machine.procArray q).pExitStatus = 0) :
    Transcribed apps ram₀ log w := by
  have hlog : w.written.map Prod.fst = log := h.log
  have hlength : w.written.length = log.length := by
    rw [← hlog, List.length_map]
  have hhang : ∀ q, q ≠ 0 → restPc apps.runcount (turns q) = .hang := fun q hq =>
    restPc_eq_hang.mpr (Nat.le_of_eq (hturns q hq).symm)
  constructor
  · refine ⟨h.active, fun q hq => ?_⟩
    have halive : Alive apps.runcount turns q := (h.tracks q).runnable_iff.mp hq
    have hlt := halive.2
    rw [hturns q halive.1] at hlt
    exact Nat.lt_irrefl _ hlt
  · intro q hq
    refine ⟨?_, hstatus q⟩
    rw [(h.tracks q).pState]
    exact if_pos (hhang q hq)
  · refine List.zip_of_prod hlog ?_
    rw [hinv.slots, hlength]
  · rw [← hlength, hinv.cells, hlog]
  · rw [← hlength]
    exact hinv.blank

section Runs

variable {ramimages : Fin 4 → Ramimage} {k₀ : Machine} {program : Pid → Program} {runcount : Nat}

/-- The world begins where the rota begins. -/
theorem boot_implements (hboot : (start ramimages alg k₀).proc? ≠ none) :
    (World.boot (start ramimages alg k₀)).Implements
      (.load program runcount (start ramimages alg k₀)) ⟨fun _ => 0, some 1, []⟩ where
  active := by
    obtain ⟨k, hk, -⟩ := start_booted hboot
    show (start ramimages alg k₀).proc? = some 1
    rw [hk]
    rfl
  tracks q := boot_tracks program runcount hboot q
  completed q := (Nat.min_eq_right (Nat.zero_le _)).symm
  log := rfl

/-- A world in which no process runs stays as it is. -/
theorem world_stopped {ticks : Nat → Tick} {m n : Nat}
    (h : (world program runcount (start ramimages alg k₀) ticks m).config.proc? = none)
    (hmn : m ≤ n) : world program runcount (start ramimages alg k₀) ticks n
      = world program runcount (start ramimages alg k₀) ticks m := by
  refine states_invariant_from (I := fun w => w = world program runcount
    (start ramimages alg k₀) ticks m) (fun t w hw => ?_) hmn rfl
  rw [hw]
  unfold World.step
  cases hc : (world program runcount (start ramimages alg k₀) ticks m).config with
  | spinning k => rfl
  | user p k cpu =>
    rw [hc] at h
    cases h

end Runs

/-- **The transcript of a run.** Without clock interrupts, the four applications run until none
of them is runnable. Then all of them have exited with status 0, and the console shows their
characters in the order of `transcript`. -/
theorem system_transcript (ramimages : Fin 4 → Ramimage) (alg : Int32) (k₀ : Machine)
    (program : Pid → Program) (runcount : Nat) (ticks : Nat → Tick)
    (halg : alg = 0 ∨ alg = 1 ∨ alg = 2)
    (hpriority : ∀ p, p ≠ 0 → (program p).priority = (shippedDefines p).priority)
    (hrun : 4 * runcount ≤ 2000) (hclock : ∀ n, (ticks n).clock = false)
    (hfuel : ∀ n, nprocs ≤ (ticks n).fuel) (hboot : (start ramimages alg k₀).proc? ≠ none)
    (hlock : (start ramimages alg k₀).machine.lock = 0) :
    ∃ N, (∀ n, n < N → (world program runcount (start ramimages alg k₀) ticks
        n).config.proc? ≠ none) ∧
      ∀ n, N ≤ n → Transcribed (.load program runcount (start ramimages alg k₀))
        (start ramimages alg k₀).machine.ram (transcript alg runcount)
        (world program runcount (start ramimages alg k₀) ticks n) := by
  have hknown : KnownAlgorithm alg := by
    rcases halg with h | h | h
    · exact Or.inl h
    · exact Or.inr (Or.inl h)
    · exact Or.inr (Or.inr (Or.inl h))
  have hinv := world_inv program hknown hrun hboot hlock ticks
  have hundisturbed : Undisturbed (.load program runcount (start ramimages alg k₀)) alg
      (start ramimages alg k₀).machine.ram ticks
      (world program runcount (start ramimages alg k₀) ticks) :=
    ⟨world_succ program runcount _ ticks, hinv, hclock, hfuel, show runcount < 2 ^ 31 by omega⟩
  obtain ⟨m, hm⟩ := hundisturbed.reaches (n := 0) halg (boot_implements hboot)
    (reaches_transcript runcount hpriority halg)
  have hend : ∃ n, (world program runcount (start ramimages alg k₀) ticks n).config.proc? = none :=
    ⟨m, hm.active⟩
  refine ⟨Nat.find hend, fun n hn => Nat.find_min hend hn, fun n hn => ?_⟩
  -- from its first end on, the run has been where it is in the end
  have hsame : world program runcount (start ramimages alg k₀) ticks n
      = world program runcount (start ramimages alg k₀) ticks m :=
    (world_stopped (Nat.find_spec hend) hn).trans
      (world_stopped (Nat.find_spec hend) (Nat.find_min' hend hm.active)).symm
  rw [hsame]
  have hturns : ∀ q : Pid, q ≠ 0 → turnCounts (runcount + 4) (runcount + 4) (runcount + 4)
      (runcount + 4) q = runcount + 4 := by
    simp [forall_pid, turnCounts]
  exact hm.transcribed (hinv m) hturns (world_pExitStatus program (by omega) hboot ticks m)

theorem system_transcript_shipped :
    ∃ N, (∀ n, n < N → (world shippedProgram shippedRuncount (start bareImages 0 bareMachine)
        (fun _ => ⟨false, fun _ => 0, nprocs⟩) n).config.proc? ≠ none) ∧
      ∀ n, N ≤ n → Transcribed
        (.load shippedProgram shippedRuncount (start bareImages 0 bareMachine))
        (start bareImages 0 bareMachine).machine.ram (transcript 0 shippedRuncount)
        (world shippedProgram shippedRuncount (start bareImages 0 bareMachine)
          (fun _ => ⟨false, fun _ => 0, nprocs⟩) n) :=
  system_transcript bareImages 0 bareMachine shippedProgram shippedRuncount _ (Or.inl rfl)
    (fun _ _ => rfl) (by decide) (fun _ => rfl) (fun _ => Nat.le_refl _) (bare_proc? 0)
    (start_bare_lock 0)

end SchedOS
