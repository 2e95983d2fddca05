import SchedOS.App.World
import SchedOS.Properties.Interrupt

/-!
# Where the applications are

Each application stays in its program: whatever the order of steps, the registers with which it
goes on point to one of its instructions, and that instruction tells how many prints it has
completed, whether it is runnable and which priority it has (`Tracks`).

Of what the kernel does, a program sees nothing. `finish_regs`, `finish_ram`, `finish_pState`,
`finish_pPriority` and `finish_pExitStatus` say what one instruction, with or without a call of
the kernel, does to the registers of all processes, to the memory and to the table; the proofs
below use nothing else.
-/

namespace SchedOS

open Infra

variable {alg : Int32} {apps : Apps} {t : Tick} {p q : Pid} {k : Machine} {cpu : Registers}
  {e : Exec} {w : World}

/-! ## Entering the kernel -/

/-- What holds of a configuration while a process runs that has gone on since the kernel
dispatched it. -/
def Config.Valid (scheduling_algorithm : Int32) : Config → Prop
  | .user p k _ => Running scheduling_algorithm p k (k.procArray p).pRegisters
  | .spinning _ => True

theorem Config.Ok.valid {c : Config} (h : c.Ok alg) : c.Valid alg := by
  cases c with
  | spinning k => trivial
  | user p k cpu =>
    have hr : Running alg p k cpu := h
    rw [hr.cpu] at hr
    exact hr

/-- Fresh from the kernel, a process has the registers of its descriptor. -/
theorem Config.Ok.regs {c : Config} (h : c.Ok alg) (q : Pid) :
    c.regs q = (c.machine.procArray q).pRegisters := by
  cases c with
  | spinning k => rfl
  | user p k cpu =>
    have hr : Running alg p k cpu := h
    simp only [Config.regs]
    split
    · next hq => rw [hq, hr.cpu]; rfl
    · rfl

variable (hr : Running alg p k (k.procArray p).pRegisters)
include hr

theorem ok_trap_user (t : Trap) : ((Config.user p k cpu).trap t).Ok alg :=
  ok_trap t (.user p k (k.procArray p).pRegisters) hr

/-- The registers of every process survive in the kernel. -/
theorem trap_regs (t : Trap) : ((Config.user p k cpu).trap t).regs
    = Function.update (Config.user p k cpu).regs p t.reg := by
  funext q
  rw [(ok_trap_user hr t).regs, trap_field t p k cpu Process.pRegisters (fun _ => rfl)]
  by_cases hq : q = p
  · rw [hq, Function.update_self, ← hr.current, Trap.call_self]
    rfl
  · rw [Function.update_of_ne hq, Trap.call_of_ne (hr.current ▸ hq)]
    simp [Config.regs, hq]

theorem trap_pState (t : Trap) (q : Pid) :
    (((Config.user p k cpu).trap t).machine.procArray q).pState
      = if t.reg.regIntno = intSysExit ∧ q = p then .pZombie else (k.procArray q).pState := by
  rw [trap_field t p k cpu Process.pState (fun _ => rfl)]
  by_cases hq : q = p
  · rw [hq, ← hr.current, Trap.call_self]
    simp [Process.served]
  · rw [Trap.call_of_ne (hr.current ▸ hq)]
    simp [hq]

theorem trap_pPriority (t : Trap) (q : Pid) :
    (((Config.user p k cpu).trap t).machine.procArray q).pPriority
      = if t.reg.regIntno = intSysUser1 ∧ q = p then t.reg.regEax.toInt32
        else (k.procArray q).pPriority := by
  rw [trap_field t p k cpu Process.pPriority (fun _ => rfl), Trap.call_pPriority, hr.current]

theorem trap_pExitStatus (t : Trap) (q : Pid) :
    (((Config.user p k cpu).trap t).machine.procArray q).pExitStatus
      = if t.reg.regIntno = intSysExit ∧ q = p then t.reg.regEax.toInt32
        else (k.procArray q).pExitStatus := by
  rw [trap_field t p k cpu Process.pExitStatus (fun _ => rfl)]
  by_cases hq : q = p
  · rw [hq, ← hr.current, Trap.call_self]
    simp [Process.served]
  · rw [Trap.call_of_ne (hr.current ▸ hq)]
    simp [hq]

omit hr

/-! ## The end of an instruction -/

theorem finish_of_none (hint : e.int = none) : w.finish apps t p k e
    = { w with config := .user p { k with ram := e.ram } (apps.resume p e) } := by
  simp only [World.finish, hint]

theorem finish_of_some {intno : UInt32} (hint : e.int = some intno) :
    w.finish apps t p k e = w.trap ⟨apps.resume p e, e.ram, t.tsc, t.fuel⟩ := by
  simp only [World.finish, hint]

theorem finish_config {intno : UInt32} (hint : e.int = some intno)
    (hw : w.config = .user p k cpu) : (w.finish apps t p k e).config
      = (Config.user p k cpu).trap ⟨apps.resume p e, e.ram, t.tsc, t.fuel⟩ := by
  rw [finish_of_some hint, World.trap, hw]

include hr

variable (hw : w.config = .user p k cpu)
include hw

theorem finish_valid : (w.finish apps t p k e).config.Valid alg := by
  cases hint : e.int with
  | none =>
    rw [finish_of_none hint]
    exact ⟨hr.current, hr.algorithm, hr.pPid, hr.slot_zero, hr.runnable, rfl⟩
  | some intno =>
    rw [finish_config hint hw]
    exact (ok_trap_user hr _).valid

theorem finish_regs :
    (w.finish apps t p k e).config.regs
      = Function.update w.config.regs p (apps.resume p e) := by
  cases hint : e.int with
  | none =>
    rw [finish_of_none hint, hw]
    funext q
    by_cases hq : q = p <;> simp [Config.regs, hq]
  | some intno =>
    rw [finish_config hint hw, hw]
    exact trap_regs hr _

theorem finish_pState (q : Pid) :
    ((w.finish apps t p k e).config.machine.procArray q).pState
      = if e.int = some intSysExit ∧ q = p then .pZombie
        else (w.config.machine.procArray q).pState := by
  cases hint : e.int with
  | none =>
    rw [finish_of_none hint, hw]
    simp
  | some intno =>
    rw [finish_config hint hw, hw]
    simp [trap_pState hr, Apps.resume, hint]

theorem finish_pPriority (q : Pid) :
    ((w.finish apps t p k e).config.machine.procArray q).pPriority
      = if e.int = some intSysUser1 ∧ q = p then e.cpu.regEax.toInt32
        else (w.config.machine.procArray q).pPriority := by
  cases hint : e.int with
  | none =>
    rw [finish_of_none hint, hw]
    simp
  | some intno =>
    rw [finish_config hint hw, hw]
    simp [trap_pPriority hr, Apps.resume, Apps.goto, hint]

theorem finish_pExitStatus (q : Pid) :
    ((w.finish apps t p k e).config.machine.procArray q).pExitStatus
      = if e.int = some intSysExit ∧ q = p then e.cpu.regEax.toInt32
        else (w.config.machine.procArray q).pExitStatus := by
  cases hint : e.int with
  | none =>
    rw [finish_of_none hint, hw]
    simp
  | some intno =>
    rw [finish_config hint hw, hw]
    simp [trap_pExitStatus hr, Apps.resume, Apps.goto, hint]

/-- The programs do not use `sys_atomic_print`. -/
theorem finish_ram (hknown : KnownAlgorithm alg) (hprint : e.int ≠ some intSysAtomicPrint) :
    (w.finish apps t p k e).config.machine.ram = e.ram := by
  cases hint : e.int with
  | none => rw [finish_of_none hint, Config.machine_user]
  | some intno =>
    rw [finish_config hint hw]
    refine trap_ram _ p k cpu (hr.algorithm ▸ hknown) fun hn => hprint ?_
    rw [hint, ← hn]
    simp [Apps.resume, hint]

omit hr hw

@[simp] theorem finish_written : (w.finish apps t p k e).written = w.written := by
  cases hint : e.int with
  | none => rw [finish_of_none hint]
  | some intno => rw [finish_of_some hint, World.trap]

@[simp] theorem finish_completed : (w.finish apps t p k e).completed = w.completed := by
  cases hint : e.int with
  | none => rw [finish_of_none hint]
  | some intno => rw [finish_of_some hint, World.trap]

@[simp] theorem record_config (pc : Pc) : (w.record p cpu pc).config = w.config := by
  cases pc <;> rfl

@[simp] theorem record_dispatched (pc : Pc) :
    (w.record p cpu pc).dispatched = w.dispatched := by
  cases pc <;> rfl

theorem record_completed (pc : Pc) (q : Pid) : (w.record p cpu pc).completed q
    = if pc = .releaseSwap ∧ q = p then w.completed q + 1 else w.completed q := by
  cases pc
  case releaseSwap =>
    by_cases hq : q = p
    · simp [World.record, hq]
    · simp [World.record, hq]
  all_goals rfl

/-! ## Instructions -/

/-- What the instruction at which a process is tells about `i` and the completed prints. -/
def Pc.Accounts (runcount done : Nat) (i : UInt32) : Pc → Prop
  | .sysSetPriority => done = 0
  | .sysSetShare => done = 0
  | .sysSetLotteryTickets => done = 0
  | .initI => done = 0
  | .testI => i = UInt32.ofNat done ∧ done ≤ runcount
  -- the print has been counted, `i++` is still to come
  | .sysYield => i + 1 = UInt32.ofNat done ∧ done ≤ runcount
  | .incI => i + 1 = UInt32.ofNat done ∧ done ≤ runcount
  | .sysExit => done = runcount
  | .hang => done = runcount
  | _ => i = UInt32.ofNat done ∧ done < runcount

section Exec

variable {program : Program} {runcount done : Nat} {ram : Mem} {pc : Pc}

/-- The test of the loop compares signed numbers; a print count is small enough for that. -/
theorem loopTest_iff (hrun : runcount < 2 ^ 31) (hdone : done ≤ runcount) :
    (UInt32.ofNat done).toInt32 < Int32.ofNat runcount ↔ done < runcount := by
  rw [UInt32.toInt32_ofNat', Int32.lt_iff_toInt_lt, Int32.toInt_ofNat_of_lt hrun,
    Int32.toInt_ofNat_of_lt (by omega)]
  omega

theorem exec_accounts (hrun : runcount < 2 ^ 31) (h : pc.Accounts runcount done cpu.regEbx) :
    (program.exec runcount cpu ram pc).pc.Accounts runcount
      (if pc = .releaseSwap then done + 1 else done)
      (program.exec runcount cpu ram pc).cpu.regEbx := by
  cases pc
  case testI =>
    obtain ⟨hi, hle⟩ := h
    have htest := loopTest_iff hrun hle
    rw [← hi] at htest
    by_cases hlt : cpu.regEbx.toInt32 < Int32.ofNat runcount
    · simp only [Program.exec, hlt, if_true]
      exact ⟨hi, htest.mp hlt⟩
    · simp only [Program.exec, hlt, if_false]
      exact Nat.le_antisymm hle (Nat.not_lt.mp fun hdone => hlt (htest.mpr hdone))
  case testLock =>
    by_cases hval : cpu.regEax = 0
    · simp only [Program.exec, hval, ne_eq, not_true_eq_false, if_false]
      exact h
    · simp only [Program.exec, hval, ne_eq, not_false_eq_true, if_true]
      exact h
  -- nothing has been printed yet, and `i` becomes 0
  case initI => exact ⟨by simp [Program.exec, show done = 0 from h], by simp [show done = 0 from h]⟩
  -- the print counts from here on, `i` is incremented later
  case releaseSwap =>
    obtain ⟨hi, hlt⟩ := h
    refine ⟨?_, hlt⟩
    simp [Program.exec, hi, UInt32.ofNat_add]
  all_goals exact h

theorem exec_int_ne : (program.exec runcount cpu ram pc).int ≠ some intSysAtomicPrint := by
  cases pc <;> simp [Program.exec, intSysUser1, intSysUser2, intSysSetLottery, intSysYield,
    intSysExit, intSysAtomicPrint]

/-- The kernel knows every interrupt that a program causes. -/
theorem exec_served {intno : UInt32} (h : (program.exec runcount cpu ram pc).int = some intno) :
    Served intno := by
  cases pc
  case sysSetPriority => cases h; decide
  case sysSetShare => cases h; decide
  case sysSetLotteryTickets => cases h; decide
  case sysYield => cases h; decide
  case sysExit => cases h; decide
  all_goals cases h

/-- A process gets to the final loop by `sys_exit` only. -/
theorem exec_exit_iff (hpc : pc ≠ .hang) :
    (program.exec runcount cpu ram pc).int = some intSysExit ↔
      (program.exec runcount cpu ram pc).pc = .hang := by
  cases pc
  case hang => exact absurd rfl hpc
  case testI => simp only [Program.exec]; split <;> simp
  case testLock => simp only [Program.exec]; split <;> simp
  all_goals simp [Program.exec, intSysUser1, intSysUser2, intSysSetLottery, intSysYield,
    intSysExit]

/-- The first instruction sets the priority … -/
theorem exec_user1_iff : (program.exec runcount cpu ram pc).int = some intSysUser1 ↔
    pc = .sysSetPriority := by
  cases pc <;> simp [Program.exec, intSysUser1, intSysUser2, intSysSetLottery, intSysYield,
    intSysExit]

/-- … and is executed only once. -/
theorem exec_pc_ne : (program.exec runcount cpu ram pc).pc ≠ .sysSetPriority := by
  cases pc
  case testI => simp only [Program.exec]; split <;> simp
  case testLock => simp only [Program.exec]; split <;> simp
  all_goals simp [Program.exec]

end Exec

/-! ## The position of a process -/

/-- Process `p` is at the instruction `pc`, with all that follows from that. -/
structure Tracks (apps : Apps) (w : World) (p : Pid) (pc : Pc) : Prop where
  decode : apps.decode p (w.config.regs p) = some pc
  accounts : pc.Accounts apps.runcount (w.completed p) (w.config.regs p).regEbx
  pState : (w.config.machine.procArray p).pState
    = if pc = .hang then .pZombie else if p = 0 then .pEmpty else .pRunnable
  pPriority : (w.config.machine.procArray p).pPriority
    = if pc = .sysSetPriority then 0 else (apps.program p).priority
  /-- Entry 0 of the table never runs. -/
  idle : p = 0 → pc = .sysSetPriority

/-- An action of process `p` that takes it from `pc` to `e` without getting lost. -/
structure Moves (apps : Apps) (w w' : World) (p : Pid) (pc : Pc) (e : Exec) : Prop where
  accounts : e.pc.Accounts apps.runcount (w'.completed p) e.cpu.regEbx
  others : ∀ q, q ≠ p → w'.completed q = w.completed q
  config : w'.config = w.config
  exit_iff : e.int = some intSysExit ↔ e.pc = .hang
  /-- A priority is set between the first and the second instruction, and nowhere else. -/
  user1 : e.int = some intSysUser1 → pc = .sysSetPriority ∧ e.pc = .sysSetShare ∧
    e.cpu.regEax.toInt32 = (apps.program p).priority
  not_user1 : e.int ≠ some intSysUser1 → (e.pc = .sysSetPriority ↔ pc = .sysSetPriority)

section Tracks

variable {w' : World} {pc pc' : Pc}

/-- A process that runs has not exited. -/
theorem Tracks.ne_hang (h : Tracks apps w p pc)
    (hr : w.config.machine.Runnable p) : pc ≠ .hang := by
  rintro rfl
  have hstate := h.pState
  unfold Machine.Runnable at hr
  simp [hr] at hstate

theorem moves_clock (h : Tracks apps w p pc) (hw : w.config = .user p k cpu) (hpc : pc ≠ .hang) :
    Moves apps w w p pc ⟨pc, cpu, k.ram, some intClock⟩ where
  accounts := by simpa [hw, Config.regs] using h.accounts
  others _ _ := rfl
  config := rfl
  exit_iff := by simp [hpc, intClock, intSysExit]
  user1 := by simp [intClock, intSysUser1]
  not_user1 _ := Iff.rfl

theorem moves_exec (hrun : apps.runcount < 2 ^ 31) (h : Tracks apps w p pc)
    (hw : w.config = .user p k cpu) (hpc : pc ≠ .hang) :
    Moves apps w (w.record p cpu pc) p pc
      ((apps.program p).exec apps.runcount cpu k.ram pc) where
  accounts := by
    have haccounts := h.accounts
    rw [hw] at haccounts
    simpa [record_completed] using exec_accounts hrun (by simpa [Config.regs] using haccounts)
  others q hq := by simp [record_completed, hq]
  config := record_config pc
  exit_iff := exec_exit_iff hpc
  user1 hint := by
    rw [exec_user1_iff] at hint
    subst hint
    exact ⟨rfl, rfl, rfl⟩
  not_user1 hint := by
    rw [Ne, exec_user1_iff] at hint
    simp [hint, exec_pc_ne]

variable (hr : Running alg p k (k.procArray p).pRegisters) (hw : w.config = .user p k cpu)
  (hm : Moves apps w w' p pc e)
include hr hw hm

/-- The process that moves … -/
theorem Moves.tracks (h : Tracks apps w p pc) : Tracks apps (w'.finish apps t p k e) p e.pc := by
  have hw' : w'.config = .user p k cpu := hm.config.trans hw
  have hpc : pc ≠ .hang := h.ne_hang (by rw [hw]; exact hr.runnable)
  constructor
  · rw [finish_regs hr hw', Function.update_self, Apps.decode_resume]
  · rw [finish_regs hr hw', Function.update_self, Apps.resume_regEbx, finish_completed]
    exact hm.accounts
  · rw [finish_pState hr hw', hm.config, h.pState]
    simp [hm.exit_iff, hpc]
  · rw [finish_pPriority hr hw', hm.config, h.pPriority]
    by_cases hint : e.int = some intSysUser1
    · obtain ⟨-, he, hpriority⟩ := hm.user1 hint
      simp [hint, he, hpriority]
    · simp [hint, hm.not_user1 hint]
  · intro hp
    exact absurd hp hr.ne_zero

/-- … and the others, which do not notice. -/
theorem Moves.tracks_of_ne (hq : q ≠ p) (h : Tracks apps w q pc') :
    Tracks apps (w'.finish apps t p k e) q pc' := by
  have hw' : w'.config = .user p k cpu := hm.config.trans hw
  have hregs : (w'.finish apps t p k e).config.regs q = w.config.regs q := by
    rw [finish_regs hr hw', Function.update_of_ne hq, hm.config]
  constructor
  · rw [hregs, h.decode]
  · rw [hregs, finish_completed, hm.others q hq]
    exact h.accounts
  · rw [finish_pState hr hw', hm.config, if_neg fun he => hq he.2, h.pState]
  · rw [finish_pPriority hr hw', hm.config, if_neg fun he => hq he.2, h.pPriority]
  · exact h.idle

end Tracks

/-! ## Steps of the world -/

/-- What is known of the world at any time. -/
structure World.OnTrack (apps : Apps) (scheduling_algorithm : Int32) (w : World) : Prop where
  valid : w.config.Valid scheduling_algorithm
  tracks : ∀ p, ∃ pc, Tracks apps w p pc

/-- What a step can do: nothing once the kernel spins, and else it is a move of the process
that runs, with the record of it. -/
inductive World.Steps (apps : Apps) (alg : Int32) (t : Tick) (w : World) : World → Prop where
  | spinning {k : Machine} (hw : w.config = .spinning k) : Steps apps alg t w w
  | clock {p : Pid} {k : Machine} {cpu : Registers} {pc : Pc} (hclock : t.clock = true)
    (hw : w.config = .user p k cpu) (hr : Running alg p k (k.procArray p).pRegisters)
    (ht : Tracks apps w p pc) (hpc : pc ≠ .hang) :
    Steps apps alg t w (w.finish apps t p k ⟨pc, cpu, k.ram, some intClock⟩)
  | instr {p : Pid} {k : Machine} {cpu : Registers} {pc : Pc} (hclock : t.clock = false)
    (hw : w.config = .user p k cpu) (hr : Running alg p k (k.procArray p).pRegisters)
    (ht : Tracks apps w p pc) (hpc : pc ≠ .hang) :
    Steps apps alg t w ((w.record p cpu pc).finish apps t p k
      ((apps.program p).exec apps.runcount cpu k.ram pc))

/-- **A step is a move of the process that runs.** -/
theorem World.OnTrack.steps (h : w.OnTrack apps alg) (t : Tick) :
    World.Steps apps alg t w (w.step apps t) := by
  cases hw : w.config with
  | spinning k =>
    rw [World.step, hw]
    exact .spinning hw
  | user p k cpu =>
    obtain ⟨pc, ht⟩ := h.tracks p
    have hr : Running alg p k (k.procArray p).pRegisters := by
      have hvalid := h.valid
      rwa [hw] at hvalid
    have hdecode : apps.decode p cpu = some pc := by
      have hdecode := ht.decode
      simpa [hw, Config.regs] using hdecode
    have hpc : pc ≠ .hang := ht.ne_hang (by rw [hw]; exact hr.runnable)
    rw [World.step, hw]
    simp only [hdecode]
    split
    · next hclock => exact .clock hclock hw hr ht hpc
    · next hclock => exact .instr (by simpa using hclock) hw hr ht hpc

theorem Moves.onTrack {w' : World} {pc : Pc} (h : w.OnTrack apps alg)
    (hr : Running alg p k (k.procArray p).pRegisters) (hw : w.config = .user p k cpu)
    (ht : Tracks apps w p pc) (hm : Moves apps w w' p pc e) :
    (w'.finish apps t p k e).OnTrack apps alg where
  valid := finish_valid hr (hm.config.trans hw)
  tracks q := by
    by_cases hq : q = p
    · subst hq
      exact ⟨e.pc, hm.tracks hr hw ht⟩
    · obtain ⟨pc', ht'⟩ := h.tracks q
      exact ⟨pc', hm.tracks_of_ne hr hw hq ht'⟩

/-- **No process gets lost.** -/
theorem World.Steps.onTrack {w' : World} (hstep : World.Steps apps alg t w w')
    (hrun : apps.runcount < 2 ^ 31) (h : w.OnTrack apps alg) : w'.OnTrack apps alg := by
  cases hstep with
  | spinning _ => exact h
  | clock _ hw hr ht hpc => exact (moves_clock ht hw hpc).onTrack h hr hw ht
  | instr _ hw hr ht hpc => exact (moves_exec hrun ht hw hpc).onTrack h hr hw ht

section Boot

variable {ramimages : Fin 4 → Ramimage} {k₀ : Machine}

theorem boot_valid : (World.boot (start ramimages alg k₀)).config.Valid alg :=
  (ok_start ramimages alg k₀).valid

/-- `start` leaves every process at its first instruction. -/
theorem boot_tracks (program : Pid → Program) (runcount : Nat)
    (hboot : (start ramimages alg k₀).proc? ≠ none) (p : Pid) :
    Tracks (.load program runcount (start ramimages alg k₀))
      (World.boot (start ramimages alg k₀)) p .sysSetPriority := by
  have hok := ok_start ramimages alg k₀
  obtain ⟨k, hk, hb⟩ := start_booted hboot
  rw [hk] at hok ⊢
  constructor
  · rw [World.boot, hok.regs]
    exact Apps.decode_eq_some (by simp [Apps.load, (program p).entry])
  · rfl
  · show (k.procArray p).pState = _
    by_cases hp : p = 0
    · rw [hp, hb.slot_zero]
      rfl
    · obtain ⟨entry, hproc⟩ := hb.proc
      rw [hproc p hp]
      simp [bootProcess, hp]
  · show (k.procArray p).pPriority = _
    rw [hb.field Process.pPriority rfl (fun _ _ => rfl) p]
    rfl
  · exact fun _ => rfl

theorem world_onTrack (program : Pid → Program) {runcount : Nat} (hrun : runcount < 2 ^ 31)
    (hboot : (start ramimages alg k₀).proc? ≠ none) (ticks : Nat → Tick) (n : Nat) :
    (world program runcount (start ramimages alg k₀) ticks n).OnTrack
      (.load program runcount (start ramimages alg k₀)) alg :=
  states_invariant (fun t _ h => (h.steps t).onTrack hrun h)
    ⟨boot_valid, fun p => ⟨.sysSetPriority, boot_tracks program runcount hboot p⟩⟩ n

theorem world_steps (program : Pid → Program) {runcount : Nat} (hrun : runcount < 2 ^ 31)
    (hboot : (start ramimages alg k₀).proc? ≠ none) (ticks : Nat → Tick) (n : Nat) :
    World.Steps (.load program runcount (start ramimages alg k₀)) alg (ticks n)
      (world program runcount (start ramimages alg k₀) ticks n)
      (world program runcount (start ramimages alg k₀) ticks (n + 1)) := by
  rw [world_succ]
  exact (world_onTrack program hrun hboot ticks n).steps (ticks n)

end Boot

end SchedOS
