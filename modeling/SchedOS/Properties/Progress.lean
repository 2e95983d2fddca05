import SchedOS.Properties.Inversion
import SchedOS.Properties.Transcript
import SchedOS.Infra.Progress

/-!
# The applications come to an end

That nothing goes wrong on the way (`Properties.Printing`) does not say that the applications ever
get anywhere: a process that waits for the lock runs in a circle, and a clock interrupt may hit the
process that has the lock again and again. Every instruction but those of a vain attempt at the
lock counts as progress, of which there is only so much. So in a run that does not end, nobody
makes any progress from some time on (`Stalled`): all who run wait for the lock, and then nobody
has it.

* `fair_run_ends` — under every algorithm, if nobody who is runnable is left out for ever
* `clocked_run_ends` — under algorithms 0, 1 and 2, if the clock keeps ticking and leaves time for
  an instruction in between
-/

namespace SchedOS

open Infra Filter

variable {alg : Int32} {apps : Apps} {t : Tick} {p q : Pid} {k : Machine} {cpu : Registers}
  {e : Exec} {w w' : World} {pc pc' : Pc} {ram : Mem}

/-! ## How far a process has got -/

/-- The number of instructions that have brought a process to where it is, with `done` prints
completed. Looking for the lock in vain does not count. -/
def Pc.progress (done : Nat) (cpu : Registers) : Pc → Nat
  | .sysSetPriority => 0
  | .sysSetShare => 1
  | .sysSetLotteryTickets => 2
  | .initI => 3
  -- a round of the loop has nine instructions, the last two of which follow a completed print
  | .sysYield => 9 * done + 2
  | .incI => 9 * done + 3
  | .testI => 9 * done + 4
  | .acquireSwap => 9 * done + 5
  | .testLock => if cpu.regEax = 0 then 9 * done + 6 else 9 * done + 5
  | .loadCursorpos => 9 * done + 7
  | .storeCell => 9 * done + 8
  | .storeCursorpos => 9 * done + 9
  | .releaseSwap => 9 * done + 10
  | .sysExit => 9 * done + 5
  | .hang => 9 * done + 6

/-- The instruction belongs to an attempt at the lock that fails. -/
def Pc.Vain (cpu : Registers) (ram : Mem) : Pc → Prop
  | .acquireSwap => readU32 ram lockAddr ≠ 0
  | .testLock => cpu.regEax ≠ 0
  | _ => False

section Exec

variable {program : Program} {runcount done : Nat}

/-- Every other instruction is progress. -/
theorem exec_progress (hpc : pc ≠ .hang) (h : pc.Accounts runcount done cpu.regEbx) :
    (program.exec runcount cpu ram pc).pc.progress (if pc = .releaseSwap then done + 1 else done)
        (program.exec runcount cpu ram pc).cpu = pc.progress done cpu ∧ pc.Vain cpu ram ∨
      (program.exec runcount cpu ram pc).pc.progress (if pc = .releaseSwap then done + 1 else done)
        (program.exec runcount cpu ram pc).cpu = pc.progress done cpu + 1 := by
  cases pc
  case hang => exact absurd rfl hpc
  case acquireSwap =>
    by_cases hfree : readU32 ram lockAddr = 0
    · right
      simp [Program.exec, atomicSwap, Pc.progress, hfree]
    · left
      simp [Program.exec, atomicSwap, Pc.progress, Pc.Vain, hfree]
  case testLock =>
    by_cases hval : cpu.regEax = 0
    · right
      simp [Program.exec, Pc.progress, hval]
    · left
      simp [Program.exec, Pc.progress, Pc.Vain, hval]
  case testI =>
    right
    by_cases hlt : cpu.regEbx.toInt32 < Int32.ofNat runcount <;>
      simp [Program.exec, Pc.progress, hlt]
  case initI =>
    right
    simp [Program.exec, Pc.progress, show done = 0 from h]
  all_goals exact Or.inr rfl

theorem progress_le (h : pc.Accounts runcount done cpu.regEbx) :
    pc.progress done cpu ≤ 9 * runcount + 6 := by
  cases pc
  case testLock =>
    have hlt : done < runcount := h.2
    simp only [Pc.progress]
    split <;> omega
  all_goals simp only [Pc.Accounts] at h; simp only [Pc.progress]; omega

/-- Who looks for the lock in vain is outside … -/
theorem Pc.Vain.outside (h : pc.Vain cpu ram) : pc.phase cpu = .outside := by
  cases pc
  case acquireSwap => rfl
  case testLock =>
    have hval : cpu.regEax ≠ 0 := h
    simp [Pc.phase, hval]
  all_goals exact h.elim

/-- … and remains so, without a call of the kernel. -/
theorem Pc.Vain.exec (h : pc.Vain cpu ram) : (program.exec runcount cpu ram pc).int = none ∧
    (program.exec runcount cpu ram pc).pc.phase (program.exec runcount cpu ram pc).cpu
      = pc.phase cpu := by
  rw [h.outside]
  cases pc
  case acquireSwap =>
    have hlock : readU32 ram lockAddr ≠ 0 := h
    simp [Program.exec, atomicSwap, Pc.phase, hlock]
  case testLock =>
    have hval : cpu.regEax ≠ 0 := h
    simp [Program.exec, Pc.phase, hval]
  all_goals exact h.elim

end Exec

/-- How far process `p` has got. -/
def Apps.progress (apps : Apps) (w : World) (p : Pid) : Nat :=
  match apps.decode p (w.config.regs p) with
  | some pc => pc.progress (w.completed p) (w.config.regs p)
  | none => 0

theorem Tracks.progress (h : Tracks apps w p pc) :
    apps.progress w p = pc.progress (w.completed p) (w.config.regs p) := by
  rw [Apps.progress, h.decode]

theorem Tracks.progress_le (h : Tracks apps w p pc) :
    apps.progress w p ≤ 9 * apps.runcount + 6 := by
  rw [h.progress]
  exact SchedOS.progress_le h.accounts

section Moves

variable (hr : Running alg p k (k.procArray p).pRegisters) (hw : w.config = .user p k cpu)
  (hm : Moves apps w w' p pc e)
include hr hw hm

theorem Moves.progress (ht : Tracks apps w p pc) :
    apps.progress (w'.finish apps t p k e) p = e.pc.progress (w'.completed p) e.cpu := by
  rw [(hm.tracks hr hw ht).progress, finish_regs hr (hm.config.trans hw), Function.update_self,
    finish_completed]
  cases e.pc <;> rfl

theorem Moves.progress_of_ne (hq : q ≠ p) (ht : Tracks apps w q pc') :
    apps.progress (w'.finish apps t p k e) q = apps.progress w q := by
  rw [(hm.tracks_of_ne hr hw hq ht).progress, ht.progress, finish_regs hr (hm.config.trans hw),
    Function.update_of_ne hq, finish_completed, hm.config, hm.others q hq]

/-- A move that neither exits nor sets a priority leaves the choices of the kernel as they are. -/
theorem Moves.runnable_iff (hint : e.int ≠ some intSysExit) (q : Pid) :
    (w'.finish apps t p k e).config.machine.Runnable q ↔ w.config.machine.Runnable q := by
  unfold Machine.Runnable
  rw [finish_pState hr (hm.config.trans hw), hm.config, if_neg fun he => hint he.1]

theorem Moves.pPriority_eq (hint : e.int ≠ some intSysUser1) (q : Pid) :
    ((w'.finish apps t p k e).config.machine.procArray q).pPriority
      = (w.config.machine.procArray q).pPriority := by
  rw [finish_pPriority hr (hm.config.trans hw), hm.config, if_neg fun he => hint he.1]

theorem Moves.phase_eq (hphase : e.pc.phase e.cpu = pc.phase cpu) (ht : Tracks apps w p pc)
    (q : Pid) : ((w'.finish apps t p k e).lockedLog apps).phase q
      = (w.lockedLog apps).phase q := by
  show apps.phase q ((w'.finish apps t p k e).config.regs q) = _
  rw [finish_regs hr (hm.config.trans hw), hm.config]
  by_cases hq : q = p
  · rw [hq, Function.update_self, Apps.phase_resume, hphase, ht.phase_cpu hw]
  · rw [Function.update_of_ne hq]
    rfl

end Moves

/-- **No step is a step back.** -/
theorem World.Steps.progress_le (hstep : World.Steps apps alg t w w')
    (hrun : apps.runcount < 2 ^ 31) (htrack : w.OnTrack apps alg) (q : Pid) :
    apps.progress w q ≤ apps.progress w' q := by
  obtain ⟨pc', ht'⟩ := htrack.tracks q
  cases hstep with
  | spinning _ => exact Nat.le_refl _
  | @clock p k cpu pc _ hw hr ht hpc =>
    have hm := moves_clock ht hw hpc
    by_cases hq : q = p
    · subst hq
      rw [hm.progress hr hw ht, ht.progress, hw]
      simp [Config.regs]
    · rw [hm.progress_of_ne hr hw hq ht']
  | @instr p k cpu pc _ hw hr ht hpc =>
    have hm := moves_exec hrun ht hw hpc
    by_cases hq : q = p
    · subst hq
      have hregs : w.config.regs q = cpu := by simp [hw, Config.regs]
      have haccounts := ht.accounts
      rw [hregs] at haccounts
      rw [hm.progress hr hw ht, ht.progress, hregs, record_completed]
      simp only [and_true]
      have hexec := @exec_progress _ _ k.ram (apps.program q) _ _ hpc haccounts
      rcases hexec with ⟨he, -⟩ | he <;> omega
    · rw [hm.progress_of_ne hr hw hq ht']

/-! ## Stalled runs -/

/-- Process `p` executes an instruction in step number `n`. -/
def Executes (ticks : Nat → Tick) (run : Nat → World) (p : Pid) (n : Nat) : Prop :=
  (run n).config.proc? = some p ∧ (ticks n).clock = false

/-- A run in which nobody makes any progress. -/
structure Stalled (apps : Apps) (scheduling_algorithm : Int32) (ram₀ : Mem) (ticks : Nat → Tick)
    (run : Nat → World) : Prop where
  steps : ∀ n, World.Steps apps scheduling_algorithm (ticks n) (run n) (run (n + 1))
  inv : ∀ n, (run n).Inv apps scheduling_algorithm ram₀
  runcount : apps.runcount < 2 ^ 31
  progress : ∀ n, apps.progress (run (n + 1)) = apps.progress (run n)

/-- What a step of a stalled run can be. -/
inductive Stalls (apps : Apps) (alg : Int32) (t : Tick) (w : World) : World → Prop where
  | spinning {k : Machine} (hw : w.config = .spinning k) : Stalls apps alg t w w
  | clock {p : Pid} {k : Machine} {cpu : Registers} {pc : Pc} (hclock : t.clock = true)
    (hw : w.config = .user p k cpu) (hr : Running alg p k (k.procArray p).pRegisters)
    (ht : Tracks apps w p pc) (hm : Moves apps w w p pc ⟨pc, cpu, k.ram, some intClock⟩) :
    Stalls apps alg t w (w.finish apps t p k ⟨pc, cpu, k.ram, some intClock⟩)
  | vain {p : Pid} {k : Machine} {cpu : Registers} {pc : Pc} (hclock : t.clock = false)
    (hw : w.config = .user p k cpu) (hr : Running alg p k (k.procArray p).pRegisters)
    (ht : Tracks apps w p pc) (hvain : pc.Vain cpu k.ram)
    (hm : Moves apps w (w.record p cpu pc) p pc
      ((apps.program p).exec apps.runcount cpu k.ram pc)) :
    Stalls apps alg t w ((w.record p cpu pc).finish apps t p k
      ((apps.program p).exec apps.runcount cpu k.ram pc))

namespace Stalled

variable {ram₀ : Mem} {ticks : Nat → Tick} {run : Nat → World} {n : Nat}
  (hrun : Stalled apps alg ram₀ ticks run)
include hrun

/-- **A step without progress** is a clock interrupt, or a vain attempt at the lock. -/
theorem stalls (n : Nat) : Stalls apps alg (ticks n) (run n) (run (n + 1)) := by
  have hstep := hrun.steps n
  have hprogress := hrun.progress n
  generalize run (n + 1) = w' at hstep hprogress ⊢
  cases hstep with
  | spinning hw => exact .spinning hw
  | clock hclock hw hr ht hpc => exact .clock hclock hw hr ht (moves_clock ht hw hpc)
  | @instr p k cpu pc hclock hw hr ht hpc =>
    have hm := moves_exec hrun.runcount ht hw hpc
    refine .vain hclock hw hr ht ?_ hm
    have hregs : (run n).config.regs p = cpu := by simp [hw, Config.regs]
    have haccounts := ht.accounts
    rw [hregs] at haccounts
    have hsame := congrFun hprogress p
    rw [hm.progress hr hw ht, ht.progress, hregs, record_completed] at hsame
    simp only [and_true] at hsame
    have hexec := @exec_progress _ _ k.ram (apps.program p) _ _ hpc haccounts
    rcases hexec with ⟨-, hvain⟩ | hgain
    · exact hvain
    · omega

/-! ### What does not change -/

theorem runnable_succ (n : Nat) (q : Pid) :
    (run (n + 1)).config.machine.Runnable q ↔ (run n).config.machine.Runnable q := by
  have hstalls := hrun.stalls n
  generalize run (n + 1) = w' at hstalls ⊢
  cases hstalls with
  | spinning _ => exact Iff.rfl
  | clock _ hw hr _ hm =>
    have hint : some intClock ≠ some intSysExit := by decide
    exact hm.runnable_iff hr hw hint q
  | vain _ hw hr _ hvain hm => exact hm.runnable_iff hr hw (by simp [hvain.exec.1]) q

theorem pPriority_succ (n : Nat) (q : Pid) :
    ((run (n + 1)).config.machine.procArray q).pPriority
      = ((run n).config.machine.procArray q).pPriority := by
  have hstalls := hrun.stalls n
  generalize run (n + 1) = w' at hstalls ⊢
  cases hstalls with
  | spinning _ => rfl
  | clock _ hw hr _ hm =>
    have hint : some intClock ≠ some intSysUser1 := by decide
    exact hm.pPriority_eq hr hw hint q
  | vain _ hw hr _ hvain hm => exact hm.pPriority_eq hr hw (by simp [hvain.exec.1]) q

theorem phase_succ (n : Nat) (q : Pid) :
    ((run (n + 1)).lockedLog apps).phase q = ((run n).lockedLog apps).phase q := by
  have hstalls := hrun.stalls n
  generalize run (n + 1) = w' at hstalls ⊢
  cases hstalls with
  | spinning _ => rfl
  | clock _ hw hr ht hm => exact hm.phase_eq hr hw rfl ht q
  | vain _ hw hr ht hvain hm => exact hm.phase_eq hr hw hvain.exec.2 ht q

theorem runnable_iff (n : Nat) (q : Pid) :
    (run n).config.machine.Runnable q ↔ (run 0).config.machine.Runnable q := by
  induction n with
  | zero => exact Iff.rfl
  | succ n ih => exact (hrun.runnable_succ n q).trans ih

theorem pPriority_eq (n : Nat) (q : Pid) : ((run n).config.machine.procArray q).pPriority
    = ((run 0).config.machine.procArray q).pPriority := by
  induction n with
  | zero => rfl
  | succ n ih => exact (hrun.pPriority_succ n q).trans ih

theorem phase_eq (n : Nat) (q : Pid) :
    ((run n).lockedLog apps).phase q = ((run 0).lockedLog apps).phase q := by
  induction n with
  | zero => rfl
  | succ n ih => exact (hrun.phase_succ n q).trans ih

/-! ### Nobody can wait for ever -/

/-- An instruction is a vain one. -/
theorem vain (h : Executes ticks run p n) : ∃ k cpu pc, (run n).config = .user p k cpu ∧
    Tracks apps (run n) p pc ∧ pc.Vain cpu k.ram ∧
    Tracks apps (run (n + 1)) p ((apps.program p).exec apps.runcount cpu k.ram pc).pc := by
  obtain ⟨hproc, hclock⟩ := h
  have hstalls := hrun.stalls n
  generalize run (n + 1) = w' at hstalls ⊢
  cases hstalls with
  | spinning hw =>
    rw [hw] at hproc
    cases hproc
  | clock htrue _ _ _ _ =>
    rw [hclock] at htrue
    cases htrue
  | @vain p' k cpu pc _ hw hr ht hvain hm =>
    have hp : p' = p := by
      rw [hw] at hproc
      exact Option.some.inj hproc
    subst hp
    exact ⟨k, cpu, pc, hw, ht, hvain, hm.tracks hr hw ht⟩

/-- Who executes instructions is not inside, now or at any other time. -/
theorem outside (h : Executes ticks run p n) (m : Nat) :
    ((run m).lockedLog apps).phase p = .outside := by
  obtain ⟨k, cpu, pc, hw, ht, hvain, -⟩ := hrun.vain h
  rw [hrun.phase_eq m, ← hrun.phase_eq n, ht.phase_cpu hw, hvain.outside]

/-- With a free lock nobody waits at the `atomic_swap` in vain. -/
theorem not_executes (hlock : (run n).config.machine.lock = 0)
    (ht : Tracks apps (run n) p .acquireSwap) : ¬ Executes ticks run p n := by
  intro h
  obtain ⟨k, cpu, pc, hw, ht', hvain, -⟩ := hrun.vain h
  obtain rfl := Option.some.inj (ht'.decode.symm.trans ht.decode)
  rw [hw] at hlock
  exact hvain hlock

/-- So it does not get any further. -/
theorem stays (hlock : ∀ n, (run n).config.machine.lock = 0) {m : Nat}
    (hm : Tracks apps (run m) p .acquireSwap) (hmn : m ≤ n) :
    Tracks apps (run n) p .acquireSwap := by
  induction hmn with
  | refl => exact hm
  | @step n _ ih =>
    have hstalls := hrun.stalls n
    have hnot := hrun.not_executes (hlock n) ih
    generalize run (n + 1) = w' at hstalls ⊢
    cases hstalls with
    | spinning _ => exact ih
    | @clock p' k cpu pc _ hw hr ht hm =>
      by_cases hp : p = p'
      · subst hp
        obtain rfl : Pc.acquireSwap = pc := Option.some.inj (ih.decode.symm.trans ht.decode)
        exact hm.tracks hr hw ht
      · exact hm.tracks_of_ne hr hw hp ih
    | @vain p' k cpu pc hclock hw hr ht _ hm =>
      by_cases hp : p = p'
      · exact absurd ⟨by rw [hw, hp]; rfl, hclock⟩ hnot
      · exact hm.tracks_of_ne hr hw hp ih

/-- **A run does not stall** if certain processes, among them all that may have the lock, execute
instructions time and again. -/
theorem absurd_of_executes {C : Pid → Prop} (hC : ∃ q, C q)
    (hholder : ∀ n h, apps.Inside h ((run n).config.regs h) → C h)
    (hexec : ∀ q, C q → ∃ᶠ n in atTop, Executes ticks run q n) : False := by
  have hout : ∀ n h, ((run n).lockedLog apps).phase h = .outside := by
    intro n h
    by_contra hin
    obtain ⟨m, -, hm⟩ := frequently_atTop.mp (hexec h (hholder n h (Apps.inside_iff.mpr hin))) 0
    exact hin (hrun.outside hm n)
  have hlock : ∀ n, (run n).config.machine.lock = 0 := fun n => (hrun.inv n).lock_free (hout n)
  obtain ⟨q, hq⟩ := hC
  obtain ⟨n, -, hn⟩ := frequently_atTop.mp (hexec q hq) 0
  obtain ⟨k, cpu, pc, hw, ht, hvain, ht'⟩ := hrun.vain hn
  -- if it has found the lock taken earlier, it tries again, for which it does not even get time
  have hback : Tracks apps (run (n + 1)) q .acquireSwap := by
    cases pc
    case acquireSwap => exact absurd hn (hrun.not_executes (hlock n) ht)
    case testLock =>
      have hval : cpu.regEax ≠ 0 := hvain
      simpa [Program.exec, hval] using ht'
    all_goals exact hvain.elim
  obtain ⟨m, hm, hexecutes⟩ := frequently_atTop.mp (hexec q hq) (n + 1)
  exact hrun.not_executes (hlock m) (hrun.stays hlock hback hm) hexecutes

/-! ### The clock -/

/-- The processes among which the kernel chooses while nobody makes any progress. -/
def Candidate (_ : Stalled apps alg ram₀ ticks run) : Pid → Prop :=
  candidate alg (run 0).config.machine.Runnable
    fun q => ((run 0).config.machine.procArray q).pPriority

theorem candidate_eq (n : Nat) : (candidate alg (run n).config.machine.Runnable
    fun q => ((run n).config.machine.procArray q).pPriority) = hrun.Candidate := by
  have hrunnable : (run n).config.machine.Runnable = (run 0).config.machine.Runnable :=
    funext fun q => propext (hrun.runnable_iff n q)
  have hpriority := funext (hrun.pPriority_eq n)
  rw [hrunnable, hpriority]
  rfl

theorem candidate_call {trap : Trap} (hw : (run n).config = .user p k cpu)
    (hint : trap.reg.regIntno = intClock) :
    (candidate alg (trap.call k).Runnable fun q => ((trap.call k).procArray q).pPriority)
      = hrun.Candidate := by
  have hexit : intClock ≠ intSysExit := by decide
  have huser1 : intClock ≠ intSysUser1 := by decide
  have hrunnable : (trap.call k).Runnable = k.Runnable := by
    funext q
    simp [Trap.call_runnable, hint, hexit]
  rw [← hrun.candidate_eq n, hw, hrunnable]
  simp [Trap.call_pPriority, hint, huser1]

/-- Without a clock interrupt the processor stays where it is. -/
theorem proc?_of_not_clock (hclock : (ticks n).clock ≠ true) :
    (run (n + 1)).config.proc? = (run n).config.proc? := by
  have hstalls := hrun.stalls n
  generalize run (n + 1) = w' at hstalls ⊢
  cases hstalls with
  | spinning hw => rfl
  | clock htrue _ _ _ _ => exact absurd htrue hclock
  | vain _ hw _ _ hvain _ =>
    rw [finish_of_none hvain.exec.1, hw]
    rfl

section Clock

variable (halg : alg = 0 ∨ alg = 1 ∨ alg = 2) (hfuel : ∀ n, nprocs ≤ (ticks n).fuel)
include halg hfuel

/-- A clock interrupt hands the processor on to the next candidate. -/
theorem isNext_of_clock (hclock : (ticks n).clock = true) (hp : (run n).config.proc? = some p) :
    ∃ q, (run (n + 1)).config.proc? = some q ∧ IsNext hrun.Candidate p q := by
  have hstalls := hrun.stalls n
  generalize run (n + 1) = w' at hstalls ⊢
  cases hstalls with
  | spinning hw =>
    rw [hw] at hp
    cases hp
  | vain hfalse _ _ _ _ _ =>
    rw [hclock] at hfalse
    cases hfalse
  | @clock p' k cpu pc _ hw hr ht hm =>
    obtain rfl : p' = p := by
      rw [hw] at hp
      exact Option.some.inj hp
    have hrunnable : (run 0).config.machine.Runnable p' := by
      rw [← hrun.runnable_iff n, hw]
      exact hr.runnable
    obtain ⟨q, hq⟩ : ∃ q, IsNext hrun.Candidate p' q :=
      exists_isNext p' (exists_candidate halg hrunnable)
    have hserved : Served intClock := by decide
    rw [finish_config rfl hw]
    refine ⟨q, trap_chooses halg _ hr hserved (hfuel n) ?_, hq⟩
    rw [hrun.candidate_call hw rfl]
    exact .some hq

variable (hboot : (run 0).config.proc? ≠ none)
include hboot

theorem live : ∀ n, (run n).config.proc? ≠ none
  | 0 => hboot
  | n + 1 => by
    by_cases hclock : (ticks n).clock = true
    · obtain ⟨p, hp⟩ := Option.ne_none_iff_exists'.mp (live n)
      obtain ⟨q, hq, -⟩ := hrun.isNext_of_clock halg hfuel hclock hp
      simp [hq]
    · rw [hrun.proc?_of_not_clock hclock]
      exact live n

/-- The processor as a baton. -/
theorem baton (hclock : ∃ᶠ n in atTop, (ticks n).clock = true) :
    Baton hrun.Candidate (fun n => ((run n).config.proc?).getD 0)
      fun n => (ticks n).clock = true where
  keeps n hnot := congrArg (Option.getD · 0) (hrun.proc?_of_not_clock hnot)
  next n hn := by
    obtain ⟨p, hp⟩ := Option.ne_none_iff_exists'.mp (hrun.live halg hfuel hboot n)
    obtain ⟨q, hq, hnext⟩ := hrun.isNext_of_clock halg hfuel hn hp
    simpa [hp, hq] using hnext
  often := hclock

/-- **Every candidate executes instructions, again and again.** -/
theorem executes (hclock : ∃ᶠ n in atTop, (ticks n).clock = true)
    (hslice : ∀ n, (ticks n).clock = true → (ticks (n + 1)).clock = false)
    (hq : hrun.Candidate q) : ∃ᶠ n in atTop, Executes ticks run q n := by
  refine frequently_atTop.mpr fun n => ?_
  obtain ⟨m, hnm, hm, hholder⟩ := (hrun.baton halg hfuel hboot hclock).comes_to hq n
  obtain ⟨p, hp⟩ := Option.ne_none_iff_exists'.mp (hrun.live halg hfuel hboot (m + 1))
  refine ⟨m + 1, Nat.le_succ_of_le hnm, ?_, hslice m hm⟩
  rw [hp] at hholder ⊢
  exact congrArg some hholder

end Clock

end Stalled

theorem World.OnTrack.runnable_of_inside (h : w.OnTrack apps alg)
    (hinside : apps.Inside p (w.config.regs p)) : w.config.machine.Runnable p := by
  have hp := h.inside_ne_zero hinside
  obtain ⟨pc, ht⟩ := h.tracks p
  rw [Apps.inside_iff, Apps.phase, ht.decode] at hinside
  have hpc : pc ≠ .hang := by
    rintro rfl
    exact hinside rfl
  unfold Machine.Runnable
  rw [ht.pState, if_neg hpc, if_neg hp]

/-- Entry 0 of the table is empty. -/
theorem World.OnTrack.ne_zero_of_runnable (h : w.OnTrack apps alg)
    (hp : w.config.machine.Runnable p) : p ≠ 0 := by
  rintro rfl
  obtain ⟨pc, ht⟩ := h.tracks 0
  have hstate := ht.pState
  rw [ht.idle rfl] at hstate
  unfold Machine.Runnable at hp
  simp [hp] at hstate

/-- The three algorithms favour those among whom they choose. -/
theorem favours_candidate (halg : alg = 0 ∨ alg = 1 ∨ alg = 2) :
    Favours alg fun k => candidate alg k.Runnable fun q => (k.procArray q).pPriority := by
  rcases halg with rfl | rfl | rfl
  · constructor
    · exact fun k k' p he h => he.runnable_self h
    · intro fuel tsc k q k' cpu halg h
      obtain ⟨hq, rfl⟩ := schedule_roundRobin_user halg rfl h
      exact hq.1
    · intro fuel tsc k halg hfuel hrun
      obtain ⟨q, hq⟩ := exists_isNext (k.procArray k.current).pPid hrun
      exact ⟨q, _, _, schedule_roundRobin_run halg rfl hq hfuel⟩
  · exact favours_lowest
  · exact favours_urgent

theorem boot_candidate {ramimages : Fin 4 → Ramimage} {k₀ : Machine}
    (halg : alg = 0 ∨ alg = 1 ∨ alg = 2) (hboot : (start ramimages alg k₀).proc? ≠ none) :
    candidate alg (start ramimages alg k₀).machine.Runnable
      (fun q => ((start ramimages alg k₀).machine.procArray q).pPriority) 1 := by
  rcases halg with rfl | rfl | rfl
  · exact (boot_runnable_iff hboot 1).mpr (by decide)
  · exact boot_lowest hboot
  · exact boot_urgent hboot

theorem knownAlgorithm_of_candidate (halg : alg = 0 ∨ alg = 1 ∨ alg = 2) :
    KnownAlgorithm alg := by
  rcases halg with h | h | h
  · exact Or.inl h
  · exact Or.inr (Or.inl h)
  · exact Or.inr (Or.inr (Or.inl h))

/-! ## The end -/

/-- What the applications have come to in `w`; `ram₀` is the memory that they found. -/
structure World.Finished (apps : Apps) (ram₀ : Mem) (w : World) : Prop where
  stopped : w.config.proc? = none
  lock : w.config.machine.lock = 0
  exited : ∀ p, p ≠ 0 → (w.config.machine.procArray p).pState = .pZombie ∧
    (w.config.machine.procArray p).pExitStatus = 0
  /-- Each character is there `RUNCOUNT` times. -/
  printed : ((List.range (4 * apps.runcount)).map fun i =>
      readU16 w.config.machine.ram (cellAddr i)).Perm
    ([1, 2, 3, 4].flatMap fun p => List.replicate apps.runcount (apps.program p).printchar)
  unwritten : ∀ i, 4 * apps.runcount ≤ i → i < 2000 →
    readU16 w.config.machine.ram (cellAddr i) = readU16 ram₀ (cellAddr i)

theorem World.Inv.finished {ram₀ : Mem} (h : w.Inv apps alg ram₀)
    (hstatus : ∀ q, (w.config.machine.procArray q).pExitStatus = 0)
    (hnone : ∀ q, ¬ w.config.machine.Runnable q) : w.Finished apps ram₀ := by
  have hexit : ∀ p, p ≠ 0 → (w.config.machine.procArray p).pState = .pZombie := by
    intro p hp
    obtain ⟨pc, ht⟩ := h.tracks p
    have hstate := ht.pState
    rw [if_neg hp] at hstate
    split at hstate
    · exact hstate
    · exact absurd hstate (hnone p)
  obtain ⟨hslots, hprinted⟩ := h.exited hexit
  constructor
  · by_contra hproc
    obtain ⟨p, hp⟩ := Option.ne_none_iff_exists'.mp hproc
    obtain ⟨k, cpu, hw⟩ := Config.proc?_eq_some hp
    have hvalid := h.valid
    rw [hw] at hvalid
    have hr : Running alg p k (k.procArray p).pRegisters := hvalid
    refine hnone p ?_
    rw [hw]
    exact hr.runnable
  · exact h.lock_free (h.phase_exited hexit)
  · exact fun p hp => ⟨hexit p hp, hstatus p⟩
  · exact hprinted
  · have hlength := congrArg List.length hslots
    simp only [List.length_map, List.length_range] at hlength
    rw [← hlength]
    exact h.blank

section Runs

variable {ramimages : Fin 4 → Ramimage} {k₀ : Machine} {program : Pid → Program}
  {runcount : Nat} {ticks : Nat → Tick}

/-- **A run that cannot stall comes to an end.** -/
theorem exists_finished (hknown : KnownAlgorithm alg) (hrun : 4 * runcount ≤ 2000)
    (hboot : (start ramimages alg k₀).proc? ≠ none)
    (hlock : (start ramimages alg k₀).machine.lock = 0)
    (hstall : ∀ m, Stalled (.load program runcount (start ramimages alg k₀)) alg
        (start ramimages alg k₀).machine.ram (fun n => ticks (m + n))
        (fun n => world program runcount (start ramimages alg k₀) ticks (m + n)) →
      ∀ q, ¬ (world program runcount (start ramimages alg k₀) ticks m).config.machine.Runnable
        q) :
    ∃ N, ∀ n, N ≤ n → (world program runcount (start ramimages alg k₀) ticks n).Finished
      (.load program runcount (start ramimages alg k₀)) (start ramimages alg k₀).machine.ram := by
  have hsmall : runcount < 2 ^ 31 := by omega
  have hinv := world_inv program hknown hrun hboot hlock ticks
  have hsteps := world_steps program hsmall hboot ticks
  obtain ⟨m, hm⟩ := exists_stalled
    (f := fun n => (Apps.load program runcount (start ramimages alg k₀)).progress
      (world program runcount (start ramimages alg k₀) ticks n))
    (fun n q => (hsteps n).progress_le hsmall (hinv n).toOnTrack q) (fun n q => by
      obtain ⟨pc, ht⟩ := (hinv n).tracks q
      exact ht.progress_le)
  have hnone := hstall m
    ⟨fun n => hsteps (m + n), fun n => hinv (m + n), hsmall,
      fun n => hm (m + n) (Nat.le_add_right m n)⟩
  have hfinished := (hinv m).finished (world_pExitStatus program hsmall hboot ticks m) hnone
  refine ⟨m, fun n hn => ?_⟩
  rw [world_stopped hfinished.stopped hn]
  exact hfinished

/-- With the clock ticking a run stalls only when nobody is runnable. -/
theorem Stalled.idle (halg : alg = 0 ∨ alg = 1 ∨ alg = 2)
    (hpriority : ∀ p, 0 ≤ (program p).priority) (hsmall : runcount < 2 ^ 31)
    (hclock : ∃ᶠ n in atTop, (ticks n).clock = true)
    (hslice : ∀ n, (ticks n).clock = true → (ticks (n + 1)).clock = false)
    (hfuel : ∀ n, nprocs ≤ (ticks n).fuel) (hboot : (start ramimages alg k₀).proc? ≠ none)
    {m : Nat} (hstalled : Stalled (.load program runcount (start ramimages alg k₀)) alg
      (start ramimages alg k₀).machine.ram (fun n => ticks (m + n))
      (fun n => world program runcount (start ramimages alg k₀) ticks (m + n))) (q : Pid) :
    ¬ (world program runcount (start ramimages alg k₀) ticks m).config.machine.Runnable q := by
  intro hq
  have hS := favours_candidate halg
  have hawake := world_awake program hsmall hboot hS hfuel m
  refine hstalled.absurd_of_executes (C := hstalled.Candidate) (exists_candidate halg hq)
    (fun n h hinside => ?_) fun q hq => ?_
  · -- who has the lock is among those who have a turn
    have hfavoured := world_favoured hsmall hboot hS (boot_candidate halg hboot) hpriority ticks
    rw [← hstalled.candidate_eq n]
    exact (hfavoured (m + n)).holder h hinside
  · refine hstalled.executes halg (fun n => hfuel (m + n)) ?_ ?_ (fun n => hslice (m + n)) hq
    · exact fun hnone => hawake q hnone (candidate_runnable hq)
    · exact frequently_add_left hclock m

end Runs

theorem thirdTicks_often : ∃ᶠ n in atTop, (thirdTicks n).clock = true := by
  refine frequently_atTop.mpr fun n => ⟨3 * n + 2, by omega, ?_⟩
  simp only [thirdTicks, beq_iff_eq]
  omega

theorem thirdTicks_slice (n : Nat) (hn : (thirdTicks n).clock = true) :
    (thirdTicks (n + 1)).clock = false := by
  simp only [thirdTicks, beq_iff_eq, beq_eq_false_iff_ne] at hn ⊢
  omega

/-- **Fair runs come to an end**, under every algorithm: if no process that remains runnable is
denied the processor for ever, then sooner or later all four have exited, with all of their output
on the console. -/
theorem fair_run_ends (ramimages : Fin 4 → Ramimage) (alg : Int32) (k₀ : Machine)
    (program : Pid → Program) (runcount : Nat) (ticks : Nat → Tick)
    (hknown : KnownAlgorithm alg) (hrun : 4 * runcount ≤ 2000)
    (hboot : (start ramimages alg k₀).proc? ≠ none)
    (hlock : (start ramimages alg k₀).machine.lock = 0)
    (hfair : ∀ p n, (∀ m, n ≤ m →
        (world program runcount (start ramimages alg k₀) ticks m).config.machine.Runnable p) →
      ∃ m, n ≤ m ∧
        Executes ticks (world program runcount (start ramimages alg k₀) ticks) p m) :
    ∃ N, ∀ n, N ≤ n → (world program runcount (start ramimages alg k₀) ticks n).Finished
      (.load program runcount (start ramimages alg k₀)) (start ramimages alg k₀).machine.ram := by
  refine exists_finished hknown hrun hboot hlock fun m hstalled q hq => ?_
  refine hstalled.absurd_of_executes (C := fun q =>
    (world program runcount (start ramimages alg k₀) ticks m).config.machine.Runnable q) ⟨q, hq⟩ ?_
    ?_
  · exact fun n h hinside =>
      (hstalled.runnable_iff n h).mp ((hstalled.inv n).toOnTrack.runnable_of_inside hinside)
  · intro q hq
    refine frequently_atTop.mpr fun n => ?_
    obtain ⟨j, hj, hexecutes⟩ := hfair q (m + n) fun j hj => by
      obtain ⟨d, rfl⟩ := Nat.exists_eq_add_of_le (show m ≤ j by omega)
      exact (hstalled.runnable_iff d q).mpr hq
    obtain ⟨d, rfl⟩ := Nat.exists_eq_add_of_le (show m ≤ j by omega)
    exact ⟨d, by omega, hexecutes⟩

/-- In a run that comes to an end nobody waits for ever. -/
theorem fair_run_ends_shipped :
    ∃ N, ∀ n, N ≤ n → (world shippedProgram shippedRuncount (start bareImages 0 bareMachine)
        thirdTicks n).Finished
      (.load shippedProgram shippedRuncount (start bareImages 0 bareMachine))
      (start bareImages 0 bareMachine).machine.ram := by
  refine fair_run_ends bareImages 0 bareMachine shippedProgram shippedRuncount thirdTicks
    (Or.inl rfl) (by decide) (bare_proc? 0) (start_bare_lock 0) fun p n hp => ?_
  obtain ⟨m, hm⟩ := @exists_finished 0 bareImages bareMachine shippedProgram shippedRuncount
    thirdTicks (Or.inl rfl) (by decide) (bare_proc? 0) (start_bare_lock 0)
    fun _ hstalled => hstalled.idle (Or.inl rfl) (by decide) (by decide) thirdTicks_often
      thirdTicks_slice (fun _ => Nat.le_refl _) (bare_proc? 0)
  have hrunnable := hp (max n m) (le_max_left n m)
  have hne := (world_onTrack shippedProgram (by decide) (bare_proc? 0) thirdTicks
    (max n m)).ne_zero_of_runnable hrunnable
  have hzombie := ((hm (max n m) (le_max_right n m)).exited p hne).1
  unfold Machine.Runnable at hrunnable
  rw [hrunnable] at hzombie
  cases hzombie

/-- **Under a clock that keeps ticking the run comes to an end**, if the scheduler goes round among
those whom it prefers. Two clock interrupts must not follow each other without an instruction in
between: whom they hit would get nowhere. -/
theorem clocked_run_ends (ramimages : Fin 4 → Ramimage) (alg : Int32) (k₀ : Machine)
    (program : Pid → Program) (runcount : Nat) (ticks : Nat → Tick)
    (halg : alg = 0 ∨ alg = 1 ∨ alg = 2) (hpriority : ∀ p, 0 ≤ (program p).priority)
    (hrun : 4 * runcount ≤ 2000) (hclock : ∃ᶠ n in atTop, (ticks n).clock = true)
    (hslice : ∀ n, (ticks n).clock = true → (ticks (n + 1)).clock = false)
    (hfuel : ∀ n, nprocs ≤ (ticks n).fuel) (hboot : (start ramimages alg k₀).proc? ≠ none)
    (hlock : (start ramimages alg k₀).machine.lock = 0) :
    ∃ N, ∀ n, N ≤ n → (world program runcount (start ramimages alg k₀) ticks n).Finished
      (.load program runcount (start ramimages alg k₀)) (start ramimages alg k₀).machine.ram := by
  have hsmall : runcount < 2 ^ 31 := by omega
  exact exists_finished (knownAlgorithm_of_candidate halg) hrun hboot hlock fun _ hstalled =>
    hstalled.idle halg hpriority hsmall hclock hslice hfuel hboot

/-- The shipped applications under algorithm 2, with a clock interrupt before every third
instruction. -/
theorem clocked_run_ends_shipped :
    ∃ N, ∀ n, N ≤ n → (world shippedProgram shippedRuncount (start bareImages 2 bareMachine)
        thirdTicks n).Finished
      (.load shippedProgram shippedRuncount (start bareImages 2 bareMachine))
      (start bareImages 2 bareMachine).machine.ram :=
  clocked_run_ends bareImages 2 bareMachine shippedProgram shippedRuncount thirdTicks
    (Or.inr (Or.inr rfl)) (by decide) (by decide) thirdTicks_often
    thirdTicks_slice (fun _ => Nat.le_refl _) (bare_proc? 2) (start_bare_lock 2)

end SchedOS
