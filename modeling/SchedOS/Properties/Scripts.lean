import SchedOS.App.Scripts
import SchedOS.Properties.Programs
import SchedOS.Properties.Display
import SchedOS.Properties.Cursor
import SchedOS.Properties.ShareProgress

/-!
# Applications that make system calls only

What such applications do together is an interleaving of their scripts (`Infra.Interleaving`). The
order is up to the scheduler and the clock; everything else follows from it.

* `scripted_sound` — in every run, at every time: each process has made the calls with which its
  script begins, whoever has made the last one is a zombie, and the memory is as it was but for the
  cells printed so far and the cursor behind them
* `scripted_ends` — under algorithms 0 to 3 all scripts have been carried out after as many calls as
  there are in them, whenever the clock ticks in between
-/

namespace SchedOS

open Infra

variable {alg : Int32} {scripts : Pid → List SysCall} {t : Beat} {s s' : Scripted} {p q : Pid}
  {k : Machine} {cpu : Registers} {call : SysCall} {ram₀ ram : Mem} {cells : List UInt16}

/-! ## Scripts -/

/-- The script ends with its only `sys_exit`. -/
def Exits (script : List SysCall) : Prop :=
  ∃ calls status, script = calls ++ [.sysExit status] ∧ ∀ status', SysCall.sysExit status' ∉ calls

/-- A script for each application, and none for entry 0 of the table. -/
structure Playable (scripts : Pid → List SysCall) : Prop where
  zero : scripts 0 = []
  exits : ∀ p, p ≠ 0 → Exits (scripts p)

/-- A process has come to the end of its script when it has exited. -/
theorem Exits.concat_eq_iff {script calls : List SysCall} (h : Exits script)
    (hcalls : calls ++ [call] <+: script) : calls ++ [call] = script ↔ call.intno = intSysExit := by
  obtain ⟨before, status, rfl, hbefore⟩ := h
  have hexit : call.intno = intSysExit ↔ ∃ status', call = .sysExit status' := by
    cases call <;> simp [SysCall.intno, intSysYield, intSysExit, intSysUser1, intSysUser2,
      intSysAtomicPrint, intSysSetLottery]
  rw [hexit]
  constructor
  · intro heq
    exact ⟨status, List.singleton_inj.mp (List.append_inj_right' heq rfl)⟩
  · rintro ⟨status', rfl⟩
    rcases List.prefix_concat_iff.mp hcalls with heq | hle
    · exact heq
    · exact absurd (hle.subset (List.mem_append_right _ (List.mem_singleton_self _)))
        (hbefore status')

/-! ## What is printed -/

/-- What a call prints, if anything. -/
def SysCall.cell? : SysCall → Option UInt16
  | .sysAtomicPrint c => some (widened c)
  | _ => none

/-- The cells that have been printed, and who has printed them. -/
def Scripted.prints (s : Scripted) : List (Pid × UInt16) := viewed SysCall.cell? s.log

theorem SysCall.trap_shown (call : SysCall) (t : Beat) (ram : Mem) (cells : List UInt16) :
    (call.trap t ram).shown cells = cells ++ call.cell?.toList := by
  cases call <;> simp [Trap.shown, SysCall.trap, SysCall.intno, SysCall.eax, SysCall.cell?,
    intSysYield, intSysExit, intSysUser1, intSysUser2, intSysAtomicPrint, intSysSetLottery]

theorem Scripted.prints_concat (config : Config) (log : List (Pid × SysCall)) (p : Pid)
    (call : SysCall) : (Scripted.prints ⟨config, log ++ [(p, call)]⟩).map Prod.snd
      = (viewed SysCall.cell? log).map Prod.snd ++ call.cell?.toList := by
  cases hcell : call.cell? with
  | none => simp [Scripted.prints, viewed_concat_none hcell]
  | some v => simp [Scripted.prints, viewed_concat_some hcell]

/-- The cells for which there are prints in the scripts. -/
def cellCount (scripts : Pid → List SysCall) : Nat :=
  ∑ p, ((scripts p).filterMap SysCall.cell?).length

theorem length_prints_le (h : Follows scripts s.log) : s.prints.length ≤ cellCount scripts :=
  (h.viewed SysCall.cell?).length_le

/-! ## The invariant -/

/-- What the applications have come to. -/
structure Scripted.Inv (scheduling_algorithm : Int32) (scripts : Pid → List SysCall) (ram₀ : Mem)
    (s : Scripted) : Prop where
  ok : s.config.Ok scheduling_algorithm
  follows : Follows scripts s.log
  /-- Who has come to the end of its script is a zombie, and everybody else can still run. -/
  state : ∀ p, p ≠ 0 → (s.config.machine.procArray p).pState
    = if entriesOf s.log p = scripts p then .pZombie else .pRunnable
  /-- The last call of the script has left its status. -/
  status : ∀ p status, entriesOf s.log p = scripts p →
    (scripts p).getLast? = some (.sysExit status) →
      (s.config.machine.procArray p).pExitStatus = status
  displays : Displays ram₀ (s.prints.map Prod.snd) (screenOf s.config.machine.ram)

/-- What a step can be. -/
inductive Scripted.Steps (alg : Int32) (scripts : Pid → List SysCall) (t : Beat) (s : Scripted) :
    Scripted → Prop where
  | spinning {k : Machine} (hs : s.config = .spinning k) : Steps alg scripts t s s
  | clock {p : Pid} {k : Machine} {cpu : Registers} (hclock : t.clock = true)
    (hs : s.config = .user p k cpu) (hr : Running alg p k (k.procArray p).pRegisters) :
    Steps alg scripts t s ⟨(Config.user p k cpu).trap (clockTrap t k.ram), s.log⟩
  | call {p : Pid} {k : Machine} {cpu : Registers} {call : SysCall} (hclock : t.clock = false)
    (hs : s.config = .user p k cpu) (hr : Running alg p k (k.procArray p).pRegisters)
    (hnext : Follows.next? scripts s.log p = some call) :
    Steps alg scripts t s ⟨(Config.user p k cpu).trap (call.trap t k.ram), s.log ++ [(p, call)]⟩

/-- Who runs has a next call. -/
theorem Scripted.Inv.exists_next (h : s.Inv alg scripts ram₀) (hs : s.config = .user p k cpu)
    (hr : Running alg p k (k.procArray p).pRegisters) :
    ∃ call, Follows.next? scripts s.log p = some call := by
  have hstate := h.state p hr.ne_zero
  rw [hs, Config.machine_user, show (k.procArray p).pState = .pRunnable from hr.runnable] at hstate
  cases hnext : Follows.next? scripts s.log p with
  | some call => exact ⟨call, rfl⟩
  | none =>
    rw [if_pos (h.follows.next?_eq_none_iff.mp hnext)] at hstate
    cases hstate

theorem Scripted.Inv.steps (h : s.Inv alg scripts ram₀) :
    Scripted.Steps alg scripts t s (s.step scripts t) := by
  have hok := h.ok
  unfold Scripted.step
  cases hs : s.config with
  | spinning k => exact .spinning hs
  | user p k cpu =>
    rw [hs] at hok
    have hr := hok.valid
    by_cases hclock : t.clock = true
    · simp only [hclock, if_true]
      exact .clock hclock hs hr
    · obtain ⟨call, hnext⟩ := h.exists_next hs hr
      simp only [hclock, hnext]
      exact .call (Bool.eq_false_iff.mpr hclock) hs hr hnext

section Step

variable (h : s.Inv alg scripts ram₀) (hs : s.config = .user p k cpu)
  (hr : Running alg p k (k.procArray p).pRegisters)
include h hs hr

/-- The clock does not change what the applications have come to. -/
theorem Scripted.Inv.clock (hknown : KnownAlgorithm alg) : Scripted.Inv alg scripts ram₀
    ⟨(Config.user p k cpu).trap (clockTrap t k.ram), s.log⟩ := by
  have hexit : (clockTrap t k.ram).reg.regIntno ≠ intSysExit :=
    show intClock ≠ intSysExit by decide
  have hprint : (clockTrap t k.ram).reg.regIntno ≠ intSysAtomicPrint :=
    show intClock ≠ intSysAtomicPrint by decide
  constructor
  · show ((Config.user p k cpu).trap (clockTrap t k.ram)).Ok alg
    exact ok_trap_user hr _
  · exact h.follows
  · intro q hq
    have hstate := h.state q hq
    rw [hs] at hstate
    rw [trap_pState hr, if_neg fun he => hexit he.1]
    exact hstate
  · intro q status hdone hlast
    have hstatus := h.status q status hdone hlast
    rw [hs] at hstatus
    rw [trap_pExitStatus hr, if_neg fun he => hexit he.1]
    exact hstatus
  · have hdisplays := h.displays
    rw [hs] at hdisplays
    rw [trap_ram _ p k cpu (hr.algorithm ▸ hknown) hprint]
    exact hdisplays

variable (hnext : Follows.next? scripts s.log p = some call)
include hnext

omit hs in
theorem Scripted.Inv.call_done_iff (hscripts : Playable scripts) :
    entriesOf (s.log ++ [(p, call)]) p = scripts p ↔ call.intno = intSysExit := by
  have hprefix := h.follows.concat_prefix hnext
  rw [entriesOf_concat_self]
  exact (hscripts.exits p hr.ne_zero).concat_eq_iff hprefix

theorem Scripted.Inv.call_state (hscripts : Playable scripts) (q : Pid) (hq : q ≠ 0) :
    (((Config.user p k cpu).trap (call.trap t k.ram)).machine.procArray q).pState
      = if entriesOf (s.log ++ [(p, call)]) q = scripts q then .pZombie else .pRunnable := by
  rw [trap_pState hr]
  by_cases hqp : q = p
  · subst hqp
    have hdone := h.call_done_iff hr hnext hscripts
    have hrun : (k.procArray q).pState = .pRunnable := hr.runnable
    simp only [hdone, hrun, and_true]
    rfl
  · have hstate := h.state q hq
    rw [hs] at hstate
    rw [entriesOf_concat_of_ne hqp, if_neg fun he => hqp he.2]
    exact hstate

theorem Scripted.Inv.call_status (q : Pid) (status : Int32)
    (hdone : entriesOf (s.log ++ [(p, call)]) q = scripts q)
    (hlast : (scripts q).getLast? = some (.sysExit status)) :
    (((Config.user p k cpu).trap (call.trap t k.ram)).machine.procArray q).pExitStatus
      = status := by
  rw [trap_pExitStatus hr]
  by_cases hqp : q = p
  · subst hqp
    have hcall : call = .sysExit status := by
      rw [← hdone, entriesOf_concat_self, List.getLast?_concat] at hlast
      exact Option.some.inj hlast
    rw [hcall]
    exact if_pos ⟨rfl, rfl⟩
  · rw [entriesOf_concat_of_ne hqp] at hdone
    have hstatus := h.status q status hdone hlast
    rw [hs] at hstatus
    rw [if_neg fun he => hqp he.2]
    exact hstatus

/-- There is room for another print as long as the prints of all scripts fit the console. -/
theorem Scripted.Inv.call_displays (hknown : KnownAlgorithm alg)
    (hroom : cellCount scripts ≤ 2000) :
    Displays ram₀ ((Scripted.prints ⟨(Config.user p k cpu).trap (call.trap t k.ram),
        s.log ++ [(p, call)]⟩).map Prod.snd)
      (screenOf ((Config.user p k cpu).trap (call.trap t k.ram)).machine.ram) := by
  have hdisplays := h.displays
  rw [hs, Config.machine_user] at hdisplays
  have hle := length_prints_le (s := ⟨s.config, s.log ++ [(p, call)]⟩) (h.follows.concat hnext)
  rw [← List.length_map (f := Prod.snd), Scripted.prints_concat, ← call.trap_shown] at hle
  rw [trap_ram_call _ p k cpu (hr.algorithm ▸ hknown), Scripted.prints_concat, ← call.trap_shown]
  exact Displays.call hdisplays (hle.trans hroom)

end Step

/-- **No step breaks it.** -/
theorem Scripted.Inv.step (hscripts : Playable scripts) (hknown : KnownAlgorithm alg)
    (hroom : cellCount scripts ≤ 2000) (h : s.Inv alg scripts ram₀) :
    (s.step scripts t).Inv alg scripts ram₀ := by
  have hstep := h.steps (t := t)
  generalize s.step scripts t = s' at hstep ⊢
  cases hstep with
  | spinning _ => exact h
  | clock _ hs hr => exact h.clock hs hr hknown
  | @call p k cpu call _ hs hr hnext =>
    refine ⟨?_, h.follows.concat hnext, h.call_state hs hr hnext hscripts,
      h.call_status hs hr hnext, h.call_displays hs hr hnext hknown hroom⟩
    show ((Config.user p k cpu).trap (call.trap t k.ram)).Ok alg
    exact ok_trap_user hr _

/-! ## Runs -/

/-- The interrupt that a step consists of. -/
def Scripted.interrupt (scripts : Pid → List SysCall) (t : Beat) (s : Scripted) : Trap :=
  match s.config.proc?.bind (Follows.next? scripts s.log), t.clock with
  | some call, false => call.trap t s.config.machine.ram
  | _, _ => clockTrap t s.config.machine.ram

theorem SysCall.served (call : SysCall) : Served call.intno := by
  cases call <;> simp [SysCall.intno, Served]

theorem Scripted.interrupt_served (scripts : Pid → List SysCall) (t : Beat) (s : Scripted) :
    Served (s.interrupt scripts t).reg.regIntno := by
  have hclock : Served intClock := by decide
  unfold Scripted.interrupt
  split
  · exact SysCall.served _
  · exact hclock

theorem Scripted.interrupt_fuel (scripts : Pid → List SysCall) (t : Beat) (s : Scripted) :
    (s.interrupt scripts t).fuel = t.fuel := by
  unfold Scripted.interrupt
  split <;> rfl

/-- For the kernel the step is that interrupt. -/
theorem Scripted.Inv.step_config (h : s.Inv alg scripts ram₀) :
    (s.step scripts t).config = s.config.trap (s.interrupt scripts t) := by
  have hstep := h.steps (t := t)
  generalize s.step scripts t = s' at hstep ⊢
  cases hstep with
  | spinning hs => simp [hs]
  | clock hclock hs _ => simp [Scripted.interrupt, hs, hclock]
  | call hclock hs _ hnext => simp [Scripted.interrupt, hs, hclock, hnext]

section Runs

variable {ramimages : Fin 4 → Ramimage} {k₀ : Machine} {beats : Nat → Beat} {n : Nat}

theorem start_displays (hboot : (start ramimages alg k₀).proc? ≠ none) :
    Displays (start ramimages alg k₀).machine.ram []
      (screenOf (start ramimages alg k₀).machine.ram) := by
  obtain ⟨k, hk, hb⟩ := start_booted hboot
  rw [hk]
  exact .nil hb.cursorpos

theorem start_scripted_inv (hscripts : Playable scripts)
    (hboot : (start ramimages alg k₀).proc? ≠ none) :
    Scripted.Inv alg scripts (start ramimages alg k₀).machine.ram
      ⟨start ramimages alg k₀, []⟩ where
  ok := ok_start ramimages alg k₀
  follows := .nil
  state p hp := by
    obtain ⟨k, hk, hb⟩ := start_booted hboot
    obtain ⟨calls, status, hscript, -⟩ := hscripts.exits p hp
    have hrun : (k.procArray p).pState = .pRunnable := (hb.runnable_iff p).mpr hp
    rw [hk, Config.machine_user, hrun, hscript]
    simp
  status p status hdone hlast := by
    rw [← hdone] at hlast
    cases hlast
  displays := start_displays hboot

section Fixed

variable (hscripts : Playable scripts) (hknown : KnownAlgorithm alg)
  (hroom : cellCount scripts ≤ 2000) (hboot : (start ramimages alg k₀).proc? ≠ none)
include hscripts hknown hroom hboot

variable (beats) in
theorem scripted_inv (n : Nat) :
    (scripted scripts (start ramimages alg k₀) beats n).Inv alg scripts
      (start ramimages alg k₀).machine.ram :=
  states_invariant (fun _ _ h => h.step hscripts hknown hroom) (start_scripted_inv hscripts hboot) n

variable (beats) in
/-- **The kernel goes through one of its runs.** -/
theorem scripted_system (n : Nat) : (scripted scripts (start ramimages alg k₀) beats n).config
    = system ramimages alg k₀ (fun n =>
        (scripted scripts (start ramimages alg k₀) beats n).interrupt scripts (beats n)) n := by
  induction n with
  | zero => rfl
  | succ n ih =>
    have hinv := scripted_inv beats hscripts hknown hroom hboot n
    rw [system_succ, ← ih]
    exact hinv.step_config

variable (beats) in
/-- Every call takes a step, and as long as somebody runs, every step that is not the clock's is a
call. -/
theorem scripted_log_length (n : Nat) :
    (scripted scripts (start ramimages alg k₀) beats n).log.length
        ≤ Nat.count (fun m => (beats m).clock = false) n ∧
      ((scripted scripts (start ramimages alg k₀) beats n).config.proc? ≠ none →
        (scripted scripts (start ramimages alg k₀) beats n).log.length
          = Nat.count (fun m => (beats m).clock = false) n) := by
  induction n with
  | zero => exact ⟨Nat.le_refl _, fun _ => rfl⟩
  | succ n ih =>
    obtain ⟨hle, heq⟩ := ih
    have hstep := (scripted_inv beats hscripts hknown hroom hboot n).steps (t := beats n)
    have hnext : scripted scripts (start ramimages alg k₀) beats (n + 1)
      = (scripted scripts (start ramimages alg k₀) beats n).step scripts (beats n) := rfl
    rw [hnext]
    generalize (scripted scripts (start ramimages alg k₀) beats n).step scripts (beats n) = s'
      at hstep ⊢
    rw [Nat.count_succ]
    cases hstep with
    | spinning hs => exact ⟨Nat.le_add_right_of_le hle, fun hlive => absurd (by rw [hs]; rfl) hlive⟩
    | clock hclock hs _ =>
      have hlength := heq (by rw [hs]; exact Option.some_ne_none _)
      simp [hclock, hlength]
    | call hclock hs _ _ =>
      have hlength := heq (by rw [hs]; exact Option.some_ne_none _)
      simp [hclock, hlength]

end Fixed

end Runs

/-! ## The kernel comes back -/

/-- The scheduler finds somebody to run as long as somebody is runnable. -/
def Resumes (scheduling_algorithm : Int32) (scripts : Pid → List SysCall) : Prop :=
  (scheduling_algorithm = 0 ∨ scheduling_algorithm = 1 ∨ scheduling_algorithm = 2) ∨
    scheduling_algorithm = 3 ∧ ∀ p share, SysCall.sysSetShare share ∈ scripts p → 0 ≤ share

theorem Resumes.known (h : Resumes alg scripts) : KnownAlgorithm alg := by
  rcases h with (rfl | rfl | rfl) | ⟨rfl, -⟩ <;> simp [KnownAlgorithm]

/-- Under the first three algorithms. -/
theorem trap_user (halg : alg = 0 ∨ alg = 1 ∨ alg = 2) {trap : Trap}
    (hr : Running alg p k (k.procArray p).pRegisters) (hserved : Served trap.reg.regIntno)
    (hfuel : nprocs ≤ trap.fuel) (hq : (trap.call k).Runnable q) :
    ∃ r k' cpu', (Config.user p k cpu).trap trap = .user r k' cpu' := by
  obtain ⟨r, hr'⟩ := exists_isNext p (exists_candidate halg hq)
  exact ⟨_, _, _, trap_of_schedule hserved (schedule_candidate_run halg (hr.call_algorithm trap)
    (hr.call_pPid trap) hr' hfuel)⟩

theorem toInt_le_intMax (x : Int32) : x.toInt ≤ 2147483647 := by
  have hle := Int32.le_iff_toInt_le.mp (le_intMax x)
  rwa [show intMax.toInt = 2147483647 from rfl] at hle

/-- Shares that are not negative are passed on as such. -/
theorem Scripted.interrupt_shareIn (t : Beat) (s : Scripted)
    (hshares : ∀ p share, SysCall.sysSetShare share ∈ scripts p → 0 ≤ share) :
    (s.interrupt scripts t).ShareIn 2147483647 := by
  unfold Scripted.interrupt
  split
  · next call hnext _ =>
    intro huser
    obtain ⟨p, -, hp⟩ := Option.bind_eq_some_iff.mp hnext
    cases call
    case sysSetShare share =>
      have hmem := List.mem_of_getElem? hp
      have hnonneg := zero_le_iff.mp (hshares p share hmem)
      have hle := toInt_le_intMax share
      simp only [SysCall.trap, SysCall.eax, Option.getD_some, Int32.toInt32_toUInt32]
      exact ⟨hnonneg, hle⟩
    all_goals
      simp [SysCall.trap, SysCall.intno, intSysYield, intSysExit, intSysUser1, intSysUser2,
        intSysAtomicPrint, intSysSetLottery] at huser
  · intro huser
    have hclock : intClock ≠ intSysUser2 := by decide
    exact absurd huser hclock

section Runs

variable {ramimages : Fin 4 → Ramimage} {k₀ : Machine} {beats : Nat → Beat} {n : Nat}
  (hscripts : Playable scripts) (hresumes : Resumes alg scripts)
  (hroom : cellCount scripts ≤ 2000) (hboot : (start ramimages alg k₀).proc? ≠ none)
  (hfuel : ∀ n, nprocs < (beats n).fuel)
include hscripts hresumes hroom hboot hfuel

/-- Somebody runs as long as somebody is runnable. -/
theorem scripted_awake (n : Nat) (q : Pid)
    (hq : (scripted scripts (start ramimages alg k₀) beats n).config.machine.Runnable q) :
    (scripted scripts (start ramimages alg k₀) beats n).config.proc? ≠ none := by
  have hsystem := scripted_system beats hscripts hresumes.known hroom hboot
  induction n with
  | zero => exact hboot
  | succ n ih =>
    have hinv := scripted_inv beats hscripts hresumes.known hroom hboot n
    have hnext : (scripted scripts (start ramimages alg k₀) beats (n + 1)).config
      = (scripted scripts (start ramimages alg k₀) beats n).config.trap _ := hinv.step_config
    have hserved := Scripted.interrupt_served scripts (beats n)
      (scripted scripts (start ramimages alg k₀) beats n)
    have htime := (Scripted.interrupt_fuel scripts (beats n)
      (scripted scripts (start ramimages alg k₀) beats n)).symm ▸ hfuel n
    rw [hnext] at hq ⊢
    cases hc : (scripted scripts (start ramimages alg k₀) beats n).config with
    | spinning k =>
      rw [hc] at hq ih
      exact absurd rfl (ih hq)
    | user p k cpu =>
      rw [hc] at hq
      have hr := (hc ▸ hinv.ok).valid
      unfold Machine.Runnable at hq
      rw [trap_field _ p k cpu Process.pState (fun _ => rfl)] at hq
      have hdispatched : ∃ r k' cpu', (Config.user p k cpu).trap
          ((scripted scripts (start ramimages alg k₀) beats n).interrupt scripts (beats n))
            = .user r k' cpu' := by
        rcases hresumes with halg | ⟨rfl, hshares⟩
        · exact trap_user halg hr hserved (Nat.le_of_lt htime) hq
        · have hsys := (hsystem n).symm.trans hc
          have hin := system_sharesIn (S := 2147483647)
            (fun j _ => Scripted.interrupt_shareIn (beats j)
              (scripted scripts (start ramimages 3 k₀) beats j) hshares) hsys
          exact trap_share_awake hr (system_counting hsys) hin hserved htime
            (Scripted.interrupt_shareIn _ _ hshares) hq
      obtain ⟨r, k', cpu', hc'⟩ := hdispatched
      rw [hc']
      exact Option.some_ne_none r

omit hfuel in
/-- Nobody runs once there has been a step for each call. -/
theorem scripted_stopped
    (hcount : ∑ p, (scripts p).length ≤ Nat.count (fun m => (beats m).clock = false) n) :
    (scripted scripts (start ramimages alg k₀) beats n).config.proc? = none := by
  by_contra hlive
  have hinv := scripted_inv beats hscripts hresumes.known hroom hboot n
  obtain ⟨-, hlength⟩ :=
    scripted_log_length beats hscripts hresumes.known hroom hboot n
  rw [← hlength hlive] at hcount
  obtain ⟨p, hp⟩ := Option.ne_none_iff_exists'.mp hlive
  obtain ⟨k, cpu, hc⟩ := Config.proc?_eq_some hp
  have hr := (hc ▸ hinv.ok).valid
  have hstate := hinv.state p hr.ne_zero
  rw [if_pos (hinv.follows.complete hcount p), hc] at hstate
  have hrun : (k.procArray p).pState = .pRunnable := hr.runnable
  rw [Config.machine_user, hrun] at hstate
  cases hstate

/-- Then everybody has come to the end of its script. -/
theorem scripted_calls
    (hcount : ∑ p, (scripts p).length ≤ Nat.count (fun m => (beats m).clock = false) n) (p : Pid) :
    entriesOf (scripted scripts (start ramimages alg k₀) beats n).log p = scripts p := by
  have hinv := scripted_inv beats hscripts hresumes.known hroom hboot n
  by_cases hp : p = 0
  · have hprefix := hinv.follows 0
    rw [hp]
    rw [hscripts.zero] at hprefix ⊢
    exact List.prefix_nil.mp hprefix
  · by_contra hnot
    have hstate := hinv.state p hp
    rw [if_neg hnot] at hstate
    exact scripted_awake hscripts hresumes hroom hboot hfuel n p hstate
      (scripted_stopped hscripts hresumes hroom hboot hcount)

end Runs

/-! ## What the applications do -/

/-- What the applications have come to, as seen from outside. -/
structure Scripted.Performs (scripts : Pid → List SysCall) (ram₀ : Mem) (s : Scripted) :
    Prop where
  /-- Each process has made the calls with which its script begins, in their order. -/
  calls : ∀ p, entriesOf s.log p <+: scripts p
  state : ∀ p, p ≠ 0 → (s.config.machine.procArray p).pState
    = if entriesOf s.log p = scripts p then .pZombie else .pRunnable
  status : ∀ p status, entriesOf s.log p = scripts p →
    (scripts p).getLast? = some (.sysExit status) →
      (s.config.machine.procArray p).pExitStatus = status
  /-- What each process has printed is what its calls so far say, in their order. -/
  prints : ∀ p, entriesOf s.prints p = (entriesOf s.log p).filterMap SysCall.cell?
  /-- All the prints are on the screen, one after the other, and nothing else has changed. -/
  displays : Displays ram₀ (s.prints.map Prod.snd) (screenOf s.config.machine.ram)

/-- **Whatever the order**, under every algorithm and with any clock. -/
theorem scripted_sound (ramimages : Fin 4 → Ramimage) (alg : Int32) (k₀ : Machine)
    (scripts : Pid → List SysCall) (beats : Nat → Beat) (n : Nat) (hscripts : Playable scripts)
    (hknown : KnownAlgorithm alg) (hroom : cellCount scripts ≤ 2000)
    (hboot : (start ramimages alg k₀).proc? ≠ none) :
    (scripted scripts (start ramimages alg k₀) beats n).Performs scripts
      (start ramimages alg k₀).machine.ram := by
  have hinv := scripted_inv beats hscripts hknown hroom hboot n
  exact ⟨hinv.follows, hinv.state, hinv.status, fun p => entriesOf_viewed SysCall.cell?,
    hinv.displays⟩

/-- Everybody has come to the end of its script, and nobody runs. -/
structure Scripted.Complete (scripts : Pid → List SysCall) (s : Scripted) : Prop where
  stopped : s.config.proc? = none
  calls : ∀ p, entriesOf s.log p = scripts p

/-- **The scripts are carried out as soon as the clock has left a step for each call**, and not
before. -/
theorem scripted_ends (ramimages : Fin 4 → Ramimage) (alg : Int32) (k₀ : Machine)
    (scripts : Pid → List SysCall) (beats : Nat → Beat) (n : Nat) (hscripts : Playable scripts)
    (hresumes : Resumes alg scripts) (hroom : cellCount scripts ≤ 2000)
    (hfuel : ∀ n, nprocs < (beats n).fuel) (hboot : (start ramimages alg k₀).proc? ≠ none) :
    (scripted scripts (start ramimages alg k₀) beats n).Complete scripts ↔
      ∑ p, (scripts p).length ≤ Nat.count (fun m => (beats m).clock = false) n := by
  constructor
  · intro hcomplete
    obtain ⟨hle, -⟩ := scripted_log_length beats hscripts hresumes.known hroom hboot n
    rw [← sum_length_entriesOf] at hle
    simp only [hcomplete.calls] at hle
    exact hle
  · intro hcount
    exact ⟨scripted_stopped hscripts hresumes hroom hboot hcount,
      scripted_calls hscripts hresumes hroom hboot hfuel hcount⟩

/-- Each application says hello and exits with its own pid. -/
def helloScripts (p : Pid) : List SysCall :=
  if p = 0 then [] else [.sysAtomicPrint (0x41 + UInt32.ofNat p), .sysExit (Int32.ofNat p)]

theorem helloScripts_playable : Playable helloScripts where
  zero := rfl
  exits p hp := ⟨[.sysAtomicPrint (0x41 + UInt32.ofNat p)], Int32.ofNat p, if_neg hp, by simp⟩

/-- The clock ticks in every other step. -/
def helloBeats (n : Nat) : Beat :=
  ⟨⟨n % 2 == 0, fun _ => 0, 2 * nprocs⟩, .zero⟩

theorem scripted_sound_hello :
    (scripted helloScripts (start bareImages 4 bareMachine) helloBeats 7).Performs helloScripts
      (start bareImages 4 bareMachine).machine.ram := by
  refine scripted_sound bareImages 4 bareMachine helloScripts helloBeats 7 helloScripts_playable
    (by simp [KnownAlgorithm]) (by decide) (bare_proc? 4)

theorem scripted_ends_hello :
    (scripted helloScripts (start bareImages 3 bareMachine) helloBeats 16).Complete helloScripts ∧
      ¬ (scripted helloScripts (start bareImages 3 bareMachine) helloBeats 15).Complete
        helloScripts := by
  have hresumes : Resumes 3 helloScripts := by
    refine Or.inr ⟨rfl, fun p share hmem => ?_⟩
    unfold helloScripts at hmem
    split at hmem <;> simp at hmem
  have hends := fun n => scripted_ends bareImages 3 bareMachine helloScripts helloBeats n
    helloScripts_playable hresumes (by decide) (fun _ => show nprocs < 2 * nprocs by decide)
    (bare_proc? 3)
  exact ⟨(hends 16).mpr (by decide), (hends 15).not.mpr (by decide)⟩

end SchedOS
