import SchedOS.Properties.Printing

/-!
# The holder of the lock is never outranked

A process that spins for the lock keeps the processor from its holder if the scheduler prefers
it. Under algorithms 1 and 2 that does not happen. Both dispatch only processes of a certain
kind, and a process of that kind stays one as long as it does not run (`Favours`). So who has
got the lock, having run, is still of that kind when it is interrupted.

* `no_priority_inversion` — the holder is runnable, nobody runnable goes before it, and it is
  dispatched again after at most `NPROCS - 2` others
-/

namespace SchedOS

open Infra

/-! ## Schedulers that favour some processes -/

/-- From `k` to `k'`, process `h` has not changed and no other one has gained on it. -/
structure Machine.Eases (k k' : Machine) (h : Pid) : Prop where
  runnable_self : k.Runnable h → k'.Runnable h
  runnable : ∀ q, k'.Runnable q → k.Runnable q
  priority_self : (k'.procArray h).pPriority = (k.procArray h).pPriority
  priority : ∀ q, (k.procArray q).pPriority ≤ (k'.procArray q).pPriority

/-- The algorithm dispatches nobody but members of `S`, and somebody whenever it can. -/
structure Favours (alg : Int32) (S : Machine → Pid → Prop) : Prop where
  eases : ∀ k k' p, k.Eases k' p → S k p → S k' p
  picks : ∀ fuel tsc k q k' cpu, k.schedulingAlgorithm = alg →
    schedule fuel tsc k = .error (.user q k' cpu) → S k' q
  runs : ∀ fuel tsc k, k.schedulingAlgorithm = alg → nprocs ≤ fuel → (∃ q, k.Runnable q) →
    ∃ q k' cpu, schedule fuel tsc k = .error (.user q k' cpu)

theorem favours_lowest : Favours 1 Machine.Lowest := by
  constructor
  · intro k k' p he h
    exact ⟨he.runnable_self h.1, fun q hq hr => h.2 q hq (he.runnable q hr)⟩
  · intro fuel tsc k q k' cpu halg h
    obtain ⟨hq, rfl⟩ := schedule_lowestPid_user halg h
    exact hq
  · intro fuel tsc k halg hfuel hrun
    obtain ⟨p, hp, hlow⟩ := exists_lowest hrun
    exact ⟨p, _, _, schedule_lowestPid_run halg hp hlow (Nat.lt_of_lt_of_le (by decide) hfuel)⟩

theorem favours_urgent : Favours 2 Machine.Urgent := by
  constructor
  · intro k k' p he h
    refine ⟨he.runnable_self h.1, fun q hq => ?_⟩
    rw [he.priority_self]
    exact Int32.le_trans (h.2 q (he.runnable q hq)) (he.priority q)
  · intro fuel tsc k q k' cpu halg h
    obtain ⟨hq, rfl⟩ := schedule_priority_user halg rfl h
    exact hq.1
  · intro fuel tsc k halg hfuel hrun
    obtain ⟨q, hq⟩ := exists_isNext (k.procArray k.current).pPid (exists_urgent hrun)
    exact ⟨q, _, _, schedule_priority_run halg rfl hq hfuel⟩

variable {alg : Int32} {S : Machine → Pid → Prop} {apps : Apps} {t : Tick} {p h : Pid}
  {k : Machine} {cpu : Registers} {e : Exec} {w w' : World} {pc : Pc}

/-! ## Moves of the others -/

section Moves

variable (hm : Moves apps w w' p pc e) (hr : Running alg p k (k.procArray p).pRegisters)
  (hw : w.config = .user p k cpu) (ht : Tracks apps w p pc)
  (hpriority : 0 ≤ (apps.program p).priority)
include hm hr hw ht hpriority

/-- A move of `p` gives it nothing over `h`: the only priority that it can set is not below the
0 that it has had until then. -/
theorem Moves.eases (hh : h = p → e.int ≠ some intSysExit ∧ e.int ≠ some intSysUser1) :
    w.config.machine.Eases (w'.finish apps t p k e).config.machine h := by
  have hw' : w'.config = .user p k cpu := hm.config.trans hw
  constructor
  · intro hrun
    unfold Machine.Runnable
    rw [finish_pState hr hw', hm.config, if_neg fun he => (hh he.2).1 he.1]
    exact hrun
  · intro q hrun
    unfold Machine.Runnable at hrun
    rw [finish_pState hr hw', hm.config] at hrun
    split at hrun
    · cases hrun
    · exact hrun
  · rw [finish_pPriority hr hw', hm.config, if_neg fun he => (hh he.2).2 he.1]
  · intro q
    rw [finish_pPriority hr hw', hm.config]
    split
    · next he =>
      obtain ⟨hint, rfl⟩ := he
      obtain ⟨hpc, -, heax⟩ := hm.user1 hint
      have hold := ht.pPriority
      rw [if_pos hpc] at hold
      rw [hold, heax]
      exact hpriority
    · exact Int32.le_refl _

/-- Who is dispatched is favoured, and so is who goes on after an ordinary instruction. -/
theorem Moves.running (hS : Favours alg S) (hp : S k p) {q : Pid}
    (hq : (w'.finish apps t p k e).config.proc? = some q) :
    S (w'.finish apps t p k e).config.machine q := by
  have hw' : w'.config = .user p k cpu := hm.config.trans hw
  cases hint : e.int with
  | none =>
    have hease := hm.eases (t := t) (h := p) hr hw ht hpriority fun _ => by simp [hint]
    rw [hw] at hease
    rw [finish_of_none hint] at hq hease ⊢
    rw [← Option.some.inj hq]
    exact hS.eases _ _ _ hease hp
  | some intno =>
    rw [finish_config hint hw'] at hq ⊢
    obtain ⟨k', cpu', hc⟩ := Config.proc?_eq_some hq
    rw [hc]
    exact hS.picks _ _ _ _ _ _ (hr.call_algorithm _) (schedule_of_trap hc)

end Moves

/-! ## The invariant -/

/-- Who runs is favoured, and so is who has the lock. -/
structure World.Favoured (S : Machine → Pid → Prop) (apps : Apps) (w : World) : Prop where
  running : ∀ p, w.config.proc? = some p → S w.config.machine p
  holder : ∀ h, apps.Inside h (w.config.regs h) → S w.config.machine h

theorem inside_resume_iff : apps.Inside p (apps.resume p e) ↔ e.pc.phase e.cpu ≠ .outside := by
  rw [Apps.inside_iff, Apps.phase_resume]

/-- Entry 0 never runs, and is never inside. -/
theorem World.OnTrack.inside_ne_zero (htrack : w.OnTrack apps alg)
    (hinside : apps.Inside h (w.config.regs h)) : h ≠ 0 := by
  rintro rfl
  obtain ⟨pc, ht⟩ := htrack.tracks 0
  rw [Apps.inside_iff, Apps.phase, ht.decode, ht.idle rfl] at hinside
  simp [Pc.phase] at hinside

theorem Moves.favoured (hS : Favours alg S) (hf : w.Favoured S apps)
    (hm : Moves apps w w' p pc e) (hr : Running alg p k (k.procArray p).pRegisters)
    (hw : w.config = .user p k cpu) (ht : Tracks apps w p pc)
    (hpriority : 0 ≤ (apps.program p).priority) :
    (w'.finish apps t p k e).Favoured S apps := by
  have hp : S w.config.machine p := hf.running p (by rw [hw]; rfl)
  constructor
  · intro q hq
    rw [hw] at hp
    exact hm.running hr hw ht hpriority hS hp hq
  · intro h hinside
    rw [finish_regs hr (hm.config.trans hw), hm.config] at hinside
    by_cases hh : h = p
    · -- inside the lock a process neither exits nor sets its priority
      subst hh
      rw [Function.update_self, inside_resume_iff] at hinside
      refine hS.eases _ _ _
        (hm.eases hr hw ht hpriority fun _ => ⟨fun hint => ?_, fun hint => ?_⟩) hp
      · rw [hm.exit_iff] at hint
        simp [hint, Pc.phase] at hinside
      · simp [(hm.user1 hint).2.1, Pc.phase] at hinside
    · rw [Function.update_of_ne hh] at hinside
      exact hS.eases _ _ _ (hm.eases hr hw ht hpriority fun he => absurd he hh)
        (hf.holder h hinside)

theorem World.Steps.favoured (hstep : World.Steps apps alg t w w') (hS : Favours alg S)
    (hrun : apps.runcount < 2 ^ 31) (hpriority : ∀ p, 0 ≤ (apps.program p).priority)
    (hf : w.Favoured S apps) : w'.Favoured S apps := by
  cases hstep with
  | spinning _ => exact hf
  | clock _ hw hr ht hpc =>
    exact (moves_clock ht hw hpc).favoured hS hf hr hw ht (hpriority _)
  | instr _ hw hr ht hpc =>
    exact (moves_exec hrun ht hw hpc).favoured hS hf hr hw ht (hpriority _)

/-! ## The kernel comes back -/

/-- The kernel spins only while there is nobody to run. -/
def World.Awake (w : World) : Prop :=
  ∀ q, w.config.proc? = none → ¬ w.config.machine.Runnable q

theorem Moves.awake (hS : Favours alg S) (hfuel : nprocs ≤ t.fuel)
    (hm : Moves apps w w' p pc e) (hr : Running alg p k (k.procArray p).pRegisters)
    (hw : w.config = .user p k cpu) (hserved : ∀ intno, e.int = some intno → Served intno) :
    (w'.finish apps t p k e).Awake := by
  have hw' : w'.config = .user p k cpu := hm.config.trans hw
  intro q hnone hrun
  cases hint : e.int with
  | none =>
    rw [finish_of_none hint] at hnone
    cases hnone
  | some intno =>
    rw [finish_config hint hw'] at hnone hrun
    have hcall : ∃ q, (Trap.call ⟨apps.resume p e, e.ram, t.tsc, t.fuel⟩ k).Runnable q := by
      refine ⟨q, ?_⟩
      unfold Machine.Runnable at hrun ⊢
      rwa [trap_field _ p k cpu Process.pState (fun _ => rfl)] at hrun
    have hintno : (apps.resume p e).regIntno = intno := by simp [Apps.resume, hint]
    obtain ⟨r, k', cpu', hs⟩ := hS.runs t.fuel t.tsc _ (hr.call_algorithm _) hfuel hcall
    rw [trap_of_schedule (by rw [hintno]; exact hserved _ hint) hs] at hnone
    cases hnone

theorem World.Steps.awake (hstep : World.Steps apps alg t w w') (hS : Favours alg S)
    (hrun : apps.runcount < 2 ^ 31) (hfuel : nprocs ≤ t.fuel) (hawake : w.Awake) :
    w'.Awake := by
  cases hstep with
  | spinning _ => exact hawake
  | clock _ hw hr ht hpc =>
    have hclock : Served intClock := by decide
    exact (moves_clock ht hw hpc).awake hS hfuel hr hw fun _ he => Option.some.inj he ▸ hclock
  | instr _ hw hr ht hpc =>
    exact (moves_exec hrun ht hw hpc).awake hS hfuel hr hw fun _ => exec_served

/-! ## Waiting for the next turn -/

/-- The instruction belongs to a print, up to and including the `sys_yield` after it. -/
def Pc.Printing (cpu : Registers) (pc : Pc) : Prop := pc.phase cpu ≠ .outside ∨ pc = .sysYield

/-- A process at such an instruction goes on to another one or enters the kernel, not to exit. -/
theorem exec_printing {program : Program} {runcount : Nat} {ram : Mem} (h : pc.Printing cpu) :
    (program.exec runcount cpu ram pc).int ≠ some intSysExit ∧
      ((program.exec runcount cpu ram pc).int = none →
        (program.exec runcount cpu ram pc).pc.Printing (program.exec runcount cpu ram pc).cpu) := by
  cases pc
  case testLock =>
    have hval : cpu.regEax = 0 := by simpa [Pc.Printing, Pc.phase] using h
    simp [Pc.Printing, Pc.phase, Program.exec, hval]
  all_goals simp_all [Pc.Printing, Pc.phase, Program.exec, intSysYield, intSysExit]

/-- Process `h` has been inside the lock, and the processes `ds` have been dispatched since. -/
inductive World.Awaits (apps : Apps) (w : World) (h : Pid) : List Pid → Prop where
  | again {ds : List Pid} (hmem : h ∈ ds) : Awaits apps w h ds
  /-- It has run on since then. -/
  | running {pc : Pc} (hproc : w.config.proc? = some h)
    (hdecode : apps.decode h (w.config.regs h) = some pc)
    (hprint : pc.Printing (w.config.regs h)) : Awaits apps w h []
  /-- It has been interrupted; each dispatch brings its turn nearer. -/
  | waiting {ds : List Pid} (hne : w.config.proc? ≠ some h) (hurgent : w.config.machine.Urgent h)
    (hlength : ds.length ≤ nprocs - 2)
    (hahead : ∀ p, w.config.proc? = some p → ds.length + ahead applications p h ≤ nprocs - 2) :
    Awaits apps w h ds

theorem World.Awaits.length_le {ds : List Pid} (h₀ : w.Awaits apps h ds) (hmem : h ∉ ds) :
    ds.length ≤ nprocs - 2 := by
  cases h₀ with
  | again hin => exact absurd hin hmem
  | running _ _ _ => exact Nat.zero_le _
  | waiting _ _ hlength _ => exact hlength

/-- A process that is not dispatched again is urgent as long as it waits. -/
theorem World.Awaits.urgent {ds : List Pid} (hf : w.Favoured Machine.Urgent apps)
    (h₀ : w.Awaits apps h ds) (hmem : h ∉ ds) : w.config.machine.Urgent h := by
  cases h₀ with
  | again hin => exact absurd hin hmem
  | running hproc _ _ => exact hf.running h hproc
  | waiting _ hurgent _ _ => exact hurgent

theorem World.Awaits.ahead_le {ds : List Pid} (h₀ : w.Awaits apps h ds) (hmem : h ∉ ds)
    (hproc : w.config.proc? = some p) (hne : p ≠ h) :
    ds.length + ahead applications p h ≤ nprocs - 2 := by
  cases h₀ with
  | again hin => exact absurd hin hmem
  | running hproc' _ _ => exact absurd (Option.some.inj (hproc.symm.trans hproc')) hne
  | waiting _ _ _ hahead => exact hahead p hproc

/-- If `h` is the process that runs, it is still printing. -/
theorem World.Awaits.printing {ds : List Pid} (h₀ : w.Awaits apps h ds) (hmem : h ∉ ds)
    (hw : w.config = .user h k cpu) (ht : Tracks apps w h pc) : ds = [] ∧ pc.Printing cpu := by
  cases h₀ with
  | again hin => exact absurd hin hmem
  | running _ hdecode hprint =>
    obtain rfl := Option.some.inj (hdecode.symm.trans ht.decode)
    rw [hw] at hprint
    exact ⟨rfl, by simpa [Config.regs] using hprint⟩
  | waiting hne _ _ _ => exact absurd (by rw [hw]; rfl) hne

section Awaits

variable {ds : List Pid} (hm : Moves apps w w' p pc e)
  (hr : Running 2 p k (k.procArray p).pRegisters) (hw : w.config = .user p k cpu)
  (ht : Tracks apps w p pc) (hpriority : 0 ≤ (apps.program p).priority)
  (hf : w.Favoured Machine.Urgent apps)
  (hprinting : pc.Printing cpu →
    e.int ≠ some intSysExit ∧ (e.int = none → e.pc.Printing e.cpu))
  (h₀ : w.Awaits apps h ds) (hmem : h ∉ ds)
include hm hr hw ht hpriority hf hprinting h₀ hmem

/-- It is urgent after the move as well. -/
theorem Moves.urgent : (w'.finish apps t p k e).config.machine.Urgent h := by
  refine favours_urgent.eases _ _ _ (hm.eases hr hw ht hpriority fun hp => ?_) (h₀.urgent hf hmem)
  subst hp
  obtain ⟨-, hprint⟩ := h₀.printing hmem hw ht
  refine ⟨(hprinting hprint).1, fun hint => ?_⟩
  rw [(hm.user1 hint).1] at hprint
  simp [Pc.Printing, Pc.phase] at hprint

/-- An instruction that does not enter the kernel. -/
theorem Moves.awaits_of_none (hint : e.int = none) :
    (w'.finish apps t p k e).Awaits apps h ds := by
  have hw' : w'.config = .user p k cpu := hm.config.trans hw
  have hproc : (w'.finish apps t p k e).config.proc? = some p := by
    rw [finish_of_none hint]
    rfl
  by_cases hp : p = h
  · subst hp
    obtain ⟨rfl, hprint⟩ := h₀.printing hmem hw ht
    have hregs : (w'.finish apps t p k e).config.regs p = apps.resume p e := by
      rw [finish_regs hr hw', Function.update_self]
    have hdecode : apps.decode p ((w'.finish apps t p k e).config.regs p) = some e.pc := by
      rw [hregs, Apps.decode_resume]
    refine .running hproc hdecode ?_
    rw [hregs]
    exact (hprinting hprint).2 hint
  · have hurgent := hm.urgent (t := t) hr hw ht hpriority hf hprinting h₀ hmem
    refine .waiting (by rw [hproc]; simpa using hp) hurgent (h₀.length_le hmem) fun q hq => ?_
    obtain rfl : p = q := Option.some.inj (hproc.symm.trans hq)
    exact h₀.ahead_le hmem (by rw [hw]; rfl) hp

/-- If another process `q` is dispatched, one fewer is ahead of `h`. -/
theorem Moves.ahead_succ_le {q : Pid} {intno : UInt32} (hint : e.int = some intno)
    (hh : h ≠ 0) (hproc : (w'.finish apps t p k e).config.proc? = some q) (hq : q ≠ h) :
    ds.length + 1 + ahead applications q h ≤ nprocs - 2 := by
  have hw' : w'.config = .user p k cpu := hm.config.trans hw
  have hurgent := hm.urgent (t := t) hr hw ht hpriority hf hprinting h₀ hmem
  obtain ⟨k', cpu', hc⟩ := Config.proc?_eq_some hproc
  have hq0 : q ≠ 0 := by
    have hvalid : (w'.finish apps t p k e).config.Valid 2 := finish_valid hr hw'
    rw [hc] at hvalid
    exact Running.ne_zero hvalid
  by_cases hp : p = h
  · subst hp
    obtain ⟨rfl, -⟩ := h₀.printing hmem hw ht
    have hle := ahead_applications hq0 hh hq
    show 0 + 1 + _ ≤ 3
    omega
  · have hbefore := h₀.ahead_le hmem (by rw [hw]; rfl) hp
    have hlt : ahead applications q h < ahead applications p h := by
      refine ahead_lt (mem_applications.mpr hq0) ?_
      rw [hc] at hurgent
      rw [finish_config hint hw'] at hc
      obtain ⟨hnext, rfl⟩ := schedule_priority_user (hr.call_algorithm _) (hr.call_pPid _)
        (schedule_of_trap hc)
      exact Nat.lt_of_le_of_ne (hnext.2 h hurgent) fun he => hq (gap_inj he)
    omega

/-- An instruction or a clock interrupt that enters the kernel. -/
theorem Moves.awaits_of_some {intno : UInt32} (hint : e.int = some intno) (hh : h ≠ 0) :
    (w'.finish apps t p k e).Awaits apps h
      (ds ++ (w'.finish apps t p k e).config.proc?.toList) := by
  have hurgent := hm.urgent (t := t) hr hw ht hpriority hf hprinting h₀ hmem
  cases hproc : (w'.finish apps t p k e).config.proc? with
  | none =>
    rw [Option.toList_none, List.append_nil]
    exact .waiting (by simp [hproc]) hurgent (h₀.length_le hmem) (by simp [hproc])
  | some q =>
    by_cases hq : q = h
    · exact .again (by simp [hq])
    · have hahead := hm.ahead_succ_le hr hw ht hpriority hf hprinting h₀ hmem hint hh hproc hq
      refine .waiting (by simpa [hproc] using hq) hurgent ?_ fun r hr' => ?_
      · simp only [Option.toList_some, List.length_append, List.length_singleton]
        omega
      · obtain rfl : q = r := Option.some.inj (hproc.symm.trans hr')
        simpa using hahead

end Awaits

/-- The processes that a move dispatches. -/
def dispatchedBy (e : Exec) (w : World) : List Pid :=
  if e.int = none then [] else w.config.proc?.toList

theorem finish_dispatched : (w.finish apps t p k e).dispatched
    = w.dispatched ++ dispatchedBy e (w.finish apps t p k e) := by
  unfold dispatchedBy
  cases hint : e.int with
  | none => simp [finish_of_none hint]
  | some intno => rw [if_neg (by simp), finish_of_some hint, World.trap]

/-- The step lemma: what the move dispatches is added to `ds`. -/
theorem Moves.awaits {ds : List Pid} (hm : Moves apps w w' p pc e)
    (hr : Running 2 p k (k.procArray p).pRegisters) (hw : w.config = .user p k cpu)
    (ht : Tracks apps w p pc) (hpriority : 0 ≤ (apps.program p).priority) (hh : h ≠ 0)
    (hf : w.Favoured Machine.Urgent apps)
    (hprinting : pc.Printing cpu →
      e.int ≠ some intSysExit ∧ (e.int = none → e.pc.Printing e.cpu))
    (h₀ : w.Awaits apps h ds) :
    (w'.finish apps t p k e).Awaits apps h
      (ds ++ dispatchedBy e (w'.finish apps t p k e)) := by
  by_cases hmem : h ∈ ds
  · exact .again (List.mem_append_left _ hmem)
  unfold dispatchedBy
  cases hint : e.int with
  | none =>
    rw [if_pos rfl, List.append_nil]
    exact hm.awaits_of_none hr hw ht hpriority hf hprinting h₀ hmem hint
  | some intno =>
    rw [if_neg (by simp)]
    exact hm.awaits_of_some hr hw ht hpriority hf hprinting h₀ hmem hint hh

/-- One step of the world. A clock interrupt always asks for a dispatch. -/
theorem World.Steps.awaits {ds : List Pid} (hstep : World.Steps apps 2 t w w')
    (hrun : apps.runcount < 2 ^ 31) (hpriority : ∀ p, 0 ≤ (apps.program p).priority) (hh : h ≠ 0)
    (hf : w.Favoured Machine.Urgent apps) (h₀ : w.Awaits apps h ds) :
    ∃ new, w'.dispatched = w.dispatched ++ new ∧ w'.Awaits apps h (ds ++ new) ∧
      (t.clock = true → w.config.proc? ≠ none → new = w'.config.proc?.toList) := by
  cases hstep with
  | spinning hw =>
    refine ⟨[], by simp, by simpa using h₀, fun _ hproc => ?_⟩
    rw [hw] at hproc
    exact absurd rfl hproc
  | @clock p k cpu pc _ hw hr ht hpc =>
    have hint : some intClock ≠ some intSysExit := by decide
    refine ⟨_, finish_dispatched, ?_, fun _ _ => by simp [dispatchedBy]⟩
    refine (moves_clock ht hw hpc).awaits hr hw ht (hpriority p) hh hf (fun _ => ⟨hint, ?_⟩) h₀
    intro hnone
    cases hnone
  | @instr p k cpu pc hclock hw hr ht hpc =>
    refine ⟨_, by rw [finish_dispatched, record_dispatched], ?_, fun hc => ?_⟩
    · exact (moves_exec hrun ht hw hpc).awaits hr hw ht (hpriority p) hh hf exec_printing h₀
    · simp [hclock] at hc

/-! ## Runs -/

section Runs

variable {ramimages : Fin 4 → Ramimage} {k₀ : Machine} {program : Pid → Program}
  {runcount : Nat}

theorem boot_runnable_iff (hboot : (start ramimages alg k₀).proc? ≠ none) (q : Pid) :
    (start ramimages alg k₀).machine.Runnable q ↔ q ≠ 0 := by
  obtain ⟨k, hk, hb⟩ := start_booted hboot
  rw [hk]
  exact hb.runnable_iff q

theorem boot_pPriority (hboot : (start ramimages alg k₀).proc? ≠ none) (q : Pid) :
    ((start ramimages alg k₀).machine.procArray q).pPriority = 0 := by
  have hpriority := (boot_tracks (fun _ => shippedProgram q) 0 hboot q).pPriority
  rwa [World.boot_config, if_pos rfl] at hpriority

theorem boot_lowest (hboot : (start ramimages alg k₀).proc? ≠ none) :
    (start ramimages alg k₀).machine.Lowest 1 := by
  refine ⟨(boot_runnable_iff hboot 1).mpr (by decide), fun q hq hrun => ?_⟩
  exact (boot_runnable_iff hboot q).mp hrun (Fin.lt_one_iff q |>.mp hq)

theorem boot_urgent (hboot : (start ramimages alg k₀).proc? ≠ none) :
    (start ramimages alg k₀).machine.Urgent 1 := by
  refine ⟨(boot_runnable_iff hboot 1).mpr (by decide), fun q _ => ?_⟩
  rw [boot_pPriority hboot, boot_pPriority hboot]
  exact Int32.le_refl _

theorem boot_favoured (hboot : (start ramimages alg k₀).proc? ≠ none)
    (h₁ : S (start ramimages alg k₀).machine 1) :
    (World.boot (start ramimages alg k₀)).Favoured S
      (.load program runcount (start ramimages alg k₀)) where
  running q hq := by
    rw [World.boot_config] at hq ⊢
    obtain ⟨k, cpu, hc⟩ := Config.proc?_eq_some hq
    rw [(start_user hc).1]
    exact h₁
  holder h hinside := by
    rw [Apps.inside_iff, Apps.phase, (boot_tracks program runcount hboot h).decode] at hinside
    simp [Pc.phase] at hinside

/-- Who runs and who has the lock is favoured, in every reachable state … -/
theorem world_favoured (hrun : runcount < 2 ^ 31)
    (hboot : (start ramimages alg k₀).proc? ≠ none) (hS : Favours alg S)
    (h₁ : S (start ramimages alg k₀).machine 1) (hpriority : ∀ p, 0 ≤ (program p).priority)
    (ticks : Nat → Tick) (n : Nat) :
    (world program runcount (start ramimages alg k₀) ticks n).Favoured S
      (.load program runcount (start ramimages alg k₀)) := by
  induction n with
  | zero => exact boot_favoured hboot h₁
  | succ n ih => exact (world_steps program hrun hboot ticks n).favoured hS hrun hpriority ih

/-- … and the kernel never waits for more passes of the scheduling loop than it gets. -/
theorem world_awake (program : Pid → Program) (hrun : runcount < 2 ^ 31)
    (hboot : (start ramimages alg k₀).proc? ≠ none) (hS : Favours alg S) {ticks : Nat → Tick}
    (hfuel : ∀ j, nprocs ≤ (ticks j).fuel) (n : Nat) :
    (world program runcount (start ramimages alg k₀) ticks n).Awake := by
  induction n with
  | zero => exact fun q hnone => absurd hnone hboot
  | succ n ih => exact (world_steps program hrun hboot ticks n).awake hS hrun (hfuel n) ih

end Runs

/-! ## Algorithm 2 -/

section Urgent

variable {ramimages : Fin 4 → Ramimage} {k₀ : Machine} {program : Pid → Program}
  {runcount m : Nat} {ticks : Nat → Tick} (hrun : runcount < 2 ^ 31)
  (hpriority : ∀ p, 0 ≤ (program p).priority)
  (hboot : (start ramimages 2 k₀).proc? ≠ none)
  (hinside : (Apps.load program runcount (start ramimages 2 k₀)).Inside h
    ((world program runcount (start ramimages 2 k₀) ticks m).config.regs h))
include hrun hpriority hboot hinside

/-- At first `h` either runs or waits. -/
theorem world_awaits_self :
    (world program runcount (start ramimages 2 k₀) ticks m).Awaits
      (.load program runcount (start ramimages 2 k₀)) h [] := by
  have hf := world_favoured hrun hboot favours_urgent (boot_urgent hboot) hpriority ticks m
  have htrack := world_onTrack program hrun hboot ticks m
  by_cases hproc : (world program runcount (start ramimages 2 k₀) ticks m).config.proc? = some h
  · rw [Apps.inside_iff, Apps.phase] at hinside
    obtain ⟨pc, ht⟩ := htrack.tracks h
    rw [ht.decode] at hinside
    exact .running hproc ht.decode (Or.inl hinside)
  · refine .waiting hproc (hf.holder h hinside) (Nat.zero_le _) fun p hp => ?_
    have hne : p ≠ h := fun he => hproc (he ▸ hp)
    obtain ⟨k, cpu, hc⟩ := Config.proc?_eq_some hp
    have hvalid := htrack.valid
    rw [hc] at hvalid
    have hle := ahead_applications (Running.ne_zero hvalid) (htrack.inside_ne_zero hinside) hne
    show 0 + _ ≤ 3
    omega

/-- The run lemma: from a state in which `h` has the lock, it awaits its next turn; with enough
passes of the scheduling loop, every clock interrupt is a dispatch. -/
theorem world_awaits (l : Nat) : ∃ ds,
    (world program runcount (start ramimages 2 k₀) ticks (m + l)).dispatched
      = (world program runcount (start ramimages 2 k₀) ticks m).dispatched ++ ds ∧
    (world program runcount (start ramimages 2 k₀) ticks (m + l)).Awaits
      (.load program runcount (start ramimages 2 k₀)) h ds ∧
    ((∀ j, nprocs ≤ (ticks j).fuel) →
      h ∈ ds ∨ (List.range l).countP (fun j => (ticks (m + j)).clock) ≤ ds.length) := by
  induction l with
  | zero =>
    rw [Nat.add_zero]
    exact ⟨[], (List.append_nil _).symm, world_awaits_self hrun hpriority hboot hinside,
      fun _ => Or.inr (Nat.le_refl _)⟩
  | succ l ih =>
    obtain ⟨ds, hds, hawaits, hclocks⟩ := ih
    have hh := (world_onTrack program hrun hboot ticks m).inside_ne_zero hinside
    have hf := world_favoured hrun hboot favours_urgent (boot_urgent hboot) hpriority ticks
    obtain ⟨new, hnew, hawaits', hdispatch⟩ :=
      (world_steps program hrun hboot ticks (m + l)).awaits hrun hpriority hh (hf (m + l)) hawaits
    rw [← Nat.add_assoc]
    refine ⟨ds ++ new, by rw [hnew, hds, List.append_assoc], hawaits', fun hfuel => ?_⟩
    by_cases hmem : h ∈ ds ++ new
    · exact Or.inl hmem
    refine Or.inr ?_
    have hmem' : h ∉ ds := fun hin => hmem (List.mem_append_left _ hin)
    have hle := (hclocks hfuel).resolve_left hmem'
    rw [List.range_succ, List.countP_append, List.length_append]
    refine Nat.add_le_add hle ?_
    -- as long as `h` can run, the kernel does not spin
    have hawake := world_awake program hrun hboot favours_urgent hfuel
    have hlive := fun hnone => hawake (m + l) h hnone (hawaits.urgent (hf (m + l)) hmem').1
    have hlive' := fun hnone =>
      hawake (m + l + 1) h hnone (hawaits'.urgent (hf (m + l + 1)) hmem).1
    cases hclock : (ticks (m + l)).clock with
    | false => simp [hclock]
    | true =>
      obtain ⟨q, hq⟩ := Option.ne_none_iff_exists'.mp hlive'
      rw [hdispatch hclock hlive, hq]
      simp [hclock]

end Urgent

/-- What the holder of the lock can rely on under algorithm 2. -/
structure NoInversion (apps : Apps) (ticks : Nat → Tick) (run : Nat → World) : Prop where
  urgent : ∀ n h, apps.Inside h ((run n).config.regs h) →
    (run n).config.machine.Runnable h ∧
      ∀ q, (run n).config.machine.Runnable q →
        ((run n).config.machine.procArray h).pPriority
          ≤ ((run n).config.machine.procArray q).pPriority
  /-- Before it is dispatched again, at most `NPROCS - 2` others are. -/
  turn : ∀ m n h, m ≤ n → apps.Inside h ((run m).config.regs h) →
    ∃ ds, (run n).dispatched = (run m).dispatched ++ ds ∧ (h ∉ ds → ds.length ≤ nprocs - 2)
  /-- If the scheduling loop has time to go round the table, `NPROCS - 1` clock interrupts are
  enough for that. -/
  again : (∀ j, nprocs ≤ (ticks j).fuel) → ∀ m l h, apps.Inside h ((run m).config.regs h) →
    nprocs - 1 ≤ (List.range l).countP (fun j => (ticks (m + j)).clock) →
    ∃ ds, (run (m + l)).dispatched = (run m).dispatched ++ ds ∧ h ∈ ds

/-- **No priority inversion on the lock.** Under algorithm 2 a process that has the lock is one
of smallest `p_priority` and gets its next turn after at most `NPROCS - 2` others; under
algorithm 1 it is the runnable process with the lowest pid. -/
theorem no_priority_inversion (ramimages : Fin 4 → Ramimage) (k₀ : Machine)
    (program : Pid → Program) (runcount : Nat) (ticks : Nat → Tick) (hrun : runcount < 2 ^ 31)
    (hpriority : ∀ p, 0 ≤ (program p).priority)
    (hboot : ∀ alg, (start ramimages alg k₀).proc? ≠ none) :
    NoInversion (.load program runcount (start ramimages 2 k₀)) ticks
        (world program runcount (start ramimages 2 k₀) ticks) ∧
      ∀ n h, (Apps.load program runcount (start ramimages 1 k₀)).Inside h
          ((world program runcount (start ramimages 1 k₀) ticks n).config.regs h) →
        (world program runcount (start ramimages 1 k₀) ticks n).config.machine.Runnable h ∧
          ∀ q, q < h →
            ¬ (world program runcount (start ramimages 1 k₀) ticks
              n).config.machine.Runnable q := by
  constructor
  · constructor
    · intro n h hinside
      exact (world_favoured hrun (hboot 2) favours_urgent (boot_urgent (hboot 2)) hpriority ticks
        n).holder h hinside
    · intro m n h hmn hinside
      obtain ⟨l, rfl⟩ := Nat.exists_eq_add_of_le hmn
      obtain ⟨ds, hds, hawaits, -⟩ := world_awaits hrun hpriority (hboot 2) hinside l
      exact ⟨ds, hds, hawaits.length_le⟩
    · intro hfuel m l h hinside hclocks
      obtain ⟨ds, hds, hawaits, hcount⟩ := world_awaits hrun hpriority (hboot 2) hinside l
      refine ⟨ds, hds, ?_⟩
      by_contra hmem
      have hlength := hawaits.length_le hmem
      have hle := (hcount hfuel).resolve_left hmem
      have hnprocs : nprocs - 2 < nprocs - 1 := by decide
      omega
  · intro n h hinside
    exact (world_favoured hrun (hboot 1) favours_lowest (boot_lowest (hboot 1)) hpriority ticks
      n).holder h hinside

theorem no_priority_inversion_shipped :
    NoInversion (.load shippedProgram shippedRuncount (start bareImages 2 bareMachine)) thirdTicks
        (world shippedProgram shippedRuncount (start bareImages 2 bareMachine) thirdTicks) ∧
      ∀ n h, (Apps.load shippedProgram shippedRuncount (start bareImages 1 bareMachine)).Inside h
          ((world shippedProgram shippedRuncount (start bareImages 1 bareMachine) thirdTicks
            n).config.regs h) →
        (world shippedProgram shippedRuncount (start bareImages 1 bareMachine) thirdTicks
            n).config.machine.Runnable h ∧
          ∀ q, q < h →
            ¬ (world shippedProgram shippedRuncount (start bareImages 1 bareMachine) thirdTicks
              n).config.machine.Runnable q :=
  no_priority_inversion bareImages bareMachine shippedProgram shippedRuncount thirdTicks
    (by decide) (by decide) bare_proc?

end SchedOS
