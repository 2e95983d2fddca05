import SchedOS.Properties.Scripts
import SchedOS.Properties.Transcript

/-!
# The build that prints in the kernel

Without `__PRINT_METHOD_LOCK__` there is nothing to wait for. So the applications come to an end
under a bound, wherever the clock interrupts them, and `lock` does not matter any more, not even
with what value the memory comes up.

* `atomic_build_ends` — after `4 * (2 * RUNCOUNT + 4)` system calls all four have exited, and each
  has its characters on the console
* `atomic_build_transcript` — without clock interrupts, they are in the same order as those that are
  printed under the lock
-/

namespace SchedOS

open Infra

variable {defines : Pid → Defines} {runcount : Nat} {d : Defines} {s : Scripted} {p : Pid}

/-- The scripts of the applications. -/
def buildScripts (defines : Pid → Defines) (runcount : Nat) (p : Pid) : List SysCall :=
  if p = 0 then [] else (defines p).calls runcount

theorem length_calls : (d.calls runcount).length = 2 * runcount + 4 := by
  simp [Defines.calls]
  omega

theorem getLast?_calls : (d.calls runcount).getLast? = some (.sysExit 0) :=
  List.getLast?_concat ..

/-- The calls of the loop print the character again and again. -/
theorem filterMap_cell?_calls : (d.calls runcount).filterMap SysCall.cell?
    = List.replicate runcount (widened d.printchar.toUInt32) := by
  have hloop : ∀ n, ((List.replicate n [SysCall.sysAtomicPrint d.printchar.toUInt32,
      .sysYield]).flatten).filterMap SysCall.cell?
        = List.replicate n (widened d.printchar.toUInt32) := by
    intro n
    induction n with
    | zero => rfl
    | succ n ih => simp [List.replicate_succ, List.filterMap_cons, SysCall.cell?, ih]
  simp [Defines.calls, List.filterMap_cons, SysCall.cell?, hloop]

theorem exits_calls : Exits (d.calls runcount) := by
  refine ⟨_, 0, rfl, fun status' hmem => ?_⟩
  simp at hmem

theorem playable_buildScripts : Playable (buildScripts defines runcount) where
  zero := rfl
  exits p hp := by
    rw [buildScripts, if_neg hp]
    exact exits_calls

theorem sum_length_buildScripts (defines : Pid → Defines) (runcount : Nat) :
    ∑ p, (buildScripts defines runcount p).length = 4 * (2 * runcount + 4) := by
  simp [Fin.sum_univ_five, buildScripts, length_calls]
  omega

theorem cellCount_buildScripts : cellCount (buildScripts defines runcount) = 4 * runcount := by
  simp [cellCount, Fin.sum_univ_five, buildScripts, filterMap_cell?_calls]
  omega

theorem mem_sysSetShare_calls {share : Int32} :
    SysCall.sysSetShare share ∈ d.calls runcount ↔ share = d.share := by
  simp [Defines.calls]

/-- The applications have come to their end, and each of them has printed its character
`RUNCOUNT` times; `owners` says who has printed which cell. -/
structure Scripted.Finished (defines : Pid → Defines) (runcount : Nat) (ram₀ : Mem)
    (s : Scripted) : Prop where
  stopped : s.config.proc? = none
  exited : ∀ p, p ≠ 0 → (s.config.machine.procArray p).pState = .pZombie ∧
    (s.config.machine.procArray p).pExitStatus = 0
  printed : ∃ owners : List Pid, (∀ p, owners.count p = if p = 0 then 0 else runcount) ∧
    Displays ram₀ (owners.map fun p => widened (defines p).printchar.toUInt32)
      (screenOf s.config.machine.ram)

theorem entriesOf_prints (h : ∀ p, entriesOf s.log p = buildScripts defines runcount p) (p : Pid) :
    entriesOf s.prints p = if p = 0 then [] else
      List.replicate runcount (widened (defines p).printchar.toUInt32) := by
  rw [Scripted.prints, entriesOf_viewed, h, buildScripts]
  split
  · rfl
  · exact filterMap_cell?_calls

/-- Each cell shows the character of its owner. -/
theorem prints_map_snd (h : ∀ p, entriesOf s.log p = buildScripts defines runcount p) :
    s.prints.map Prod.snd
      = (s.prints.map Prod.fst).map fun p => widened (defines p).printchar.toUInt32 := by
  rw [List.map_map]
  refine List.map_congr_left fun print hprint => ?_
  have hmem : print.2 ∈ entriesOf s.prints print.1 := mem_entriesOf.mpr hprint
  rw [entriesOf_prints h] at hmem
  split at hmem
  · cases hmem
  · exact List.eq_of_mem_replicate hmem

/-- **The build without the lock comes to its end** after as many steps as there are system calls,
not counting the clock's. -/
theorem atomic_build_ends (ramimages : Fin 4 → Ramimage) (alg : Int32) (k₀ : Machine)
    (defines : Pid → Defines) (runcount : Nat) (beats : Nat → Beat) (n : Nat)
    (halg : (alg = 0 ∨ alg = 1 ∨ alg = 2) ∨ alg = 3 ∧ ∀ p, 0 ≤ (defines p).share)
    (hrun : 4 * runcount ≤ 2000) (hfuel : ∀ n, nprocs < (beats n).fuel)
    (hboot : (start ramimages alg k₀).proc? ≠ none)
    (hcount : 4 * (2 * runcount + 4) ≤ Nat.count (fun m => (beats m).clock = false) n) :
    (scripted (buildScripts defines runcount) (start ramimages alg k₀) beats n).Finished defines
      runcount (start ramimages alg k₀).machine.ram := by
  have hresumes : Resumes alg (buildScripts defines runcount) := by
    refine halg.imp_right fun ⟨he, hshares⟩ => ⟨he, fun p share hmem => ?_⟩
    rw [buildScripts] at hmem
    split at hmem
    · cases hmem
    · rw [mem_sysSetShare_calls.mp hmem]
      exact hshares p
  have hroom : cellCount (buildScripts defines runcount) ≤ 2000 :=
    cellCount_buildScripts.trans_le hrun
  have hinv := scripted_inv beats playable_buildScripts hresumes.known hroom hboot n
  rw [← sum_length_buildScripts defines runcount] at hcount
  have hstopped := scripted_stopped playable_buildScripts hresumes hroom hboot hcount
  have hcalls := scripted_calls playable_buildScripts hresumes hroom hboot hfuel hcount
  refine ⟨hstopped, fun p hp => ?_, _, fun p => ?_, prints_map_snd hcalls ▸ hinv.displays⟩
  · have hstate := hinv.state p hp
    rw [if_pos (hcalls p)] at hstate
    refine ⟨hstate, hinv.status p 0 (hcalls p) ?_⟩
    rw [buildScripts, if_neg hp]
    exact getLast?_calls
  · rw [count_map_fst, entriesOf_prints hcalls]
    split
    · rfl
    · exact List.length_replicate

/-- The shipped applications under the share scheduler, with the clock in every other step. -/
theorem atomic_build_ends_shipped :
    (scripted (buildScripts shippedDefines shippedRuncount) (start bareImages 3 bareMachine)
        helloBeats (2 * (4 * (2 * 320 + 4)))).Finished shippedDefines shippedRuncount
      (start bareImages 3 bareMachine).machine.ram := by
  have hcount : ∀ n, Nat.count (fun m => (helloBeats m).clock = false) (2 * n) = n := by
    intro n
    induction n with
    | zero => rfl
    | succ n ih =>
      have heven : (helloBeats (2 * n)).clock = true := by simp [helloBeats]
      have hodd : (helloBeats (2 * n + 1)).clock = false := by simp [helloBeats]
      rw [Nat.mul_succ, Nat.count_succ, Nat.count_succ, ih]
      simp [heven, hodd]
  refine atomic_build_ends bareImages 3 bareMachine shippedDefines shippedRuncount helloBeats _
    (Or.inr ⟨rfl, by decide⟩) (by decide) (fun _ => show nprocs < 2 * nprocs by decide)
    (bare_proc? 3) ?_
  rw [hcount]
  exact Nat.le_refl _

/-! ## Without clock interrupts -/

/-- The call number `j` of an application: the second one of two calls in the loop is a
`sys_yield`. -/
theorem calls_getElem? (j : Nat) : (d.calls runcount)[j]?
    = if j = 0 then some (.sysSetPriority d.priority)
      else if j = 1 then some (.sysSetShare d.share)
      else if j = 2 then some (.sysSetLotteryTickets d.lotteryTickets)
      else if j < 2 * runcount + 3 then
        some (if j % 2 = 1 then .sysAtomicPrint d.printchar.toUInt32 else .sysYield)
      else if j = 2 * runcount + 3 then some (.sysExit 0) else none := by
  have hloop : ∀ (n i : Nat), ((List.replicate n [SysCall.sysAtomicPrint d.printchar.toUInt32,
      .sysYield]).flatten ++ [.sysExit 0])[i]?
        = if i < 2 * n then
            some (if i % 2 = 0 then .sysAtomicPrint d.printchar.toUInt32 else .sysYield)
          else if i = 2 * n then some (.sysExit 0) else none := by
    intro n
    induction n with
    | zero =>
      intro i
      cases i <;> simp
    | succ n ih =>
      intro i
      match i with
      | 0 => simp [List.replicate_succ]
      | 1 =>
        have hlt : 1 < 2 * (n + 1) := by omega
        simp [List.replicate_succ, hlt]
      | i + 2 =>
        have hlt : i + 2 < 2 * (n + 1) ↔ i < 2 * n := by omega
        have heq : i + 2 = 2 * (n + 1) ↔ i = 2 * n := by omega
        simp only [List.replicate_succ, List.flatten_cons, List.cons_append, List.nil_append,
          List.getElem?_cons_succ, ih i, Nat.add_mod_right, hlt, heq]
  match j with
  | 0 => rfl
  | 1 => rfl
  | 2 => rfl
  | j + 3 =>
    have hlt : j + 3 < 2 * runcount + 3 ↔ j < 2 * runcount := by omega
    have heq : j + 3 = 2 * runcount + 3 ↔ j = 2 * runcount := by omega
    have hmod : (j + 3) % 2 = 1 ↔ j % 2 = 0 := by omega
    simp only [Defines.calls, List.cons_append, List.nil_append, List.getElem?_cons_succ,
      hloop runcount j, hlt, heq, hmod]
    simp

/-- What a call of the script is like, by its number. -/
structure CallSpec (d : Defines) (runcount j : Nat) (call : SysCall) : Prop where
  priority : call.intno = intSysUser1 ↔ j = 0
  eax : j = 0 → call.eax = some d.priority.toUInt32
  cell : call.cell? = if 3 ≤ j ∧ j < 2 * runcount + 3 ∧ j % 2 = 1
    then some (widened d.printchar.toUInt32) else none

theorem callSpec {j : Nat} {call : SysCall} (h : (d.calls runcount)[j]? = some call) :
    CallSpec d runcount j call := by
  have hshare : intSysUser2 ≠ intSysUser1 := by decide
  have hlottery : intSysSetLottery ≠ intSysUser1 := by decide
  have hprint : intSysAtomicPrint ≠ intSysUser1 := by decide
  have hyield : intSysYield ≠ intSysUser1 := by decide
  have hexit : intSysExit ≠ intSysUser1 := by decide
  rw [calls_getElem?] at h
  split_ifs at h with h0 h1 h2 hlt hodd hlast <;> cases h
  · subst h0
    exact ⟨iff_of_true rfl rfl, fun _ => rfl, rfl⟩
  · subst h1
    exact ⟨iff_of_false hshare h0, fun he => absurd he h0, rfl⟩
  · subst h2
    exact ⟨iff_of_false hlottery h0, fun he => absurd he h0, rfl⟩
  · refine ⟨iff_of_false hprint h0, fun he => absurd he h0, ?_⟩
    rw [if_pos ⟨by omega, hlt, hodd⟩]
    rfl
  · refine ⟨iff_of_false hyield h0, fun he => absurd he h0, ?_⟩
    rw [if_neg fun hprints => hodd hprints.2.2]
    rfl
  · refine ⟨iff_of_false hexit h0, fun he => absurd he h0, ?_⟩
    rw [if_neg fun hprints => hlt hprints.2.1]
    rfl

/-- The applications are where the rota is. The rota has a turn for each system call, and every
other one of those that are not silent prints. -/
structure Scripted.Implements (defines : Pid → Defines) (runcount : Nat) (s : Scripted)
    (r : Rota.State nprocs Pid) : Prop where
  active : s.config.proc? = r.active
  turns : ∀ p, (entriesOf s.log p).length = r.turns p
  priority : ∀ p, (s.config.machine.procArray p).pPriority
    = priorityAt (fun p => (defines p).priority) r.turns p
  counted : ∀ p, r.log.count p = min (2 * runcount) (r.turns p - 3)
  prints : s.prints.map Prod.fst = everyOther (fun _ => true) r.log

section Undisturbed

variable {alg : Int32} {ramimages : Fin 4 → Ramimage} {k₀ k : Machine} {beats : Nat → Beat}
  {n : Nat} {cpu : Registers} {r r' : Rota.State nprocs Pid} {ram₀ : Mem} {call : SysCall}
  {turns : Pid → Nat} {log : List Pid} {o : Option Pid} {t : Beat}

/-- The call that `p` makes when it has made as many as the rota says. -/
theorem Scripted.Implements.callSpec (h : s.Implements defines runcount r) (hp : p ≠ 0)
    (hnext : Follows.next? (buildScripts defines runcount) s.log p = some call) :
    CallSpec (defines p) runcount (r.turns p) call := by
  rw [Follows.next?, h.turns, buildScripts, if_neg hp] at hnext
  exact SchedOS.callSpec hnext

/-- Once more the kernel chooses among the candidates of the rota. -/
theorem candidate_scripted {trap : Trap} (hr : Running alg p k (k.procArray p).pRegisters)
    (hinv : s.Inv alg (buildScripts defines runcount) ram₀)
    (hs : s.config = (Config.user p k cpu).trap trap)
    (hturns : ∀ q, (entriesOf s.log q).length = turns q)
    (hpriority : ∀ q, (s.config.machine.procArray q).pPriority
      = priorityAt (fun p => (defines p).priority) turns q) :
    candidate alg (trap.call k).Runnable (fun i => ((trap.call k).procArray i).pPriority)
      = (applicationsRota alg (2 * runcount) fun p => (defines p).priority).Candidate turns := by
  have hrunnable : (trap.call k).Runnable = Alive (2 * runcount) turns := by
    funext q
    refine propext ?_
    by_cases hq : q = 0
    · refine iff_of_false (fun hrun => ?_) fun halive => halive.1 hq
      exact hr.ne_zero_of_runnable (Trap.call_runnable.mp hrun).1 hq
    · have hstate := hinv.state q hq
      have hscript : buildScripts defines runcount q = (defines q).calls runcount := if_neg hq
      have hle := (hinv.follows q).length_le
      rw [hs, trap_field trap p k cpu Process.pState fun _ => rfl] at hstate
      have hdone : entriesOf s.log q = buildScripts defines runcount q ↔
          2 * runcount + 4 ≤ turns q := by
        rw [← hturns, ← length_calls (d := defines q), ← hscript]
        exact ⟨fun he => Nat.le_of_eq (congrArg List.length he.symm),
          (hinv.follows q).eq_of_length_le⟩
      unfold Machine.Runnable Alive
      rw [hstate]
      by_cases hend : 2 * runcount + 4 ≤ turns q
      · simp [hdone.mpr hend, hend]
      · simp [hdone.not.mpr hend, hq]
        omega
  have hpriority' : (fun i => ((trap.call k).procArray i).pPriority)
      = priorityAt (fun p => (defines p).priority) turns := by
    funext q
    rw [← hpriority, hs, trap_field trap p k cpu Process.pPriority fun _ => rfl]
  rw [hrunnable, hpriority']
  rfl

/-- What a call adds to the log of the rota and to the prints. -/
theorem Scripted.Implements.prints_concat
    (h : s.Implements defines runcount ⟨turns, some p, log⟩)
    (hspec : CallSpec (defines p) runcount (turns p) call) (config : Config) :
    (Scripted.prints ⟨config, s.log ++ [(p, call)]⟩).map Prod.fst
      = everyOther (fun _ => true) (log
        ++ (applicationsRota alg (2 * runcount) fun p => (defines p).priority).output p
          (turns p)) := by
  have hprints : (viewed SysCall.cell? s.log).map Prod.fst = everyOther (fun _ => true) log :=
    h.prints
  have hcount : log.count p = min (2 * runcount) (turns p - 3) := h.counted p
  have hcell := hspec.cell
  show (viewed SysCall.cell? (s.log ++ [(p, call)])).map Prod.fst
    = everyOther _ (log ++ if 3 ≤ turns p ∧ turns p < 2 * runcount + 3 then [p] else [])
  by_cases hloop : 3 ≤ turns p ∧ turns p < 2 * runcount + 3
  · have hnumber : log.count p = turns p - 3 := by omega
    rw [if_pos hloop, everyOther_concat, hnumber]
    by_cases hodd : turns p % 2 = 1
    · have heven : (turns p - 3) % 2 = 0 := by omega
      rw [if_pos ⟨hloop.1, hloop.2, hodd⟩] at hcell
      rw [viewed_concat_some hcell, List.map_append, hprints, heven]
      rfl
    · have heven : (turns p - 3) % 2 = 1 := by omega
      rw [if_neg fun hin => hodd hin.2.2] at hcell
      rw [viewed_concat_none hcell, hprints, heven]
      simp
  · rw [if_neg fun hin => hloop ⟨hin.1, hin.2.1⟩] at hcell
    rw [if_neg hloop, viewed_concat_none hcell, hprints, List.append_nil]

/-- What a call does to the priorities. -/
theorem Scripted.Implements.priority_bump
    (h : s.Implements defines runcount ⟨turns, some p, log⟩)
    (hr : Running alg p k (k.procArray p).pRegisters) (hs : s.config = .user p k cpu)
    (hspec : CallSpec (defines p) runcount (turns p) call) (q : Pid) :
    (((Config.user p k cpu).trap (call.trap t k.ram)).machine.procArray q).pPriority
      = priorityAt (fun p => (defines p).priority) (bump turns p) q := by
  have hold := h.priority q
  rw [hs, Config.machine_user] at hold
  rw [trap_pPriority hr]
  by_cases hq : q = p
  · subst hq
    rw [priorityAt, bump_self, if_neg (Nat.succ_ne_zero _)]
    by_cases hfirst : turns q = 0
    · have heax : (call.trap t k.ram).reg.regEax.toInt32 = (defines q).priority := by
        simp [SysCall.trap, hspec.eax hfirst]
      rw [if_pos ⟨hspec.priority.mpr hfirst, rfl⟩, heax]
    · rw [if_neg fun he => hfirst (hspec.priority.mp he.1), hold]
      exact if_neg hfirst
  · rw [if_neg fun he => hq he.2, hold, priorityAt, priorityAt, bump_of_ne _ hq]

theorem Scripted.Implements.turns_bump
    (h : s.Implements defines runcount ⟨turns, some p, log⟩) (q : Pid) :
    (entriesOf (s.log ++ [(p, call)]) q).length = bump turns p q := by
  have hturns : (entriesOf s.log q).length = turns q := h.turns q
  by_cases hq : q = p
  · subst hq
    rw [entriesOf_concat_self, List.length_append, hturns, bump_self]
    rfl
  · rw [entriesOf_concat_of_ne hq, hturns, bump_of_ne _ hq]

theorem Scripted.Implements.counted_bump {priority : Pid → Int32}
    (h : s.Implements defines runcount ⟨turns, some p, log⟩) (q : Pid) :
    (log ++ (applicationsRota alg (2 * runcount) priority).output p (turns p)).count q
      = min (2 * runcount) (bump turns p q - 3) := by
  have hcount : log.count q = min (2 * runcount) (turns q - 3) := h.counted q
  show (log ++ if 3 ≤ turns p ∧ turns p < 2 * runcount + 3 then [p] else []).count q = _
  rw [List.count_append, hcount]
  by_cases hq : q = p
  · subst hq
    rw [bump_self]
    split
    · rw [List.count_singleton_self]
      omega
    · rw [List.count_nil]
      omega
  · rw [bump_of_ne _ hq]
    split
    · rw [List.count_singleton, if_neg (by simpa using Ne.symm hq)]
      rfl
    · rfl

variable (halg : alg = 0 ∨ alg = 1 ∨ alg = 2) (hrun : 4 * runcount ≤ 2000)
  (hclock : ∀ n, (beats n).clock = false) (hfuel : ∀ n, nprocs < (beats n).fuel)
  (hboot : (start ramimages alg k₀).proc? ≠ none)
include halg hrun hclock hfuel hboot

omit hclock hfuel in
variable (defines beats) in
theorem buildScripts_inv (n : Nat) :
    (scripted (buildScripts defines runcount) (start ramimages alg k₀) beats n).Inv alg
      (buildScripts defines runcount) (start ramimages alg k₀).machine.ram := by
  have hknown : KnownAlgorithm alg := by
    rcases halg with rfl | rfl | rfl <;> simp [KnownAlgorithm]
  exact scripted_inv beats playable_buildScripts hknown
    (cellCount_buildScripts.trans_le hrun) hboot n

/-- **One turn of the rota** is one call. -/
theorem scripted_turn
    (h : (scripted (buildScripts defines runcount) (start ramimages alg k₀) beats n).Implements
      defines runcount r)
    (hturn : (applicationsRota alg (2 * runcount) fun p => (defines p).priority).Turn r r') :
    (scripted (buildScripts defines runcount) (start ramimages alg k₀) beats (n + 1)).Implements
      defines runcount r' := by
  have hinv' := buildScripts_inv defines beats halg hrun hboot (n + 1)
  have hstep := (buildScripts_inv defines beats halg hrun hboot n).steps (t := beats n)
  have hnext : scripted (buildScripts defines runcount) (start ramimages alg k₀) beats (n + 1)
    = (scripted (buildScripts defines runcount) (start ramimages alg k₀) beats n).step _
      (beats n) := rfl
  rw [hnext] at hinv' ⊢
  generalize scripted (buildScripts defines runcount) (start ramimages alg k₀) beats n = s
    at h hinv' hstep ⊢
  generalize s.step (buildScripts defines runcount) (beats n) = s' at hinv' hstep ⊢
  cases hturn with
  | @turn turns p log o ho =>
    have hactive : s.config.proc? = some p := h.active
    cases hstep with
    | spinning hs =>
      rw [hs] at hactive
      cases hactive
    | clock htrue _ _ =>
      rw [hclock n] at htrue
      cases htrue
    | @call q k cpu call _ hs hr hcall =>
      obtain rfl : q = p := by
        rw [hs] at hactive
        exact Option.some.inj hactive
      have hspec := h.callSpec hr.ne_zero hcall
      have hpriority := h.priority_bump (t := beats n) hr hs hspec
      have hserved : Served (call.trap (beats n) k.ram).reg.regIntno := call.served
      refine ⟨?_, h.turns_bump, hpriority, h.counted_bump, h.prints_concat hspec _⟩
      show ((Config.user q k cpu).trap (call.trap (beats n) k.ram)).proc? = o
      refine trap_chooses halg _ hr hserved (Nat.le_of_lt (hfuel n)) ?_
      have hconfig : (⟨(Config.user q k cpu).trap (call.trap (beats n) k.ram),
          s.log ++ [(q, call)]⟩ : Scripted).config
        = (Config.user q k cpu).trap (call.trap (beats n) k.ram) := rfl
      rw [candidate_scripted hr hinv' hconfig h.turns_bump hpriority]
      exact ho

theorem scripted_reaches
    (h : (scripted (buildScripts defines runcount) (start ramimages alg k₀) beats n).Implements
      defines runcount r)
    (hreaches :
      (applicationsRota alg (2 * runcount) fun p => (defines p).priority).Reaches r r') :
    ∃ m, (scripted (buildScripts defines runcount) (start ramimages alg k₀) beats m).Implements
      defines runcount r' := by
  induction hreaches with
  | refl => exact ⟨n, h⟩
  | tail _ hturn ih =>
    obtain ⟨m, hm⟩ := ih
    exact ⟨m + 1, scripted_turn halg hrun hclock hfuel hboot hm hturn⟩

end Undisturbed

/-- The applications begin where the rota begins. -/
theorem start_implements {alg : Int32} {ramimages : Fin 4 → Ramimage} {k₀ : Machine}
    (hboot : (start ramimages alg k₀).proc? ≠ none) :
    Scripted.Implements defines runcount ⟨start ramimages alg k₀, []⟩
      ⟨fun _ => 0, some 1, []⟩ := by
  obtain ⟨k, hk, hb⟩ := start_booted hboot
  have hpriority : ∀ p, (k.procArray p).pPriority = 0 :=
    hb.field Process.pPriority rfl fun _ _ => rfl
  refine ⟨?_, fun p => rfl, fun p => ?_, fun p => ?_, rfl⟩
  · rw [hk]
    rfl
  · rw [hk]
    exact hpriority p
  · simp

/-- Keeping every other print of twice as many makes the transcript. -/
theorem everyOther_transcript {alg : Int32} (halg : alg = 0 ∨ alg = 1 ∨ alg = 2)
    (runcount : Nat) :
    everyOther (fun _ => true) (transcript alg (2 * runcount)) = transcript alg runcount := by
  have hrounds : ∀ (l xs : List Pid), l.Nodup →
      everyOther (fun _ => true) ((List.replicate (2 * runcount) l).flatten ++ xs)
        = (List.replicate runcount l).flatten ++ everyOther (fun _ => true) xs :=
    fun l xs hl => everyOther_rounds hl (fun _ _ => rfl) runcount
  have hone : ∀ (p : Pid) (xs : List Pid),
      everyOther (fun _ => true) (List.replicate (2 * runcount) p ++ xs)
        = List.replicate runcount p ++ everyOther (fun _ => true) xs := by
    intro p xs
    have hp := hrounds [p] xs (List.nodup_singleton p)
    rwa [List.flatten_replicate_singleton, List.flatten_replicate_singleton] at hp
  rcases halg with rfl | rfl | rfl
  · have h := hrounds [1, 2, 3, 4] [] (by decide)
    simpa [transcript, everyOther] using h
  · have h := hone 4 []
    rw [List.append_nil] at h
    simp [transcript, List.append_assoc, hone, h, everyOther]
  · have h := hone 4 []
    rw [List.append_nil] at h
    simp [transcript, List.append_assoc, hone, hrounds, h, everyOther]

/-- When nobody runs any more, nothing changes any more. -/
theorem scripted_stable {scripts : Pid → List SysCall} {config : Config} {beats : Nat → Beat}
    {m n : Nat} (hmn : m ≤ n) (h : (scripted scripts config beats m).config.proc? = none) :
    scripted scripts config beats n = scripted scripts config beats m := by
  refine states_invariant_from (I := fun s => s = scripted scripts config beats m)
    (fun t s hs => ?_) hmn rfl
  rw [hs]
  unfold Scripted.step
  cases hc : (scripted scripts config beats m).config with
  | spinning k => rfl
  | user p k cpu =>
    rw [hc] at h
    cases h

/-- **The transcript of the other build** is the same: without clock interrupts, the characters are
on the console in the order in which they are with the lock. -/
theorem atomic_build_transcript (ramimages : Fin 4 → Ramimage) (alg : Int32) (k₀ : Machine)
    (defines : Pid → Defines) (runcount : Nat) (beats : Nat → Beat) (n : Nat)
    (halg : alg = 0 ∨ alg = 1 ∨ alg = 2)
    (hpriority : ∀ p, p ≠ 0 → (defines p).priority = (shippedDefines p).priority)
    (hrun : 4 * runcount ≤ 2000) (hclock : ∀ n, (beats n).clock = false)
    (hfuel : ∀ n, nprocs < (beats n).fuel) (hboot : (start ramimages alg k₀).proc? ≠ none)
    (hn : 4 * (2 * runcount + 4) ≤ n) :
    (scripted (buildScripts defines runcount) (start ramimages alg k₀) beats n).config.proc?
        = none ∧
      Displays (start ramimages alg k₀).machine.ram
        ((transcript alg runcount).map fun p => widened (defines p).printchar.toUInt32)
        (screenOf (scripted (buildScripts defines runcount) (start ramimages alg k₀) beats
          n).config.machine.ram) := by
  have hinv := buildScripts_inv defines beats halg hrun hboot n
  have hresumes : Resumes alg (buildScripts defines runcount) := Or.inl halg
  have hroom : cellCount (buildScripts defines runcount) ≤ 2000 :=
    cellCount_buildScripts.trans_le hrun
  have hcount : ∑ p, (buildScripts defines runcount p).length
      ≤ Nat.count (fun m => (beats m).clock = false) n := by
    simpa [sum_length_buildScripts, hclock, Nat.count_true] using hn
  have hstopped := scripted_stopped playable_buildScripts hresumes hroom hboot hcount
  have hcalls := scripted_calls playable_buildScripts hresumes hroom hboot hfuel hcount
  obtain ⟨m, hm⟩ := scripted_reaches (n := 0) halg hrun hclock hfuel hboot
    (start_implements hboot) (reaches_transcript (2 * runcount) hpriority halg)
  have hsame : scripted (buildScripts defines runcount) (start ramimages alg k₀) beats n
      = scripted (buildScripts defines runcount) (start ramimages alg k₀) beats m := by
    rcases Nat.le_total m n with hmn | hnm
    · exact scripted_stable hmn hm.active
    · exact (scripted_stable hnm hstopped).symm
  have howners : (scripted (buildScripts defines runcount) (start ramimages alg k₀) beats
      n).prints.map Prod.fst = transcript alg runcount := by
    rw [hsame, hm.prints, everyOther_transcript halg]
  refine ⟨hstopped, ?_⟩
  rw [← howners, ← prints_map_snd hcalls]
  exact hinv.displays

theorem atomic_build_transcript_shipped :
    (scripted (buildScripts shippedDefines shippedRuncount) (start bareImages 2 bareMachine)
        (fun _ => ⟨⟨false, fun _ => 0, 2 * nprocs⟩, .zero⟩) 2576).config.proc? = none ∧
      Displays (start bareImages 2 bareMachine).machine.ram
        ((transcript 2 shippedRuncount).map fun p =>
          widened (shippedDefines p).printchar.toUInt32)
        (screenOf (scripted (buildScripts shippedDefines shippedRuncount)
          (start bareImages 2 bareMachine) (fun _ => ⟨⟨false, fun _ => 0, 2 * nprocs⟩, .zero⟩)
          2576).config.machine.ram) :=
  atomic_build_transcript bareImages 2 bareMachine shippedDefines shippedRuncount _ 2576
    (Or.inr (Or.inr rfl)) (fun _ _ => rfl) (by decide) (fun _ => rfl)
    (fun _ => show nprocs < 2 * nprocs by decide) (bare_proc? 2) (by decide)

end SchedOS
