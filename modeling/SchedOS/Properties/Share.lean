import SchedOS.Properties.Lifecycle

/-!
# The share scheduler

Algorithm 3 begins at the process that was interrupted. If that is runnable and its counter
has not passed its share, it goes on (`schedule_share_stay`). Otherwise its counter is reset,
and, since the counters of all others are 0 (`Machine.Fresh`), the loop runs the next runnable
process whose share is not negative, with the counter at 1 (`schedule_share_move`). A negative
share is passed over every time: if no other is left, the loop has no end.

* `trap_share` — the two ways in which one process follows another
* `schedule_share_ends_iff` — when a call of `schedule` comes to an end
-/

namespace SchedOS

open Infra

/-! ## The loop -/

/-- `p_num_times++` for one entry. -/
def Machine.tick (k : Machine) (pid : Pid) : Machine :=
  k.setProc pid fun p => { p with pNumTimes := p.pNumTimes + 1 }

/-- The state in which the loop goes on to the entry after `pid`. -/
def Machine.restart (k : Machine) (pid : Pid) : Machine :=
  if k.Runnable pid then k.setProc pid fun p => { p with pNumTimes := 0 } else k

/-- What the loop asks of the process that was interrupted. -/
def Machine.HasShare (k : Machine) (pid : Pid) : Prop :=
  k.Runnable pid ∧ (k.procArray pid).pNumTimes ≤ (k.procArray pid).pShare

instance (k : Machine) : DecidablePred k.HasShare := fun _ => inferInstanceAs (Decidable (_ ∧ _))

/-- What the loop asks of a process whose counter is 0. -/
def Machine.Willing (k : Machine) (pid : Pid) : Prop :=
  k.Runnable pid ∧ 0 ≤ (k.procArray pid).pShare

instance (k : Machine) : DecidablePred k.Willing := fun _ => inferInstanceAs (Decidable (_ ∧ _))

/-- The counters of all runnable processes but `pid` are 0. -/
def Machine.Fresh (k : Machine) (pid : Pid) : Prop :=
  ∀ q, q ≠ pid → k.Runnable q → (k.procArray q).pNumTimes = 0

section Loop

variable {fuel : Nat} {tsc : Nat → UInt64} {k : Machine} {p q : Pid}

theorem sameUpToTimes_tick (k : Machine) (pid : Pid) : k.SameUpToTimes (k.tick pid) :=
  .setNumTimes k pid fun p => p.pNumTimes + 1

theorem sameUpToTimes_restart (k : Machine) (pid : Pid) : k.SameUpToTimes (k.restart pid) := by
  unfold Machine.restart
  split
  · exact .setNumTimes k pid fun _ => 0
  · exact .refl k

theorem Machine.SameUpToTimes.willing_iff {k' : Machine} (h : k.SameUpToTimes k') (i : Pid) :
    k'.Willing i ↔ k.Willing i := by
  unfold Machine.Willing
  rw [h.runnable_iff i, h.pShare i]

@[simp] theorem Machine.tick_self :
    ((k.tick p).procArray p).pNumTimes = (k.procArray p).pNumTimes + 1 := by
  unfold Machine.tick
  rw [Machine.setProc_self]

theorem Machine.tick_of_ne (h : q ≠ p) : (k.tick p).procArray q = k.procArray q :=
  Machine.setProc_of_ne _ _ _ h

theorem Machine.restart_of_ne (h : q ≠ p) : (k.restart p).procArray q = k.procArray q := by
  unfold Machine.restart
  split
  · exact Machine.setProc_of_ne _ _ _ h
  · rfl

/-- Once the first process has been passed over, every counter is 0. -/
theorem Machine.Fresh.restart (h : k.Fresh p) (hq : (k.restart p).Runnable q) :
    ((k.restart p).procArray q).pNumTimes = 0 := by
  have hrun : k.Runnable q := ((sameUpToTimes_restart k p).runnable_iff q).mp hq
  by_cases hqp : q = p
  · subst hqp
    unfold Machine.restart
    rw [if_pos hrun, Machine.setProc_self]
  · rw [Machine.restart_of_ne hqp]
    exact h q hqp hrun

/-- Counting up and resetting is the same as resetting. -/
theorem shareBody_reset (h : ¬ k.HasShare p) : shareBody (k, p) = .again (k.restart p, next p) := by
  unfold shareBody Machine.restart
  dsimp only
  by_cases hr : k.Runnable p
  · have hle : ¬ (k.procArray p).pNumTimes ≤ (k.procArray p).pShare := fun hle => h ⟨hr, hle⟩
    simp only [if_pos hr, Machine.setProc_self, if_neg hle]
    unfold Machine.setProc
    simp only [Function.update_self, Function.update_idem]
  · simp only [if_neg hr]

theorem shareBody_run (h : k.HasShare p) : shareBody (k, p) = .leave (run p (k.tick p)) := by
  unfold shareBody
  dsimp only
  rw [if_pos h.1, Machine.setProc_self, if_pos h.2]
  rfl

theorem setProc_of_eq {f : Process → Process} (h : f (k.procArray p) = k.procArray p) :
    k.setProc p f = k := by
  unfold Machine.setProc
  rw [h, Function.update_eq_self]

/-- With all counters at 0 the loop is a scan for a willing process. -/
theorem shareBody_scan (hzero : ∀ q, k.Runnable q → (k.procArray q).pNumTimes = 0) (pid : Pid) :
    shareBody (k, next pid)
      = (scanBody k.Willing (fun q => run q (k.tick q)) pid).map (fun pid => (k, next pid)) id := by
  unfold scanBody
  by_cases hw : k.Willing (next pid)
  · rw [if_pos hw]
    refine shareBody_run ⟨hw.1, ?_⟩
    rw [hzero _ hw.1]
    exact hw.2
  · rw [if_neg hw]
    have hshare : ¬ k.HasShare (next pid) := by
      rintro ⟨hr, hle⟩
      rw [hzero _ hr] at hle
      exact hw ⟨hr, hle⟩
    rw [shareBody_reset hshare]
    -- the counter that is incremented and then reset was 0 before
    have hsame : k.restart (next pid) = k := by
      unfold Machine.restart
      split
      · next hr =>
        refine setProc_of_eq ?_
        rw [← hzero _ hr]
      · rfl
    rw [hsame]
    rfl

/-- What the loop does after it has passed over the first process. -/
theorem loop_shareBody (hfresh : k.Fresh p) (h : ¬ k.HasShare p) (n : Nat) :
    loop shareBody (n + 1) (k, p)
      = (loop (scanBody (k.restart p).Willing fun q => run q ((k.restart p).tick q)) n p).map
          (fun pid => (k.restart p, next pid)) id := by
  rw [loop_succ_again (shareBody_reset h)]
  exact loop_map (shareBody_scan fun q hq => hfresh.restart hq) n p

/-! ## `schedule` -/

variable (halg : k.schedulingAlgorithm = 3) (hpid : (k.procArray k.current).pPid = p)
include halg hpid

/-- The process that was interrupted goes on. -/
theorem schedule_share_stay (h : k.HasShare p) (hfuel : 0 < fuel) :
    schedule fuel tsc k = .error (run p (k.tick p)) := by
  obtain ⟨n, rfl⟩ := Nat.exists_eq_succ_of_ne_zero (Nat.ne_of_gt hfuel)
  rw [schedule_share halg, hpid]
  exact whileLoop_leave (loop_succ_leave (shareBody_run h) n)

/-- Another process begins its turn (or the same one, if there is no other). -/
theorem schedule_share_move (hfresh : k.Fresh p) (h : ¬ k.HasShare p)
    (hq : IsNext k.Willing p q) (hfuel : nprocs < fuel) :
    schedule fuel tsc k = .error (run q ((k.restart p).tick q)) := by
  obtain ⟨n, rfl⟩ := Nat.exists_eq_succ_of_ne_zero (Nat.ne_of_gt (Nat.zero_lt_of_lt hfuel))
  have hwilling : (k.restart p).Willing = k.Willing :=
    funext fun i => propext ((sameUpToTimes_restart k p).willing_iff i)
  have hgap := gap_lt p q
  have hscan := loop_scan_of_isNext (f := fun q => run q ((k.restart p).tick q)) n
    (hwilling ▸ hq) (show gap p q < n by omega)
  rw [schedule_share halg, hpid]
  refine whileLoop_leave ?_
  rw [loop_shareBody hfresh h, hscan]
  rfl

/-- There is no third way to leave the loop. -/
theorem schedule_share_user {k' : Machine} {cpu : Registers} (hfresh : k.Fresh p)
    (h : schedule fuel tsc k = .error (.user q k' cpu)) :
    (k.HasShare p ∧ q = p ∧ k' = { k.tick p with current := p }) ∨
      (¬ k.HasShare p ∧ IsNext k.Willing p q ∧
        k' = { (k.restart p).tick q with current := q }) := by
  have hfuel : fuel ≠ 0 := by
    rintro rfl
    rw [schedule_share halg] at h
    cases h
  obtain ⟨n, rfl⟩ := Nat.exists_eq_succ_of_ne_zero hfuel
  -- the first pass either goes on with the turn of `p` or ends it; after that the loop is a scan
  by_cases hs : k.HasShare p
  · rw [schedule_share_stay halg hpid hs (Nat.succ_pos n)] at h
    cases h
    exact Or.inl ⟨hs, rfl, rfl⟩
  · refine Or.inr ⟨hs, ?_⟩
    rw [schedule_share halg, hpid] at h
    rcases whileLoop_cases h with hl | ⟨s', -, hc⟩
    · rw [loop_shareBody hfresh hs] at hl
      cases hscan :
          loop (scanBody (k.restart p).Willing fun q => run q ((k.restart p).tick q)) n p with
      | again pid =>
        rw [hscan] at hl
        cases hl
      | leave c =>
        obtain ⟨r, hr, rfl⟩ := loop_scan_leave hscan
        rw [hscan] at hl
        cases hl
        have hwilling : (k.restart p).Willing = k.Willing :=
          funext fun i => propext ((sameUpToTimes_restart k p).willing_iff i)
        exact ⟨hwilling ▸ hr, rfl⟩
    · cases hc

end Loop

/-! ## The invariant of the counters -/

theorem toInt_add_one {x : Int32} (h : x ≠ intMax) : (x + 1).toInt = x.toInt + 1 := by
  have hlt := x.toInt_lt
  have hle := x.le_toInt
  have hne : x.toInt ≠ 2147483647 := fun he => h (Int32.toInt_inj.mp he)
  rw [Int32.toInt_add, show (1 : Int32).toInt = 1 from rfl, Int.bmod_eq_of_le] <;> omega

theorem zero_le_iff {x : Int32} : 0 ≤ x ↔ 0 ≤ x.toInt := by
  rw [Int32.le_iff_toInt_le, Int32.toInt_zero]

/-- What holds of the counters while `p` runs under algorithm 3. A process whose share is
`INT_MAX` is never taken off, and its counter can come to any value. -/
structure Machine.Counting (k : Machine) (p : Pid) : Prop where
  fresh : k.Fresh p
  nonneg : (k.procArray p).pShare ≠ intMax → 0 ≤ (k.procArray p).pNumTimes.toInt
  le : (k.procArray p).pShare ≠ intMax →
    (k.procArray p).pNumTimes.toInt ≤ (k.procArray p).pShare.toInt + 1

/-- The invariant as it is when `schedule` is called. -/
structure Machine.CallCounting (k : Machine) (p : Pid) : Prop where
  fresh : k.Fresh p
  nonneg : (k.procArray p).pShare ≠ intMax → 0 ≤ (k.procArray p).pNumTimes.toInt

section Counting

variable {k k' : Machine} {p q : Pid} {cpu cpu' : Registers} {t : Trap} {alg : Int32}

/-- No interrupt disturbs the counters, also not `INT_SYS_USER2`, which sets one to 0. -/
theorem Machine.Counting.call (h : k.Counting p) (hcur : k.current = p) :
    (t.call k).CallCounting p where
  fresh q hq hrun := by
    have hrun' : k.Runnable q := (Trap.call_runnable.mp hrun).1
    rw [Trap.call_of_ne (hcur ▸ hq)]
    exact h.fresh q hq hrun'
  nonneg := by
    rw [Trap.call_pShare, Trap.call_pNumTimes]
    split
    · exact fun _ => Int.le_refl 0
    · exact h.nonneg

/-- A process that still has some of its share does not have a negative share. -/
theorem Machine.CallCounting.willing (h : k.CallCounting p) (hs : k.HasShare p) : k.Willing p := by
  refine ⟨hs.1, ?_⟩
  by_cases hmax : (k.procArray p).pShare = intMax
  · rw [hmax]
    decide
  · have hnonneg := h.nonneg hmax
    have hle := Int32.le_iff_toInt_le.mp hs.2
    exact zero_le_iff.mpr (by omega)

theorem Machine.CallCounting.stay (h : k.CallCounting p) (hs : k.HasShare p) :
    (k.tick p).Counting p := by
  have hshare : ((k.tick p).procArray p).pShare = (k.procArray p).pShare :=
    (sameUpToTimes_tick k p).pShare p
  have hle := Int32.le_iff_toInt_le.mp hs.2
  have hcount : (k.procArray p).pShare ≠ intMax →
      ((k.procArray p).pNumTimes + 1).toInt = (k.procArray p).pNumTimes.toInt + 1 := by
    intro hmax
    refine toInt_add_one fun he => hmax ?_
    exact Int32.le_antisymm (le_intMax _) (he ▸ hs.2)
  refine ⟨fun q hq hrun => ?_, fun hmax => ?_, fun hmax => ?_⟩
  · rw [Machine.tick_of_ne hq]
    exact h.fresh q hq (((sameUpToTimes_tick k p).runnable_iff q).mp hrun)
  · rw [hshare] at hmax
    have hnonneg := h.nonneg hmax
    rw [Machine.tick_self, hcount hmax]
    omega
  · rw [hshare] at hmax ⊢
    rw [Machine.tick_self, hcount hmax]
    omega

theorem Machine.Fresh.move_numTimes (h : k.Fresh p) (hw : k.Willing q) :
    (((k.restart p).tick q).procArray q).pNumTimes = 1 := by
  have hrun : (k.restart p).Runnable q := ((sameUpToTimes_restart k p).runnable_iff q).mpr hw.1
  rw [Machine.tick_self, h.restart hrun]
  rfl

theorem Machine.Fresh.move (h : k.Fresh p) (hw : k.Willing q) :
    ((k.restart p).tick q).Counting q := by
  have hsame := (sameUpToTimes_restart k p).trans (sameUpToTimes_tick _ q)
  have hone := h.move_numTimes hw
  refine ⟨fun r hr hrun => ?_, fun _ => ?_, fun _ => ?_⟩
  · rw [Machine.tick_of_ne hr]
    exact h.restart (((sameUpToTimes_tick _ q).runnable_iff r).mp hrun)
  · rw [hone]
    decide
  · have hshare := zero_le_iff.mp hw.2
    rw [hone, hsame.pShare q, show (1 : Int32).toInt = 1 from rfl]
    omega

/-- **One process after another.** Either the process that was interrupted still had some of
its share and goes on, or the next willing one begins with its counter at 1. -/
theorem trap_share (hr : Running 3 p k cpu) (hf : k.Fresh p)
    (h : (Config.user p k cpu).trap t = .user q k' cpu') :
    ((t.call k).HasShare p ∧ q = p ∧ k' = { (t.call k).tick p with current := p }) ∨
      (¬ (t.call k).HasShare p ∧ IsNext (t.call k).Willing p q ∧
        k' = { ((t.call k).restart p).tick q with current := q }) := by
  have hfresh : (t.call k).Fresh p := by
    intro r hr' hrun
    rw [Trap.call_of_ne (hr.current ▸ hr')]
    exact hf r hr' (Trap.call_runnable.mp hrun).1
  exact schedule_share_user (hr.call_algorithm t) (hr.call_pPid t) hfresh (schedule_of_trap h)

theorem counting_trap (hr : Running 3 p k cpu) (hk : k.Counting p)
    (h : (Config.user p k cpu).trap t = .user q k' cpu') : k'.Counting q := by
  have hcall := hk.call (t := t) hr.current
  rcases trap_share hr hk.fresh h with ⟨hs, rfl, rfl⟩ | ⟨-, hnext, rfl⟩
  · have hc := hcall.stay hs
    exact ⟨hc.fresh, hc.nonneg, hc.le⟩
  · have hc := hcall.fresh.move hnext.1
    exact ⟨hc.fresh, hc.nonneg, hc.le⟩

end Counting

/-- The counters are kept in every run. -/
theorem system_counting {ramimages : Fin 4 → Ramimage} {k₀ : Machine} {traps : Nat → Trap} :
    ∀ {n : Nat} {p : Pid} {k : Machine} {cpu : Registers},
      system ramimages 3 k₀ traps n = .user p k cpu → k.Counting p
  | 0, p, k, cpu, h => by
    obtain ⟨rfl, -, hb⟩ := start_user h
    have htimes : ∀ q, (k.procArray q).pNumTimes = 0 :=
      hb.field Process.pNumTimes rfl fun _ _ => rfl
    have hshare : (k.procArray 1).pShare = 0 := hb.field Process.pShare rfl (fun _ _ => rfl) 1
    refine ⟨fun q _ _ => htimes q, fun _ => ?_, fun _ => ?_⟩
    · rw [htimes]
      show (0 : Int) ≤ (0 : Int32).toInt
      decide
    · rw [htimes, hshare]
      show (0 : Int32).toInt ≤ (0 : Int32).toInt + 1
      decide
  | n + 1, p, k, cpu, h => by
    cases hn : system ramimages 3 k₀ traps n with
    | spinning k' =>
      rw [system_succ, hn] at h
      cases h
    | user p' k' cpu' =>
      have hr := system_running hn
      have hk := system_counting hn
      rw [system_succ, hn] at h
      exact counting_trap hr hk h

/-! ## Termination -/

section Ends

variable {k : Machine} {p : Pid} {tsc : Nat → UInt64}

/-- A call of `schedule` comes to an end by running a runnable process. -/
def Ends (tsc : Nat → UInt64) (k : Machine) : Prop :=
  ∃ fuel q k', schedule fuel tsc k = .error (run q k') ∧ k'.Runnable q

theorem ends_of_willing (halg : k.schedulingAlgorithm = 3)
    (hpid : (k.procArray k.current).pPid = p) (hk : k.CallCounting p) (hw : ∃ q, k.Willing q) :
    Ends tsc k := by
  by_cases hs : k.HasShare p
  · refine ⟨1, p, _, schedule_share_stay halg hpid hs (by decide), ?_⟩
    exact ((sameUpToTimes_tick k p).runnable_iff p).mpr hs.1
  · obtain ⟨q, hq⟩ := exists_isNext p hw
    refine ⟨nprocs + 1, q, _, schedule_share_move halg hpid hk.fresh hs hq (by decide), ?_⟩
    exact (((sameUpToTimes_restart k p).trans (sameUpToTimes_tick _ q)).runnable_iff q).mpr hq.1.1

theorem willing_of_ends (halg : k.schedulingAlgorithm = 3)
    (hpid : (k.procArray k.current).pPid = p) (hk : k.CallCounting p) (h : Ends tsc k) :
    ∃ q, k.Willing q := by
  obtain ⟨fuel, q, k', hs, -⟩ := h
  rcases schedule_share_user halg hpid hk.fresh hs with ⟨hshare, -, -⟩ | ⟨-, hnext, -⟩
  · exact ⟨p, hk.willing hshare⟩
  · exact ⟨q, hnext.1⟩

end Ends

/-- **When the share scheduler hangs.** In every run under algorithm 3, a call of `schedule`
ends by running a runnable process if and only if some runnable process has a share that is
not negative. -/
theorem schedule_share_ends_iff {ramimages : Fin 4 → Ramimage} {k₀ : Machine}
    {traps : Nat → Trap} {n : Nat} {p : Pid} {k : Machine} {cpu : Registers}
    (h : system ramimages 3 k₀ traps n = .user p k cpu) (t : Trap) :
    Ends t.tsc (t.call k) ↔
      ∃ q, (t.call k).Runnable q ∧ 0 ≤ ((t.call k).procArray q).pShare := by
  have hr := system_running h
  have hcall := (system_counting h).call (t := t) hr.current
  exact ⟨willing_of_ends (hr.call_algorithm t) (hr.call_pPid t) hcall,
    ends_of_willing (hr.call_algorithm t) (hr.call_pPid t) hcall⟩

/-- After `start` all shares are 0, which is enough. -/
theorem schedule_share_ends_bare : ∃ k cpu,
    system bareImages 3 bareMachine (fun _ => yieldTrap) 0 = .user 1 k cpu ∧
      Ends yieldTrap.tsc (yieldTrap.call k) := by
  obtain ⟨entry, ram, h⟩ := system_bare_zero 3 fun _ => yieldTrap
  refine ⟨_, _, h, (schedule_share_ends_iff h yieldTrap).mpr ⟨2, ?_, ?_⟩⟩
  · exact yieldTrap_runnable.mpr (bootTable_pState.mpr (by decide))
  · rw [Trap.call_pShare, if_neg fun he => absurd he.1 (by decide)]
    show (0 : Int32) ≤ 0
    decide

/-! ## Four negative shares -/

/-- A process calls `sys_set_share(share)`; we look for one round of the table and one pass more. -/
def setShareTrap (share : UInt32) : Trap where
  reg := { Registers.zero with regIntno := intSysUser2, regEax := share }
  ram := fun _ => 0
  tsc := fun _ => 0
  fuel := nprocs + 1

theorem setShareTrap_runnable {v : UInt32} {k : Machine} {i : Pid} :
    ((setShareTrap v).call k).Runnable i ↔ k.Runnable i := by
  have hne : intSysUser2 ≠ intSysExit := by decide
  rw [Trap.call_runnable]
  exact ⟨And.left, fun h => ⟨h, fun he => hne he.1⟩⟩

/-- The bare system when every process sets its share to -1. -/
def negativeShares : Nat → Config := system bareImages 3 bareMachine fun _ => setShareTrap (-1)

/-- Processes 1 to `n` have the share -1, those after them the share 0. -/
def Machine.NegativeUpTo (k : Machine) (n : Nat) : Prop :=
  ∀ i : Pid, i ≠ 0 → (k.procArray i).pShare = if i.val ≤ n then -1 else 0

/-- The next process makes its share negative. -/
theorem Machine.NegativeUpTo.call {k : Machine} {n : Nat} (h : k.NegativeUpTo n)
    (hcur : k.current.val = n + 1) : ((setShareTrap (-1)).call k).NegativeUpTo (n + 1) := by
  intro i hi
  rw [Trap.call_pShare, h i hi]
  by_cases hic : i = k.current
  · rw [if_pos ⟨rfl, hic⟩, if_pos (by rw [hic, hcur])]
    rfl
  · have hiv : i.val ≠ n + 1 := fun he => hic (Fin.ext (he.trans hcur.symm))
    rw [if_neg fun he => hic he.2]
    split <;> split <;> first | rfl | omega

/-- After `n` calls, processes 1 to `n` have the share -1 and process `n + 1` runs. -/
theorem negativeShares_spec : ∀ n, n ≤ 3 → ∃ p k cpu, negativeShares n = .user p k cpu ∧
    p.val = n + 1 ∧ (∀ i, k.Runnable i ↔ i ≠ 0) ∧ k.NegativeUpTo n
  | 0, _ => by
    obtain ⟨entry, ram, h₀⟩ := system_bare_zero 3 fun _ => setShareTrap (-1)
    refine ⟨_, _, _, h₀, rfl, fun i => bootTable_pState, fun i hi => ?_⟩
    have hpos : ¬ i.val ≤ 0 := fun h => hi (Fin.ext (Nat.le_zero.mp h))
    show (bootTable entry i).pShare = _
    rw [if_neg hpos, bootTable, if_neg hi]
    rfl
  | n + 1, hn => by
    obtain ⟨p, k, cpu, hk, hp, hrun, hshare⟩ := negativeShares_spec n (by omega)
    have hr := system_running hk
    have hcall := (system_counting hk).call (t := setShareTrap (-1)) hr.current
    have hshare' := hshare.call (by rw [hr.current, hp])
    have hq : IsNext ((setShareTrap (-1)).call k).Willing p (next p) := by
      have hnv : (next p).val = n + 2 := by
        rw [next_val, hp, if_neg (by show n + 1 + 1 ≠ 5; omega)]
      have hn0 : next p ≠ 0 := fun he => by rw [he] at hnv; cases hnv
      refine ⟨⟨setShareTrap_runnable.mpr ((hrun _).mpr hn0), ?_⟩, fun r _ => ?_⟩
      · rw [hshare' _ hn0, if_neg (by omega)]
        decide
      · rw [gap_next_self]
        exact Nat.zero_le _
    have hno : ¬ ((setShareTrap (-1)).call k).HasShare p := by
      intro hs
      have hw := (hcall.willing hs).2
      rw [hshare' p hr.ne_zero, if_pos (by omega)] at hw
      exact absurd hw (by decide)
    have hsame := (sameUpToTimes_restart ((setShareTrap (-1)).call k) p).trans
      (sameUpToTimes_tick _ (next p))
    have hstep : negativeShares (n + 1)
        = run (next p) ((((setShareTrap (-1)).call k).restart p).tick (next p)) := by
      rw [negativeShares, system_succ, ← negativeShares, hk]
      exact trap_of_schedule (by decide) (schedule_share_move (hr.call_algorithm _)
        (hr.call_pPid _) hcall.fresh hno hq (by decide))
    refine ⟨_, _, _, hstep, ?_, fun i => ?_, fun i hi => ?_⟩
    · rw [next_val, hp, if_neg (by show n + 1 + 1 ≠ 5; omega)]
    · exact ((hsame.runnable_iff i).trans setShareTrap_runnable).trans (hrun i)
    · exact (hsame.pShare i).trans (hshare' i hi)

/-- When the fourth process sets its share to -1 as well, the kernel hangs, although all four
are runnable. -/
theorem schedule_share_hangs : ∃ p k cpu, negativeShares 3 = .user p k cpu ∧
    (∀ i, ((setShareTrap (-1)).call k).Runnable i ↔ i ≠ 0) ∧
    ¬ Ends (setShareTrap (-1)).tsc ((setShareTrap (-1)).call k) := by
  obtain ⟨p, k, cpu, hk, hp, hrun, hshare⟩ := negativeShares_spec 3 (Nat.le_refl 3)
  refine ⟨p, k, cpu, hk, fun i => setShareTrap_runnable.trans (hrun i), fun hends => ?_⟩
  have hr := system_running hk
  obtain ⟨q, hq, hle⟩ := willing_of_ends (hr.call_algorithm _) (hr.call_pPid _)
    ((system_counting hk).call hr.current) hends
  have hq0 := (setShareTrap_runnable.trans (hrun q)).mp hq
  have hshare' := hshare.call (by rw [hr.current, hp])
  have hlt : q.val < 5 := q.isLt
  rw [hshare' q hq0, if_pos (by omega)] at hle
  exact absurd hle (by decide)

end SchedOS
