import SchedOS.Kern.Schedule

/-!
# What a call of `schedule` can do

Whatever the algorithm, `schedule` does not return: it runs a process that is runnable at
that moment, or it is still in its loop. On the way it changes nothing but `p_num_times`
(`schedule_spec`). The sections after that say, for each algorithm, which process is run and
when the loop is left at all.
-/

namespace SchedOS

open Infra

/-- A descriptor without its `p_num_times`. -/
def Process.sansTimes (p : Process) : Process := { p with pNumTimes := 0 }

/-- `k'` differs from `k` at most in the `p_num_times` of its entries and in the memory. -/
structure Machine.SameUpToTimes (k k' : Machine) : Prop where
  current : k'.current = k.current
  algorithm : k'.schedulingAlgorithm = k.schedulingAlgorithm
  proc : ∀ i, (k'.procArray i).sansTimes = (k.procArray i).sansTimes

namespace Machine.SameUpToTimes

variable {k k' k'' : Machine}

theorem refl (k : Machine) : k.SameUpToTimes k := ⟨rfl, rfl, fun _ => rfl⟩

theorem trans (h : k.SameUpToTimes k') (h' : k'.SameUpToTimes k'') : k.SameUpToTimes k'' :=
  ⟨h'.current.trans h.current, h'.algorithm.trans h.algorithm,
    fun i => (h'.proc i).trans (h.proc i)⟩

theorem setNumTimes (k : Machine) (pid : Pid) (f : Process → Int32) :
    k.SameUpToTimes (k.setProc pid fun p => { p with pNumTimes := f p }) := by
  exact ⟨rfl, rfl, fun i => Machine.setProc_field k pid _ Process.sansTimes rfl i⟩

/-- Every field but `p_num_times` is the same. -/
theorem field (h : k.SameUpToTimes k') {β : Type*} (g : Process → β)
    (hg : ∀ p : Process, g p.sansTimes = g p) (i : Pid) :
    g (k'.procArray i) = g (k.procArray i) := by
  rw [← hg, h.proc i, hg]

theorem pPid (h : k.SameUpToTimes k') (i : Pid) : (k'.procArray i).pPid = (k.procArray i).pPid :=
  h.field Process.pPid (fun _ => rfl) i

theorem pState (h : k.SameUpToTimes k') (i : Pid) :
    (k'.procArray i).pState = (k.procArray i).pState :=
  h.field Process.pState (fun _ => rfl) i

theorem pShare (h : k.SameUpToTimes k') (i : Pid) :
    (k'.procArray i).pShare = (k.procArray i).pShare :=
  h.field Process.pShare (fun _ => rfl) i

theorem runnable_iff (h : k.SameUpToTimes k') (i : Pid) : k'.Runnable i ↔ k.Runnable i := by
  unfold Machine.Runnable
  rw [h.pState i]

end Machine.SameUpToTimes

/-! ## Endless loops that leave the kernel -/

section WhileLoop

variable {σ : Type} {machine : σ → Machine} {body : σ → Pass σ Config} {fuel : Nat} {s : σ}

theorem whileLoop_leave {c : Config} (h : loop body fuel s = .leave c) :
    whileLoop machine body fuel s = .error c := by
  rw [whileLoop, h]

theorem whileLoop_cases {c : Config} (h : whileLoop machine body fuel s = .error c) :
    loop body fuel s = .leave c ∨
      ∃ s', loop body fuel s = .again s' ∧ c = .spinning (machine s') := by
  unfold whileLoop at h
  cases hl : loop body fuel s with
  | again s' =>
    rw [hl] at h
    exact Or.inr ⟨s', rfl, (Except.error.inj h).symm⟩
  | leave c' =>
    rw [hl] at h
    exact Or.inl (by rw [Except.error.inj h])

theorem whileLoop_error (machine : σ → Machine) (body : σ → Pass σ Config) (fuel : Nat) (s : σ) :
    ∃ c, whileLoop machine body fuel s = .error c := by
  unfold whileLoop
  cases loop body fuel s with
  | again s' => exact ⟨_, rfl⟩
  | leave c => exact ⟨_, rfl⟩

end WhileLoop

/-! ## `schedule` by algorithm -/

variable {fuel : Nat} {tsc : Nat → UInt64} {k : Machine} {c : Config}

/-- **`schedule` does not return.** It leaves the kernel, or it stays in a loop. -/
theorem schedule_error (fuel : Nat) (tsc : Nat → UInt64) (k : Machine) :
    ∃ c, schedule fuel tsc k = .error c := by
  unfold schedule
  dsimp only
  split
  · exact whileLoop_error ..
  split
  · exact whileLoop_error ..
  split
  · exact whileLoop_error ..
  split
  · exact whileLoop_error ..
  split
  · exact whileLoop_error ..
  · exact ⟨_, rfl⟩

theorem schedule_never_returns (k' : Machine) : schedule fuel tsc k ≠ .ok k' := by
  obtain ⟨c, hc⟩ := schedule_error fuel tsc k
  rw [hc]
  simp

theorem schedule_roundRobin (h : k.schedulingAlgorithm = 0) :
    schedule fuel tsc k
      = whileLoop (fun _ => k) (roundRobinBody k) fuel (k.procArray k.current).pPid :=
  if_pos h

theorem schedule_lowestPid (h : k.schedulingAlgorithm = 1) :
    schedule fuel tsc k = whileLoop (fun _ => k) (lowestPidBody k) fuel () := by
  unfold schedule
  dsimp only
  rw [if_neg (by rw [h]; decide), if_pos h]

theorem schedule_priority (h : k.schedulingAlgorithm = 2) :
    schedule fuel tsc k = whileLoop (fun _ => k) (priorityBody k (mostPriority k)) fuel
      (k.procArray k.current).pPid := by
  unfold schedule
  dsimp only
  rw [if_neg (by rw [h]; decide), if_neg (by rw [h]; decide), if_pos h]

theorem schedule_share (h : k.schedulingAlgorithm = 3) :
    schedule fuel tsc k
      = whileLoop Prod.fst shareBody fuel (k, (k.procArray k.current).pPid) := by
  unfold schedule
  dsimp only
  rw [if_neg (by rw [h]; decide), if_neg (by rw [h]; decide), if_neg (by rw [h]; decide),
    if_pos h]

theorem schedule_lottery (h : k.schedulingAlgorithm = 4) :
    schedule fuel tsc k = whileLoop (fun _ => k) (lotteryBody tsc k) fuel 0 := by
  unfold schedule
  dsimp only
  rw [if_neg (by rw [h]; decide), if_neg (by rw [h]; decide), if_neg (by rw [h]; decide),
    if_neg (by rw [h]; decide), if_pos h]

/-! ## The processes that are run -/

/-- What leaving a scheduling loop entered in `k` amounts to. -/
def RunsFrom (k : Machine) (c : Config) : Prop :=
  ∃ pid k', c = run pid k' ∧ k'.Runnable pid ∧ k.SameUpToTimes k' ∧ k'.ram = k.ram

/-- The same where the machine has not changed at all. -/
def RunsIn (k : Machine) (c : Config) : Prop := ∃ pid, c = run pid k ∧ k.Runnable pid

theorem RunsIn.runsFrom (h : RunsIn k c) : RunsFrom k c := by
  obtain ⟨pid, rfl, hr⟩ := h
  exact ⟨pid, k, rfl, hr, .refl k, rfl⟩

/-- A loop that changes nothing is left for a runnable process … -/
theorem loop_const_runsIn {σ : Type} {body : σ → Pass σ Config} {s : σ}
    (hbody : ∀ s c, body s = .leave c → RunsIn k c) (h : loop body fuel s = .leave c) :
    RunsIn k c := by
  have hstep : ∀ s, True → (body s).Sees (fun _ => True) (RunsIn k) := by
    intro s _
    cases hb : body s with
    | again s' => trivial
    | leave c' => exact hbody s c' hb
  have hrule := loop_rule hstep fuel s trivial
  rw [h] at hrule
  exact hrule

/-- … or spins in the same state. -/
theorem whileLoop_const_spec {σ : Type} {body : σ → Pass σ Config} {s : σ}
    (hbody : ∀ s c, body s = .leave c → RunsIn k c)
    (h : whileLoop (fun _ => k) body fuel s = .error c) : RunsIn k c ∨ c = .spinning k := by
  rcases whileLoop_cases h with hl | ⟨s', -, rfl⟩
  · exact Or.inl (loop_const_runsIn hbody hl)
  · exact Or.inr rfl

theorem scanBody_runsIn {S : Pid → Prop} [DecidablePred S] (hS : ∀ pid, S pid → k.Runnable pid)
    {s : Pid} (h : scanBody S (fun pid => run pid k) s = .leave c) : RunsIn k c := by
  unfold scanBody at h
  split at h
  · next hs =>
    cases h
    exact ⟨_, rfl, hS _ hs⟩
  · cases h

theorem lowestPidBody_runsIn (h : lowestPidBody k () = .leave c) : RunsIn k c := by
  unfold lowestPidBody at h
  split at h
  · next pid hpid =>
    cases h
    exact ⟨pid, rfl, by simpa using List.find?_some hpid⟩
  · cases h

theorem lotteryBody_runsIn {i : Nat} (h : lotteryBody tsc k i = .leave c) : RunsIn k c := by
  unfold lotteryBody at h
  dsimp only at h
  split at h
  · next hs =>
    cases h
    exact ⟨_, rfl, hs⟩
  · cases h

/-- One pass of the share loop keeps everything but the counters. -/
theorem shareBody_sees {k₁ : Machine} (h : k.SameUpToTimes k₁) (hram : k₁.ram = k.ram)
    (pid : Pid) : (shareBody (k₁, pid)).Sees
      (fun s => k.SameUpToTimes s.1 ∧ s.1.ram = k.ram) (RunsFrom k) := by
  have h₂ := h.trans (.setNumTimes k₁ pid fun p => p.pNumTimes + 1)
  unfold shareBody
  dsimp only
  split
  · next hr =>
    split
    · exact ⟨pid, _, rfl, (h₂.runnable_iff pid).mpr ((h.runnable_iff pid).mp hr), h₂, hram⟩
    · exact ⟨h₂.trans (.setNumTimes _ pid fun _ => 0), hram⟩
  · exact ⟨h, hram⟩

/-- The values of `scheduling_algorithm` that `schedule` has a branch for. -/
def KnownAlgorithm (scheduling_algorithm : Int32) : Prop :=
  scheduling_algorithm = 0 ∨ scheduling_algorithm = 1 ∨ scheduling_algorithm = 2 ∨
    scheduling_algorithm = 3 ∨ scheduling_algorithm = 4

/-- What not having left the scheduling loop entered in `k` amounts to. Only the message for an
unknown algorithm is written to the memory. -/
def SpinsFrom (k : Machine) (c : Config) : Prop :=
  ∃ k', c = .spinning k' ∧ k.SameUpToTimes k' ∧
    (KnownAlgorithm k.schedulingAlgorithm → k'.ram = k.ram)

/-- All algorithms but the share scheduler loop without changing anything; for an unknown one
there is a message. -/
theorem schedule_const_spec (halg : k.schedulingAlgorithm ≠ 3)
    (h : schedule fuel tsc k = .error c) :
    RunsIn k c ∨ c = .spinning k ∨
      ¬ KnownAlgorithm k.schedulingAlgorithm ∧ c = .spinning (unknownAlgorithm k) := by
  have hknown : RunsIn k c ∨ c = .spinning k → RunsIn k c ∨ c = .spinning k ∨
      ¬ KnownAlgorithm k.schedulingAlgorithm ∧ c = .spinning (unknownAlgorithm k) := by
    rintro (hr | hc)
    · exact Or.inl hr
    · exact Or.inr (Or.inl hc)
  unfold schedule at h
  dsimp only at h
  split at h
  · exact hknown (whileLoop_const_spec (fun _ _ => scanBody_runsIn fun _ => id) h)
  next h₀ =>
  split at h
  · exact hknown (whileLoop_const_spec (fun _ _ => lowestPidBody_runsIn) h)
  next h₁ =>
  split at h
  · exact hknown (whileLoop_const_spec (fun _ _ => scanBody_runsIn fun _ => And.left) h)
  next h₂ =>
  -- the branch for the share scheduler is gone
  split at h
  · exact hknown (whileLoop_const_spec (fun _ _ => lotteryBody_runsIn) h)
  · next h₄ =>
    cases h
    refine Or.inr (Or.inr ⟨?_, rfl⟩)
    rintro (h | h | h | h | h)
    · exact h₀ h
    · exact h₁ h
    · exact h₂ h
    · exact halg h
    · exact h₄ h

/-- **What a call of `schedule` can do**, whatever the algorithm. -/
theorem schedule_spec (h : schedule fuel tsc k = .error c) : RunsFrom k c ∨ SpinsFrom k c := by
  by_cases halg : k.schedulingAlgorithm = 3
  · -- only the share scheduler changes the machine while it loops
    rw [schedule_share halg] at h
    have hstep : ∀ s : Machine × Pid, k.SameUpToTimes s.1 ∧ s.1.ram = k.ram →
        (shareBody s).Sees (fun s => k.SameUpToTimes s.1 ∧ s.1.ram = k.ram) (RunsFrom k) :=
      fun s hs => shareBody_sees hs.1 hs.2 s.2
    have hrule := loop_rule hstep fuel (k, (k.procArray k.current).pPid) ⟨.refl k, rfl⟩
    rcases whileLoop_cases h with hl | ⟨s', hl, rfl⟩
    · rw [hl] at hrule
      exact Or.inl hrule
    · rw [hl] at hrule
      exact Or.inr ⟨s'.1, rfl, hrule.1, fun _ => hrule.2⟩
  · rcases schedule_const_spec halg h with hr | rfl | ⟨hunknown, rfl⟩
    · exact Or.inl hr.runsFrom
    · exact Or.inr ⟨k, rfl, .refl k, fun _ => rfl⟩
    · refine Or.inr ⟨_, rfl, ?_, fun hknown => absurd hknown hunknown⟩
      unfold unknownAlgorithm
      split <;> exact ⟨rfl, rfl, fun _ => rfl⟩

/-! ## Scanning the table -/

section Scan

variable {S : Pid → Prop} [DecidablePred S] {pid q : Pid}

/-- The scan that algorithms 0 and 2 have in common ends within one round. -/
theorem whileLoop_scan_run (h : IsNext S pid q) (hfuel : nprocs ≤ fuel) :
    whileLoop (fun _ => k) (scanBody S fun pid => run pid k) fuel pid = .error (run q k) := by
  have hgap := gap_lt pid q
  exact whileLoop_leave (loop_scan_of_isNext fuel h (by omega))

/-- If it runs a process at all, it is the next one. -/
theorem whileLoop_scan_user {k' : Machine} {cpu : Registers}
    (h : whileLoop (fun _ => k) (scanBody S fun pid => run pid k) fuel pid
      = .error (.user q k' cpu)) :
    IsNext S pid q ∧ k' = { k with current := q } := by
  rcases whileLoop_cases h with hl | ⟨s', -, hc⟩
  · obtain ⟨q', hq', hc⟩ := loop_scan_leave hl
    cases hc
    exact ⟨hq', rfl⟩
  · cases hc

end Scan

/-! ## The lowest pid -/

/-- A runnable process such that no process with a lower pid is runnable. -/
def Machine.Lowest (k : Machine) (p : Pid) : Prop := k.Runnable p ∧ ∀ q, q < p → ¬ k.Runnable q

/-- Algorithm 1 runs the first entry of the table that is runnable. -/
theorem lowestPidBody_eq {p : Pid} (h : k.Runnable p) (hlow : ∀ q, q < p → ¬ k.Runnable q) :
    lowestPidBody k () = .leave (run p k) := by
  unfold lowestPidBody
  have hfind : (List.finRange nprocs).find? (fun pid => decide (k.Runnable pid)) = some p := by
    rw [List.find?_eq_some_iff_getElem]
    refine ⟨by simpa using h, p.val, by simp, by simp, fun j hj => ?_⟩
    simpa using hlow ⟨j, by omega⟩ hj
  rw [hfind]

theorem exists_lowest (h : ∃ p, k.Runnable p) :
    ∃ p, k.Runnable p ∧ ∀ q, q < p → ¬ k.Runnable q := by
  obtain ⟨p, hp, hmin⟩ := exists_minimal_of_wellFoundedLT k.Runnable h
  exact ⟨p, hp, fun q hq hr => absurd (hmin hr (le_of_lt hq)) (not_le_of_gt hq)⟩

theorem schedule_lowestPid_run (halg : k.schedulingAlgorithm = 1) {p : Pid} (h : k.Runnable p)
    (hlow : ∀ q, q < p → ¬ k.Runnable q) (hfuel : 0 < fuel) :
    schedule fuel tsc k = .error (run p k) := by
  obtain ⟨n, rfl⟩ := Nat.exists_eq_succ_of_ne_zero (Nat.ne_of_gt hfuel)
  rw [schedule_lowestPid halg, whileLoop_leave (loop_succ_leave (lowestPidBody_eq h hlow) n)]

/-- Whatever algorithm 1 runs, no process with a lower pid is runnable. -/
theorem schedule_lowestPid_user (halg : k.schedulingAlgorithm = 1) {q : Pid} {k' : Machine}
    {cpu : Registers} (h : schedule fuel tsc k = .error (.user q k' cpu)) :
    (k.Runnable q ∧ ∀ p, p < q → ¬ k.Runnable p) ∧ k' = { k with current := q } := by
  rw [schedule_lowestPid halg] at h
  rcases whileLoop_cases h with hl | ⟨s', -, hc⟩
  · cases fuel with
    | zero => cases hl
    | succ n =>
      by_cases hrun : ∃ p, k.Runnable p
      · -- the lowest one is what the `for` loop finds
        obtain ⟨p, hp, hlow⟩ := exists_lowest hrun
        rw [loop_succ_leave (lowestPidBody_eq hp hlow)] at hl
        cases hl
        exact ⟨⟨hp, hlow⟩, rfl⟩
      · exfalso
        rcases whileLoop_const_spec (fun _ _ => lowestPidBody_runsIn) h with ⟨p, -, hr⟩ | hc
        · exact hrun ⟨p, hr⟩
        · cases hc
  · cases hc

/-! ## Priorities -/

/-- A runnable process such that no runnable process has a smaller `p_priority`. -/
def Machine.Urgent (k : Machine) (i : Pid) : Prop :=
  k.Runnable i ∧ ∀ j, k.Runnable j → (k.procArray i).pPriority ≤ (k.procArray j).pPriority

theorem le_intMax (x : Int32) : x ≤ intMax := by
  rw [Int32.le_iff_toInt_le]
  have h := x.toInt_lt
  show x.toInt ≤ 2147483647
  omega

/-- What the search for `most_priority` has found after the entries `l`: nothing runnable there
is below it, nor is the value it started from … -/
theorem foldl_mostPriority_le (k : Machine) : ∀ (l : List Pid) (most_priority : Int32),
    (∀ i ∈ l, k.Runnable i →
        l.foldl (mostPriorityBody k) most_priority ≤ (k.procArray i).pPriority) ∧
      l.foldl (mostPriorityBody k) most_priority ≤ most_priority
  | [], _ => ⟨fun _ hi => absurd hi List.not_mem_nil, Int32.le_refl _⟩
  | i :: l, most_priority => by
    obtain ⟨hl, hle⟩ := foldl_mostPriority_le k l (mostPriorityBody k most_priority i)
    rw [List.foldl_cons]
    have hbody : mostPriorityBody k most_priority i ≤ most_priority ∧
        (k.Runnable i → mostPriorityBody k most_priority i ≤ (k.procArray i).pPriority) := by
      unfold mostPriorityBody
      split
      · next h => exact ⟨Int32.le_of_lt h.2, fun _ => Int32.le_refl _⟩
      · next h => exact ⟨Int32.le_refl _, fun hr => Int32.not_lt.mp fun hlt => h ⟨hr, hlt⟩⟩
    refine ⟨fun j hj hr => ?_, Int32.le_trans hle hbody.1⟩
    rcases List.mem_cons.mp hj with rfl | hj
    · exact Int32.le_trans hle (hbody.2 hr)
    · exact hl j hj hr

/-- … and it is that value or the priority of a runnable process. -/
theorem foldl_mostPriority_mem (k : Machine) : ∀ (l : List Pid) (most_priority : Int32),
    l.foldl (mostPriorityBody k) most_priority = most_priority ∨
      ∃ i, k.Runnable i ∧ (k.procArray i).pPriority = l.foldl (mostPriorityBody k) most_priority
  | [], _ => Or.inl rfl
  | i :: l, most_priority => by
    rw [List.foldl_cons]
    rcases foldl_mostPriority_mem k l (mostPriorityBody k most_priority i) with he | hex
    · rw [he]
      unfold mostPriorityBody
      split
      · next h => exact Or.inr ⟨i, h.1, rfl⟩
      · exact Or.inl rfl
    · exact Or.inr hex

theorem mostPriority_le {i : Pid} (h : k.Runnable i) :
    mostPriority k ≤ (k.procArray i).pPriority :=
  (foldl_mostPriority_le k (List.finRange nprocs) intMax).1 i (List.mem_finRange i) h

/-- `most_priority` is the priority of some runnable process, even if that is `INT_MAX`. -/
theorem exists_mostPriority (h : ∃ i, k.Runnable i) :
    ∃ i, k.Runnable i ∧ (k.procArray i).pPriority = mostPriority k := by
  rcases foldl_mostPriority_mem k (List.finRange nprocs) intMax with he | hex
  · obtain ⟨i, hi⟩ := h
    have hmax : mostPriority k = intMax := he
    refine ⟨i, hi, Int32.le_antisymm ?_ (mostPriority_le hi)⟩
    rw [hmax]
    exact le_intMax _
  · exact hex

/-- The entries that the inner loop looks for are the urgent ones. -/
theorem urgent_iff (i : Pid) : k.Urgent i ↔
    k.Runnable i ∧ (k.procArray i).pPriority = mostPriority k := by
  constructor
  · rintro ⟨hi, hmin⟩
    obtain ⟨j, hj, hje⟩ := exists_mostPriority ⟨i, hi⟩
    exact ⟨hi, Int32.le_antisymm (hje ▸ hmin j hj) (mostPriority_le hi)⟩
  · rintro ⟨hi, he⟩
    exact ⟨hi, fun j hj => he ▸ mostPriority_le hj⟩

theorem exists_urgent (h : ∃ i, k.Runnable i) : ∃ i, k.Urgent i := by
  obtain ⟨i, hi⟩ := exists_mostPriority h
  exact ⟨i, (urgent_iff i).mpr hi⟩

/-! ## The next process -/

section Next

variable {p q : Pid} {k' : Machine} {cpu : Registers}

/-- **Algorithm 0** runs the next runnable process. -/
theorem schedule_roundRobin_run (halg : k.schedulingAlgorithm = 0)
    (hpid : (k.procArray k.current).pPid = p) (h : IsNext k.Runnable p q)
    (hfuel : nprocs ≤ fuel) : schedule fuel tsc k = .error (run q k) := by
  rw [schedule_roundRobin halg, hpid]
  exact whileLoop_scan_run h hfuel

theorem schedule_roundRobin_user (halg : k.schedulingAlgorithm = 0)
    (hpid : (k.procArray k.current).pPid = p)
    (h : schedule fuel tsc k = .error (.user q k' cpu)) :
    IsNext k.Runnable p q ∧ k' = { k with current := q } := by
  rw [schedule_roundRobin halg, hpid] at h
  exact whileLoop_scan_user h

theorem urgent_eq : k.Urgent = fun i => k.Runnable i ∧ (k.procArray i).pPriority = mostPriority k :=
  funext fun i => propext (urgent_iff i)

/-- **Algorithm 2** runs the next urgent process. -/
theorem schedule_priority_run (halg : k.schedulingAlgorithm = 2)
    (hpid : (k.procArray k.current).pPid = p) (h : IsNext k.Urgent p q)
    (hfuel : nprocs ≤ fuel) : schedule fuel tsc k = .error (run q k) := by
  rw [urgent_eq] at h
  rw [schedule_priority halg, hpid]
  exact whileLoop_scan_run h hfuel

theorem schedule_priority_user (halg : k.schedulingAlgorithm = 2)
    (hpid : (k.procArray k.current).pPid = p)
    (h : schedule fuel tsc k = .error (.user q k' cpu)) :
    IsNext k.Urgent p q ∧ k' = { k with current := q } := by
  rw [schedule_priority halg, hpid] at h
  rw [urgent_eq]
  exact whileLoop_scan_user h

end Next

end SchedOS
