import SchedOS.Properties.Lifecycle

/-!
# Round robin and priorities over whole runs

Algorithms 0 and 2 both go on to the *next* process of a certain kind: the next runnable one,
or the next one of those with the smallest `p_priority`. What this means for a run is a fact
about going round a circle (`Infra.Cyclic`), which the two share (`Rotates`).

* `roundRobin_fair` — between two turns of a process, every other one that stays runnable has
  exactly one turn
* `priority_fair` — the same among the processes of smallest `p_priority`; nobody else runs
-/

namespace SchedOS

open Infra

/-- Each process that is dispatched is the next member of `S` after the one before it. -/
def Rotates (S : Machine → Pid → Prop) (sys : Nat → Config) : Prop :=
  ∀ j p k cpu q k' cpu', sys j = .user p k cpu → sys (j + 1) = .user q k' cpu' →
    IsNext (S k') p q

/-- The processes dispatched at `m` and at `n` are `p`, and `p` is not dispatched in between. -/
structure Consecutive (sys : Nat → Config) (p : Pid) (m n : Nat) : Prop where
  lt : m < n
  left : (sys m).proc? = some p
  right : (sys n).proc? = some p
  between : ∀ j, m < j → j < n → (sys j).proc? ≠ some p

/-! ## Turns between two turns of one process -/

section Rotates

variable {S : Machine → Pid → Prop} {sys : Nat → Config} {p q : Pid} {m n : Nat}

/-- The process that runs; 0 if none does. -/
def dispatch (sys : Nat → Config) (j : Nat) : Pid := (sys j).proc?.getD 0

theorem dispatch_of_proc? {j : Nat} (h : (sys j).proc? = some p) : dispatch sys j = p := by
  rw [dispatch, h]
  rfl

theorem proc?_eq_iff {j : Nat} (hlive : (sys j).proc? ≠ none) :
    (sys j).proc? = some q ↔ dispatch sys j = q := by
  obtain ⟨a, ha⟩ := Option.ne_none_iff_exists'.mp hlive
  rw [dispatch_of_proc? ha, ha, Option.some_inj]

variable (hrot : Rotates S sys) (hlive : ∀ j, m ≤ j → j ≤ n → (sys j).proc? ≠ none)
include hrot hlive

/-- While some process runs, the dispatches are a rotation in the sense of `Infra.Cyclic`. -/
theorem Rotates.isNext : ∀ j, m ≤ j → j < n →
    IsNext (S (sys (j + 1)).machine) (dispatch sys j) (dispatch sys (j + 1)) := by
  intro j hmj hjn
  obtain ⟨a, ha⟩ := Option.ne_none_iff_exists'.mp (hlive j hmj (by omega))
  obtain ⟨b, hb⟩ := Option.ne_none_iff_exists'.mp (hlive (j + 1) (by omega) hjn)
  rw [dispatch_of_proc? ha, dispatch_of_proc? hb]
  obtain ⟨k, cpu, hk⟩ := Config.proc?_eq_some ha
  obtain ⟨k', cpu', hk'⟩ := Config.proc?_eq_some hb
  rw [hk']
  exact hrot j a k cpu b k' cpu' hk hk'

/-- Only candidates run. -/
theorem Rotates.mem {j : Nat} (hmj : m < j) (hjn : j ≤ n) (hj : (sys j).proc? = some q) :
    S (sys j).machine q := by
  obtain ⟨i, rfl⟩ := Nat.exists_eq_succ_of_ne_zero (Nat.ne_of_gt (Nat.lt_of_le_of_lt m.zero_le hmj))
  have h := (hrot.isNext hlive i (Nat.le_of_lt_succ hmj) hjn).1
  rwa [dispatch_of_proc? hj] at h

variable (hc : Consecutive sys p m n) (hp : ∀ j, m < j → j ≤ n → S (sys j).machine p)
include hc hp

/-- Between two turns of `p` the others run in cyclic order. -/
theorem Rotates.ordered {i j : Nat} {a b : Pid} (hmi : m < i) (hij : i < j) (hjn : j < n)
    (ha : (sys i).proc? = some a) (hb : (sys j).proc? = some b) : gap p a < gap p b := by
  have hcand : ∀ j, m ≤ j → j < n → S (sys (j + 1)).machine p :=
    fun j h₁ h₂ => hp (j + 1) (Nat.lt_succ_of_le h₁) h₂
  have hne : ∀ j, m < j → j < n → dispatch sys j ≠ p := fun j h₁ h₂ he =>
    hc.between j h₁ h₂ ((proc?_eq_iff (hlive j (by omega) (by omega))).mpr he)
  have h := gap_strictMono (hrot.isNext hlive) hcand hne hmi hij (Nat.le_of_lt hjn)
  rwa [dispatch_of_proc? ha, dispatch_of_proc? hb] at h

/-- Between two turns of `p`, a process that is a candidate all the time has exactly one. -/
theorem Rotates.once (hqp : q ≠ p) (hq : ∀ j, m < j → j ≤ n → S (sys j).machine q) :
    ∃! j, m < j ∧ j < n ∧ (sys j).proc? = some q := by
  have hne : ∀ j, m < j → j < n → dispatch sys j ≠ p := fun j h₁ h₂ he =>
    hc.between j h₁ h₂ ((proc?_eq_iff (hlive j (by omega) (by omega))).mpr he)
  have hcand : ∀ j, m ≤ j → j < n → S (sys (j + 1)).machine p :=
    fun j h₁ h₂ => hp (j + 1) (Nat.lt_succ_of_le h₁) h₂
  have hcand' : ∀ j, m ≤ j → j < n → S (sys (j + 1)).machine q :=
    fun j h₁ h₂ => hq (j + 1) (Nat.lt_succ_of_le h₁) h₂
  obtain ⟨j, hmj, hjn, hj⟩ := exists_visit (hrot.isNext hlive) hc.lt (dispatch_of_proc? hc.left)
    (dispatch_of_proc? hc.right) hne hqp hcand'
  refine ⟨j, ⟨hmj, hjn, (proc?_eq_iff (hlive j (by omega) (by omega))).mpr hj⟩, ?_⟩
  rintro i ⟨hmi, hin, hi⟩
  refine visit_unique (hrot.isNext hlive) hcand hne hmi hin hmj hjn ?_
  rw [dispatch_of_proc? hi, hj]

end Rotates

/-! ## Runs of the system -/

section Runs

variable {ramimages : Fin 4 → Ramimage} {alg : Int32} {k₀ : Machine} {traps : Nat → Trap}
  {p : Pid} {m n : Nat}

/-- Up to a state in which a process runs, processes have run all the time. -/
theorem system_live (hn : (system ramimages alg k₀ traps n).proc? = some p) {j : Nat}
    (hj : j ≤ n) : (system ramimages alg k₀ traps j).proc? ≠ none := by
  intro hnone
  cases hs : system ramimages alg k₀ traps j with
  | user q k cpu =>
    rw [hs] at hnone
    cases hnone
  | spinning k =>
    rw [system_spinning hj hs] at hn
    cases hn

/-- A process that runs has been runnable from the beginning. -/
theorem system_runnable (hn : (system ramimages alg k₀ traps n).proc? = some p) {j : Nat}
    (hj : j ≤ n) : (system ramimages alg k₀ traps j).machine.Runnable p :=
  TimeSharing.live_antitone system_step hj
    (TimeSharing.active_live system_step system_active_live n p hn)

/-- One step of the system from one process to the next. -/
theorem system_schedule {p q : Pid} {k k' : Machine} {cpu cpu' : Registers}
    (hj : system ramimages alg k₀ traps n = .user p k cpu)
    (hj' : system ramimages alg k₀ traps (n + 1) = .user q k' cpu') :
    schedule (traps n).fuel (traps n).tsc ((traps n).call k) = .error (.user q k' cpu') := by
  have hstep : (Config.user p k cpu).trap (traps n) = .user q k' cpu' := by
    rw [← hj, ← system_succ, hj']
  exact schedule_of_trap hstep

/-! ## Round robin -/

/-- Under algorithm 0 the dispatches rotate among the runnable processes. -/
theorem system_rotates_runnable : Rotates Machine.Runnable (system ramimages 0 k₀ traps) := by
  intro j p k cpu q k' cpu' hj hj'
  have hr := system_running hj
  obtain ⟨hnext, rfl⟩ :=
    schedule_roundRobin_user (hr.call_algorithm _) (hr.call_pPid _) (system_schedule hj hj')
  exact hnext

/-- **Round robin.** In every run, a call of `schedule` with a runnable process ends by running
the next one; and between two turns of `p`, every other process that stays runnable has exactly
one turn, in cyclic order of the pids. -/
theorem roundRobin_fair (ramimages : Fin 4 → Ramimage) (k₀ : Machine) (traps : Nat → Trap) :
    (∀ n p k cpu t, system ramimages 0 k₀ traps n = .user p k cpu → Served t.reg.regIntno →
      (∃ q, (t.call k).Runnable q) →
      ∃ q, IsNext (t.call k).Runnable p q ∧ (q = p → ∀ r, (t.call k).Runnable r → r = p) ∧
        (nprocs ≤ t.fuel → (Config.user p k cpu).trap t = run q (t.call k))) ∧
    ∀ m n p, Consecutive (system ramimages 0 k₀ traps) p m n →
      (∀ q, q ≠ p →
        (∀ j, m ≤ j → j ≤ n → (system ramimages 0 k₀ traps j).machine.Runnable q) →
        ∃! j, m < j ∧ j < n ∧ (system ramimages 0 k₀ traps j).proc? = some q) ∧
      ∀ i j a b, m < i → i < j → j < n → (system ramimages 0 k₀ traps i).proc? = some a →
        (system ramimages 0 k₀ traps j).proc? = some b → gap p a < gap p b := by
  refine ⟨fun n p k cpu t hn hserved hwork => ?_, fun m n p hc => ?_⟩
  · have hr := system_running hn
    obtain ⟨q, hq⟩ := exists_isNext p hwork
    refine ⟨q, hq, fun he => (he ▸ hq).eq_self, fun hfuel => ?_⟩
    exact trap_of_schedule hserved
      (schedule_roundRobin_run (hr.call_algorithm t) (hr.call_pPid t) hq hfuel)
  · have hlive : ∀ j, m ≤ j → j ≤ n → (system ramimages 0 k₀ traps j).proc? ≠ none :=
      fun j _ hj => system_live hc.right hj
    have hp : ∀ j, m < j → j ≤ n → (system ramimages 0 k₀ traps j).machine.Runnable p :=
      fun j _ hj => system_runnable hc.right hj
    refine ⟨fun q hqp hq => ?_, fun i j a b hi hij hj ha hb => ?_⟩
    · exact system_rotates_runnable.once hlive hc hp hqp fun j h₁ h₂ => hq j (Nat.le_of_lt h₁) h₂
    · exact system_rotates_runnable.ordered hlive hc hp hi hij hj ha hb

/-! ## Priorities -/

/-- Under algorithm 2 the dispatches rotate among the urgent processes. -/
theorem system_rotates_urgent : Rotates Machine.Urgent (system ramimages 2 k₀ traps) := by
  intro j p k cpu q k' cpu' hj hj'
  have hr := system_running hj
  obtain ⟨hnext, rfl⟩ :=
    schedule_priority_user (hr.call_algorithm _) (hr.call_pPid _) (system_schedule hj hj')
  exact hnext

end Runs

/-- The same processes are runnable, with the same priorities. -/
structure Machine.SamePriorities (k k' : Machine) : Prop where
  runnable : ∀ i, k'.Runnable i ↔ k.Runnable i
  pPriority : ∀ i, (k'.procArray i).pPriority = (k.procArray i).pPriority

theorem Machine.SamePriorities.urgent_iff {k k' : Machine} (h : k.SamePriorities k') (i : Pid) :
    k'.Urgent i ↔ k.Urgent i := by
  simp only [Machine.Urgent, h.runnable, h.pPriority]

/-- The machine with other priorities. -/
def Machine.withPriorities (k : Machine) (priority : Pid → Int32) : Machine :=
  { k with procArray := fun i => { k.procArray i with pPriority := priority i } }

/-- **Priority scheduling.** Whatever the priorities are, a call of `schedule` with a runnable
process ends by running the next process of smallest priority. If the runnable processes and
their priorities are the same from one turn of `p` to the next, every other process of the
priority of `p` has exactly one turn in between, and no process of a larger one has any. -/
theorem priority_fair (ramimages : Fin 4 → Ramimage) (k₀ : Machine) (traps : Nat → Trap) :
    (∀ n p k cpu (t : Trap) priority, system ramimages 2 k₀ traps n = .user p k cpu →
      (∃ q, (t.call k).Runnable q) →
      ∃ q, IsNext ((t.call k).withPriorities priority).Urgent p q ∧
        ∀ fuel, nprocs ≤ fuel →
          schedule fuel t.tsc ((t.call k).withPriorities priority)
            = .error (run q ((t.call k).withPriorities priority))) ∧
    ∀ m n p, Consecutive (system ramimages 2 k₀ traps) p m n →
      (∀ j, m ≤ j → j ≤ n → (system ramimages 2 k₀ traps m).machine.SamePriorities
        (system ramimages 2 k₀ traps j).machine) →
      ∀ q, q ≠ p → (system ramimages 2 k₀ traps m).machine.Runnable q →
        (((system ramimages 2 k₀ traps m).machine.procArray q).pPriority
            = ((system ramimages 2 k₀ traps m).machine.procArray p).pPriority →
          ∃! j, m < j ∧ j < n ∧ (system ramimages 2 k₀ traps j).proc? = some q) ∧
        (((system ramimages 2 k₀ traps m).machine.procArray p).pPriority
            < ((system ramimages 2 k₀ traps m).machine.procArray q).pPriority →
          ∀ j, m < j → j < n → (system ramimages 2 k₀ traps j).proc? ≠ some q) := by
  refine ⟨fun n p k cpu t priority hn hwork => ?_, fun m n p hc hsame q hqp hq => ?_⟩
  · have hr := system_running hn
    have hwork' : ∃ q, ((t.call k).withPriorities priority).Runnable q := hwork
    obtain ⟨q, hq⟩ := exists_isNext p (exists_urgent hwork')
    exact ⟨q, hq, fun fuel hfuel =>
      schedule_priority_run (hr.call_algorithm t) (hr.call_pPid t) hq hfuel⟩
  · have hlive : ∀ j, m ≤ j → j ≤ n → (system ramimages 2 k₀ traps j).proc? ≠ none :=
      fun j _ hj => system_live hc.right hj
    have hrot : Rotates Machine.Urgent (system ramimages 2 k₀ traps) := system_rotates_urgent
    -- `p` is dispatched at `n`, so it is urgent there, and hence all the time
    have hpm : (system ramimages 2 k₀ traps m).machine.Urgent p :=
      ((hsame n (Nat.le_of_lt hc.lt) (Nat.le_refl n)).urgent_iff p).mp
        (hrot.mem hlive hc.lt (Nat.le_refl n) hc.right)
    have hp : ∀ j, m < j → j ≤ n → (system ramimages 2 k₀ traps j).machine.Urgent p :=
      fun j h₁ h₂ => ((hsame j (Nat.le_of_lt h₁) h₂).urgent_iff p).mpr hpm
    refine ⟨fun heq => ?_, fun hlt j hmj hjn hj => ?_⟩
    · refine hrot.once hlive hc hp hqp fun j h₁ h₂ => ?_
      refine ((hsame j (Nat.le_of_lt h₁) h₂).urgent_iff q).mpr ⟨hq, fun r hr => ?_⟩
      rw [heq]
      exact hpm.2 r hr
    · have hurgent := ((hsame j (Nat.le_of_lt hmj) (Nat.le_of_lt hjn)).urgent_iff q).mp
        (hrot.mem hlive hmj (Nat.le_of_lt hjn) hj)
      exact Int32.not_le.mpr hlt (hurgent.2 p hpm.1)

/-! ## A run of yields -/

/-- The bare system on a run of yields. -/
def yields (alg : Int32) : Nat → Config := system bareImages alg bareMachine fun _ => yieldTrap

theorem yields_spec {alg : Int32} (halg : alg = 0 ∨ alg = 2) (n : Nat) : ∃ k cpu,
    yields alg n = .user (turnAfter^[n] 1) k cpu ∧ k.Level :=
  system_yields halg (fun _ => yieldTrap_yields) n

theorem yields_proc? {alg : Int32} (halg : alg = 0 ∨ alg = 2) (n : Nat) :
    (yields alg n).proc? = some (turnAfter^[n] 1) := by
  obtain ⟨k, cpu, hn, -⟩ := yields_spec halg n
  rw [hn]
  rfl

theorem yields_consecutive {alg : Int32} (halg : alg = 0 ∨ alg = 2) :
    Consecutive (yields alg) 1 0 4 where
  lt := by decide
  left := yields_proc? halg 0
  right := yields_proc? halg 4
  between j h₁ h₂ := by
    rw [yields_proc? halg j]
    have hturn : ∀ j, j < 4 → 0 < j → turnAfter^[j] 1 ≠ 1 := by decide
    exact fun he => hturn j h₂ h₁ (Option.some.inj he)

theorem roundRobin_fair_yields :
    ∃! j, 0 < j ∧ j < 4 ∧ (yields 0 j).proc? = some 3 := by
  refine ((roundRobin_fair bareImages bareMachine fun _ => yieldTrap).2 0 4 1
    (yields_consecutive (Or.inl rfl))).1 3 (by decide) fun j _ _ => ?_
  obtain ⟨k, cpu, hj, hlevel⟩ := yields_spec (Or.inl rfl) j
  show (yields 0 j).machine.Runnable 3
  rw [hj]
  exact (hlevel.runnable 3).mpr (by decide)

theorem priority_fair_yields :
    ∃! j, 0 < j ∧ j < 4 ∧ (yields 2 j).proc? = some 3 := by
  have hlevel : ∀ j, (yields 2 j).machine.Level := by
    intro j
    obtain ⟨k, cpu, hj, hlevel⟩ := yields_spec (Or.inr rfl) j
    rw [hj]
    exact hlevel
  refine ((priority_fair bareImages bareMachine fun _ => yieldTrap).2 0 4 1
    (yields_consecutive (Or.inr rfl)) (fun j _ _ => ⟨fun i => ?_, fun i => ?_⟩) 3 (by decide)
    (((hlevel 0).runnable 3).mpr (by decide))).1 ?_
  · exact ((hlevel j).runnable i).trans ((hlevel 0).runnable i).symm
  · exact ((hlevel j).pPriority i).trans ((hlevel 0).pPriority i).symm
  · exact ((hlevel 0).pPriority 3).trans ((hlevel 0).pPriority 1).symm

end SchedOS
