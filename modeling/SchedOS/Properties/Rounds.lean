import SchedOS.App.Program
import SchedOS.Infra.Rota

/-!
# The order in which the applications print

Without clock interrupts an application keeps the processor until its next system call: three
calls to set itself up, one `sys_yield` after each print, and `sys_exit`. Between two calls it
prints once or not at all, so that all there is to the order of the output is a rota
(`Infra.Rota`) in which every process has `RUNCOUNT + 4` turns (`applicationsRota`).

* `reaches_transcript` — under algorithms 0, 1 and 2 the rota ends, and what has been put out by
  then is `transcript`
-/

namespace SchedOS

open Infra

/-! ## Who is chosen -/

/-- Those among whom `schedule` goes on to the next one, given who is runnable and with which
priorities: all, the one of lowest pid, or those of smallest priority. -/
def candidate (scheduling_algorithm : Int32) (runnable : Pid → Prop) (priority : Pid → Int32)
    (q : Pid) : Prop :=
  if scheduling_algorithm = 0 then runnable q
  else if scheduling_algorithm = 1 then runnable q ∧ ∀ r, r < q → ¬ runnable r
  else runnable q ∧ ∀ r, runnable r → priority q ≤ priority r

/-- A process is runnable until it has entered the kernel `RUNCOUNT + 4` times. -/
def Alive (runcount : Nat) (turns : Pid → Nat) (q : Pid) : Prop := q ≠ 0 ∧ turns q < runcount + 4

/-- The priority counts from the first system call on. -/
def priorityAt (priority : Pid → Int32) (turns : Pid → Nat) (q : Pid) : Int32 :=
  if turns q = 0 then 0 else priority q

/-- The rota of the applications. A turn is what a process does from one system call to the
next, and it puts out the process if that prints. -/
def applicationsRota (scheduling_algorithm : Int32) (runcount : Nat) (priority : Pid → Int32) :
    Rota nprocs Pid where
  Candidate turns :=
    candidate scheduling_algorithm (Alive runcount turns) (priorityAt priority turns)
  output p s := if 3 ≤ s ∧ s < runcount + 3 then [p] else []

/-- Who prints, in order. -/
def transcript (scheduling_algorithm : Int32) (runcount : Nat) : List Pid :=
  if scheduling_algorithm = 0 then (List.replicate runcount [1, 2, 3, 4]).flatten
  else if scheduling_algorithm = 1 then
    List.replicate runcount 1 ++ List.replicate runcount 2 ++ List.replicate runcount 3
      ++ List.replicate runcount 4
  else
    (List.replicate runcount [1, 3]).flatten ++ List.replicate runcount 2
      ++ List.replicate runcount 4

section Candidate

variable {alg : Int32} {runnable : Pid → Prop} {priority : Pid → Int32} {q : Pid}

@[simp] theorem candidate_roundRobin : candidate 0 runnable priority q ↔ runnable q := Iff.rfl

@[simp] theorem candidate_lowestPid : candidate 1 runnable priority q ↔
    runnable q ∧ ∀ r, r < q → ¬ runnable r := Iff.rfl

@[simp] theorem candidate_priority : candidate 2 runnable priority q ↔
    runnable q ∧ ∀ r, runnable r → priority q ≤ priority r := Iff.rfl

theorem candidate_runnable (h : candidate alg runnable priority q) : runnable q := by
  unfold candidate at h
  split at h
  · exact h
  split at h
  · exact h.1
  · exact h.1

end Candidate

/-! ## Rounds of the applications -/

section Orderly

variable {runcount s : Nat} {priority : Pid → Int32} {base : Pid → Nat} {l : List Pid} {v : Int32}

theorem alive_of_candidate {alg : Int32} {turns : Pid → Nat} {q : Pid}
    (h : (applicationsRota alg runcount priority).Candidate turns q) : Alive runcount turns q :=
  candidate_runnable h

theorem mem_four {q : Pid} : q ∈ ([1, 2, 3, 4] : List Pid) ↔ q ≠ 0 := by
  revert q
  decide

/-- Algorithm 0: all four go round until the end. -/
theorem orderly_roundRobin (hs : s < runcount + 4) :
    (applicationsRota 0 runcount priority).Orderly base [1, 2, 3, 4] s where
  next _ _ _ hq hturns := ⟨mem_four.mp hq, by rwa [hturns]⟩
  only _ _ _ _ _ _ hx := mem_four.mpr (alive_of_candidate hx).1

/-- Algorithm 1: a process goes round alone when all of lower pid have exited. -/
theorem orderly_lowestPid {p : Pid} (hp : p ≠ 0) (hs : s < runcount + 4)
    (hlow : ∀ x, x < p → x ≠ 0 → base x = runcount + 4) :
    (applicationsRota 1 runcount priority).Orderly base [p] s := by
  have hdead : ∀ turns, Rota.MidRound base [p] s turns → ∀ x, x < p →
      ¬ Alive runcount turns x := by
    intro turns hmid x hx halive
    have hbase := hmid.not_mem x (by simpa using ne_of_lt hx)
    rw [hlow x hx halive.1] at hbase
    exact Nat.lt_irrefl _ (hbase ▸ halive.2)
  constructor
  · intro turns q hmid hq hturns
    obtain rfl := List.mem_singleton.mp hq
    exact ⟨⟨hp, by rwa [hturns]⟩, hdead turns hmid⟩
  · intro turns q hmid hq hturns x hx
    obtain rfl := List.mem_singleton.mp hq
    rw [List.mem_singleton]
    rcases lt_trichotomy x q with hlt | heq | hgt
    · exact absurd hx.1 (hdead turns hmid x hlt)
    · exact heq
    · exact absurd ⟨hp, by rwa [hturns]⟩ (hx.2 q hgt)

/-- Algorithm 2: before they have set their priorities, those with the priority 0 go round … -/
theorem orderly_unset (hpriority : ∀ q, q ≠ 0 → 0 ≤ priority q) :
    (applicationsRota 2 runcount priority).Orderly base [1, 2, 3, 4] 0 where
  next turns q _ hq hturns := by
    refine ⟨⟨mem_four.mp hq, by omega⟩, fun x hx => ?_⟩
    unfold priorityAt
    rw [if_pos hturns]
    split
    · exact Int32.le_refl _
    · exact hpriority x hx.1
  only _ _ _ _ _ _ hx := mem_four.mpr (alive_of_candidate hx).1

/-- … and then those of smallest priority. -/
theorem orderly_priority (hs : 1 ≤ s ∧ s < runcount + 4)
    (hl : ∀ q ∈ l, q ≠ 0 ∧ priority q = v)
    (hbase : ∀ x, x ∉ l → x ≠ 0 → base x < runcount + 4 → base x ≠ 0 ∧ v < priority x) :
    (applicationsRota 2 runcount priority).Orderly base l s := by
  have hmem : ∀ turns, Rota.MidRound base l s turns → ∀ q ∈ l, priorityAt priority turns q = v := by
    intro turns hmid q hq
    have hne : turns q ≠ 0 := by
      rcases hmid.mem q hq with h | h <;> omega
    rw [priorityAt, if_neg hne, (hl q hq).2]
  have hout : ∀ turns, Rota.MidRound base l s turns → ∀ x, x ∉ l → Alive runcount turns x →
      v < priorityAt priority turns x := by
    intro turns hmid x hx halive
    have hturns := hmid.not_mem x hx
    obtain ⟨hne, hlt⟩ := hbase x hx halive.1 (hturns ▸ halive.2)
    rw [priorityAt, if_neg (hturns ▸ hne)]
    exact hlt
  have halive : ∀ turns q, q ∈ l → turns q = s → Alive runcount turns q := fun turns q hq hturns =>
    ⟨(hl q hq).1, by rw [hturns]; exact hs.2⟩
  constructor
  · intro turns q hmid hq hturns
    refine ⟨halive turns q hq hturns, fun x hx => ?_⟩
    rw [hmem turns hmid q hq]
    by_cases hxl : x ∈ l
    · rw [hmem turns hmid x hxl]
      exact Int32.le_refl _
    · exact Int32.le_of_lt (hout turns hmid x hxl hx)
  · intro turns q hmid hq hturns x hx
    by_contra hxl
    have hle := hx.2 q (halive turns q hq hturns)
    rw [hmem turns hmid q hq] at hle
    exact Int32.not_le.mpr (hout turns hmid x hxl hx.1) hle

end Orderly

/-! ## The whole run -/

/-- How many turns the four processes have had. -/
def turnCounts (a b c d : Nat) : Pid → Nat := ![0, a, b, c, d]

theorem during_turnCounts {a b c d s : Nat} {l : List Pid} (h : 0 ∉ l) :
    during (turnCounts a b c d) s [] l
      = turnCounts (if 1 ∈ l then s else a) (if 2 ∈ l then s else b) (if 3 ∈ l then s else c)
        (if 4 ∈ l then s else d) := by
  funext q
  fin_cases q
  · exact during_of_not_mem h
  all_goals
    simp only [during, List.not_mem_nil, if_false]
    rfl

/-- When all have exited there is nobody to choose. -/
theorem chooses_none {alg : Int32} {runcount : Nat} {priority : Pid → Int32} {p : Pid} :
    Chooses ((applicationsRota alg runcount priority).Candidate
      (turnCounts (runcount + 4) (runcount + 4) (runcount + 4) (runcount + 4))) p none := by
  refine .none fun q hq => ?_
  obtain ⟨hne, hlt⟩ := alive_of_candidate hq
  fin_cases q
  · exact hne rfl
  all_goals exact Nat.lt_irrefl _ hlt

/-- Up to `sys_exit` each process of the list prints once in every round but the first three and
the last. -/
theorem outputs_applications {alg : Int32} {runcount : Nat} {priority : Pid → Int32}
    {l : List Pid} {a : Nat} (ha : a ≤ 3) :
    (applicationsRota alg runcount priority).outputs l a (runcount + 4 - a)
      = (List.replicate runcount l).flatten := by
  have hsplit : runcount + 4 - a = (3 - a) + (runcount + 1) := by omega
  have hsetup : (applicationsRota alg runcount priority).outputs l a (3 - a) = [] := by
    refine Rota.outputs_eq_nil fun s _ hs p _ => if_neg ?_
    omega
  have hexit : (applicationsRota alg runcount priority).outputs l (3 + runcount) 1 = [] := by
    refine Rota.outputs_eq_nil fun s hs _ p _ => if_neg ?_
    omega
  have hprint : (applicationsRota alg runcount priority).outputs l 3 runcount
      = (List.replicate runcount l).flatten := by
    refine Rota.outputs_names fun s hs hs' p _ => if_pos ?_
    omega
  rw [hsplit, Rota.outputs_add, hsetup, List.nil_append, show a + (3 - a) = 3 by omega,
    Rota.outputs_add, hprint, hexit, List.append_nil]

theorem forall_pid {P : Pid → Prop} : (∀ x, P x) ↔ P 0 ∧ P 1 ∧ P 2 ∧ P 3 ∧ P 4 := by
  simp [Fin.forall_fin_succ]

/-- The processes of `l` are all about to have their turn number `a`, before the loop, and they
go round until they have exited. -/
structure Cohort (scheduling_algorithm : Int32) (runcount : Nat) (priority : Pid → Int32)
    (turns : Pid → Nat) (l : List Pid) (a : Nat) : Prop where
  sorted : l.Pairwise (· < ·)
  le : a ≤ 3
  starts : ∀ q ∈ l, turns q = a
  orderly : ∀ s, a ≤ s → s < runcount + 4 →
    (applicationsRota scheduling_algorithm runcount priority).Orderly turns l s

section Cohort

variable {alg : Int32} {runcount : Nat} {priority : Pid → Int32} {turns turns' : Pid → Nat}
  {head z : Pid} {tail : List Pid} {a : Nat} {o : Option Pid}
  (h : Cohort alg runcount priority turns (head :: tail) a)
include h

/-- A cohort begins with its head … -/
theorem Cohort.chooses (hz : (∀ q ∈ head :: tail, q ≤ z) ∨ ∀ q ∈ head :: tail, z < q) :
    Chooses ((applicationsRota alg runcount priority).Candidate turns) z (some head) := by
  have hle := h.le
  have hchooses := (h.orderly a (Nat.le_refl a) (by omega)).chooses h.sorted hz
  rwa [during_eq_base h.starts] at hchooses

/-- … and its processes print `RUNCOUNT` times each, in rounds. -/
theorem Cohort.reaches (log : List Pid)
    (hend : during turns (runcount + 4) [] (head :: tail) = turns')
    (ho : Chooses ((applicationsRota alg runcount priority).Candidate turns')
      ((head :: tail).getLast (List.cons_ne_nil _ _)) o) :
    (applicationsRota alg runcount priority).Reaches ⟨turns, some head, log⟩
      ⟨turns', o, log ++ (List.replicate runcount (head :: tail)).flatten⟩ := by
  have hle := h.le
  subst hend
  have hrounds := Rota.rounds_upto log h.sorted (by omega) h.orderly ho
  rwa [during_eq_base h.starts, outputs_applications h.le] at hrounds

end Cohort

section Run

variable (runcount : Nat) {priority : Pid → Int32}

theorem reaches_roundRobin : (applicationsRota 0 runcount priority).Reaches
    ⟨turnCounts 0 0 0 0, some 1, []⟩
    ⟨turnCounts (runcount + 4) (runcount + 4) (runcount + 4) (runcount + 4), none,
      transcript 0 runcount⟩ := by
  have hcohort : Cohort 0 runcount priority (turnCounts 0 0 0 0) [1, 2, 3, 4] 0 :=
    ⟨by decide, by decide, by decide, fun _ _ hs => orderly_roundRobin hs⟩
  exact hcohort.reaches [] (by simp [during_turnCounts]) chooses_none

/-- Under algorithm 1 each process is a cohort of its own. -/
theorem cohort_lowestPid {turns : Pid → Nat} {p : Pid} (hp : p ≠ 0) (hturns : turns p = 0)
    (hlow : ∀ x, x < p → x ≠ 0 → turns x = runcount + 4) :
    Cohort 1 runcount priority turns [p] 0 where
  sorted := List.pairwise_singleton _ p
  le := Nat.zero_le 3
  starts := by simpa using hturns
  orderly _ _ hs := orderly_lowestPid hp hs hlow

theorem reaches_lowestPid : (applicationsRota 1 runcount priority).Reaches
    ⟨turnCounts 0 0 0 0, some 1, []⟩
    ⟨turnCounts (runcount + 4) (runcount + 4) (runcount + 4) (runcount + 4), none,
      transcript 1 runcount⟩ := by
  have h₁ : Cohort 1 runcount priority (turnCounts 0 0 0 0) [1] 0 :=
    cohort_lowestPid runcount (by decide) rfl (by simp)
  have h₂ : Cohort 1 runcount priority (turnCounts (runcount + 4) 0 0 0) [2] 0 :=
    cohort_lowestPid runcount (by decide) rfl (by simp [forall_pid, turnCounts])
  have h₃ : Cohort 1 runcount priority (turnCounts (runcount + 4) (runcount + 4) 0 0) [3] 0 :=
    cohort_lowestPid runcount (by decide) rfl (by simp [forall_pid, turnCounts])
  have h₄ : Cohort 1 runcount priority
      (turnCounts (runcount + 4) (runcount + 4) (runcount + 4) 0) [4] 0 :=
    cohort_lowestPid runcount (by decide) rfl (by simp [forall_pid, turnCounts])
  have hr₁ := h₁.reaches [] (by simp [during_turnCounts]) (h₂.chooses (Or.inr (by decide)))
  have hr₂ := h₂.reaches (List.replicate runcount 1) (by simp [during_turnCounts])
    (h₃.chooses (Or.inr (by decide)))
  have hr₃ := h₃.reaches (List.replicate runcount 1 ++ List.replicate runcount 2)
    (by simp [during_turnCounts]) (h₄.chooses (Or.inr (by decide)))
  have hr₄ := h₄.reaches
    (List.replicate runcount 1 ++ List.replicate runcount 2 ++ List.replicate runcount 3)
    (by simp [during_turnCounts]) chooses_none
  simp only [List.nil_append, List.flatten_replicate_singleton] at hr₁ hr₂ hr₃ hr₄
  exact ((hr₁.trans hr₂).trans hr₃).trans hr₄

/-- Under algorithm 2 the processes of one priority are a cohort, once that is set. -/
theorem cohort_priority {turns : Pid → Nat} {l : List Pid} {v : Int32} (hl : l.Pairwise (· < ·))
    (hmem : ∀ q ∈ l, turns q = 1 ∧ q ≠ 0 ∧ priority q = v)
    (hothers : ∀ x, x ∉ l → x ≠ 0 → turns x < runcount + 4 → turns x ≠ 0 ∧ v < priority x) :
    Cohort 2 runcount priority turns l 1 where
  sorted := hl
  le := by decide
  starts q hq := (hmem q hq).1
  orderly _ h₁ hs := orderly_priority ⟨h₁, hs⟩ (fun q hq => (hmem q hq).2) hothers

variable (hpriority : ∀ q, q ≠ 0 → priority q = (shippedDefines q).priority)
include hpriority

/-- In the first round of algorithm 2 everybody sets its priority. -/
theorem reaches_setPriority (ho : Chooses ((applicationsRota 2 runcount priority).Candidate
      (turnCounts 1 1 1 1)) 4 (some 1)) :
    (applicationsRota 2 runcount priority).Reaches ⟨turnCounts 0 0 0 0, some 1, []⟩
      ⟨turnCounts 1 1 1 1, some 1, []⟩ := by
  have hnonneg : ∀ q, q ≠ 0 → 0 ≤ priority q := by
    intro q hq
    rw [hpriority q hq]
    revert q
    decide
  have horderly : ∀ s, 0 ≤ s → s < 1 → (applicationsRota 2 runcount priority).Orderly
      (turnCounts 0 0 0 0) [1, 2, 3, 4] s := by
    intro s _ hs
    obtain rfl : s = 0 := by omega
    exact orderly_unset hnonneg
  have hone : during (turnCounts 0 0 0 0) 1 [] [1, 2, 3, 4] = turnCounts 1 1 1 1 := by
    simp [during_turnCounts]
  have hzero : during (turnCounts 0 0 0 0) 0 [] [1, 2, 3, 4] = turnCounts 0 0 0 0 := by
    simp [during_turnCounts]
  have hsilent : (applicationsRota 2 runcount priority).outputs [1, 2, 3, 4] 0 (1 - 0) = [] :=
    Rota.outputs_eq_nil fun s _ hs p _ => if_neg (by omega)
  rw [← hone] at ho
  have hround := Rota.rounds_upto [] (by decide) Nat.zero_lt_one horderly ho
  rwa [hone, hzero, hsilent, List.append_nil] at hround

theorem reaches_priority : (applicationsRota 2 runcount priority).Reaches
    ⟨turnCounts 0 0 0 0, some 1, []⟩
    ⟨turnCounts (runcount + 4) (runcount + 4) (runcount + 4) (runcount + 4), none,
      transcript 2 runcount⟩ := by
  have hp₁ : priority 1 = 1 := hpriority 1 (by decide)
  have hp₂ : priority 2 = 2 := hpriority 2 (by decide)
  have hp₃ : priority 3 = 1 := hpriority 3 (by decide)
  have hp₄ : priority 4 = 4 := hpriority 4 (by decide)
  have h₁ : Cohort 2 runcount priority (turnCounts 1 1 1 1) [1, 3] 1 :=
    cohort_priority runcount (v := 1) (by decide) (by simp [turnCounts, hp₁, hp₃])
      (by simp [forall_pid, turnCounts, hp₂, hp₄])
  have h₂ : Cohort 2 runcount priority (turnCounts (runcount + 4) 1 (runcount + 4) 1) [2] 1 :=
    cohort_priority runcount (v := 2) (by decide) (by simp [turnCounts, hp₂])
      (by simp [forall_pid, turnCounts, hp₄])
  have h₃ : Cohort 2 runcount priority
      (turnCounts (runcount + 4) (runcount + 4) (runcount + 4) 1) [4] 1 :=
    cohort_priority runcount (v := 4) (by decide) (by simp [turnCounts, hp₄])
      (by simp [forall_pid, turnCounts])
  have hr₀ := reaches_setPriority runcount hpriority (h₁.chooses (Or.inl (by decide)))
  have hr₁ := h₁.reaches [] (by simp [during_turnCounts]) (h₂.chooses (Or.inl (by decide)))
  have hr₂ := h₂.reaches (List.replicate runcount [1, 3]).flatten (by simp [during_turnCounts])
    (h₃.chooses (Or.inr (by decide)))
  have hr₃ := h₃.reaches
    ((List.replicate runcount [1, 3]).flatten ++ List.replicate runcount 2)
    (by simp [during_turnCounts]) chooses_none
  simp only [List.nil_append, List.flatten_replicate_singleton] at hr₁ hr₂ hr₃
  exact ((hr₀.trans hr₁).trans hr₂).trans hr₃

/-- **The rota ends, with the transcript as its output.** -/
theorem reaches_transcript {alg : Int32} (halg : alg = 0 ∨ alg = 1 ∨ alg = 2) :
    (applicationsRota alg runcount priority).Reaches ⟨fun _ => 0, some 1, []⟩
      ⟨turnCounts (runcount + 4) (runcount + 4) (runcount + 4) (runcount + 4), none,
        transcript alg runcount⟩ := by
  have hzero : (fun _ => 0) = turnCounts 0 0 0 0 := by
    funext q
    revert q
    decide
  rw [hzero]
  rcases halg with rfl | rfl | rfl
  · exact reaches_roundRobin runcount
  · exact reaches_lowestPid runcount
  · exact reaches_priority runcount hpriority

end Run

end SchedOS
