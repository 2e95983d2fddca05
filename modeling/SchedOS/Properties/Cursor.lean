import SchedOS.Properties.Fairness
import SchedOS.Properties.Screen

/-!
# The cursor of the kernel

`console_putc` goes back to the first cell when it finds the cursor behind the last one.
`INT_SYS_ATOMIC_PRINT` is another writer of `cursorpos`, and only increments it.

* `stays_on_console_iff` — so the kernel stays on the console for as long as it has printed no more
  than 2000 characters
-/

namespace SchedOS

open Infra

/-! ## What the kernel prints -/

/-- The interrupt `t` makes the kernel print a character. -/
def Config.prints (t : Trap) : Config → Bool
  | .user .. => t.reg.regIntno = intSysAtomicPrint
  | .spinning _ => false

/-- Where `*cursorpos++` stores to. -/
def Trap.cell (t : Trap) : UInt32 := readU32 t.ram cursorposAddr

section Count

variable (ramimages : Fin 4 → Ramimage) (alg : Int32) (k₀ : Machine) (traps : Nat → Trap)

/-- The number of characters that the kernel has printed by the first `n` interrupts. -/
def printCount : Nat → Nat
  | 0 => 0
  | n + 1 =>
    printCount n + if (system ramimages alg k₀ traps n).prints (traps n) then 1 else 0

/-- For the first `N` interrupts the kernel stores characters only to cells of the console, and
the cursor is on the console all the time. -/
structure StaysOnConsole (N : Nat) : Prop where
  stores : ∀ n, n < N → (system ramimages alg k₀ traps n).prints (traps n) = true →
    ∃ i, i < 2000 ∧ (traps n).cell = cellAddr i
  cursorpos : ∀ n, n ≤ N → ∃ i, i ≤ 2000 ∧
    (system ramimages alg k₀ traps n).machine.cursorpos = cellAddr i

end Count

/-! ## One interrupt -/

section Step

variable {t : Trap} {p : Pid} {k : Machine} {cpu : Registers}

theorem cellAddr_inj {i j : Nat} (hi : i ≤ 2000) (hj : j ≤ 2000) (h : cellAddr i = cellAddr j) :
    i = j := by
  have hnat := congrArg UInt32.toNat h
  rw [cellAddr_toNat hi, cellAddr_toNat hj] at hnat
  omega

/-- What `INT_SYS_ATOMIC_PRINT` does to the memory. -/
theorem Trap.call_ram_print (h : t.reg.regIntno = intSysAtomicPrint) : (t.call k).ram
    = writeU32 (writeU16 t.ram t.cell t.reg.regEax.toUInt8.toInt8.toInt16.toUInt16) cursorposAddr
        (t.cell + 2) :=
  if_pos h

theorem Trap.call_cursorpos {n : Nat} (hcell : t.cell = cellAddr n) : (t.call k).cursorpos
    = cellAddr (n + if t.reg.regIntno = intSysAtomicPrint then 1 else 0) := by
  rw [Machine.cursorpos]
  by_cases h : t.reg.regIntno = intSysAtomicPrint
  · rw [Trap.call_ram_print h, readU32_writeU32, hcell, if_pos h, cellAddr_succ]
  · rw [Trap.call_ram h, if_neg h]
    exact hcell

/-- The message for an unknown algorithm goes through `console_putc`. -/
theorem unknownAlgorithm_cursorpos {i : Nat} (hi : i ≤ 2000) (h : k.cursorpos = cellAddr i) :
    ∃ j, j ≤ 2000 ∧ (unknownAlgorithm k).cursorpos = cellAddr j := by
  have h0 : 0 ∉ literal "\nUnknown scheduling algorithm %d\n" := by decide +kernel
  unfold unknownAlgorithm consolePrintf
  rw [h, vprintf_eq _ _ h0]
  obtain ⟨j, hj, hcursor⟩ := (printAll_onScreen hi k.ram (output (fun _ => [])
    (pieces (literal "\nUnknown scheduling algorithm %d\n"))
    (fun _ => k.schedulingAlgorithm.toUInt32) 0x100)).cursor
  refine ⟨j, hj, ?_⟩
  rw [← hcursor]
  exact readU32_writeU32 ..

/-- The cursor of a process that runs counts the characters. A kernel that spins may have printed
its message; it does not leave the console if the characters have not. -/
def Config.CursorAt (n : Nat) : Config → Prop
  | .user _ k _ => k.cursorpos = cellAddr n
  | .spinning k => n ≤ 2000 → ∃ i, i ≤ 2000 ∧ k.cursorpos = cellAddr i

theorem RunsFrom.cursorAt {n : Nat} {c : Config} (h : k.cursorpos = cellAddr n)
    (hc : RunsFrom k c) : c.CursorAt n := by
  obtain ⟨q, k', rfl, -, -, hram⟩ := hc
  show readU32 k'.ram cursorposAddr = _
  rw [hram]
  exact h

theorem cursorAt_spinning {n : Nat} (h : k.cursorpos = cellAddr n) :
    (Config.spinning k).CursorAt n :=
  fun hn => ⟨n, hn, h⟩

theorem schedule_cursorAt {fuel : Nat} {tsc : Nat → UInt64} {n : Nat} {c : Config}
    (h : k.cursorpos = cellAddr n) (hs : schedule fuel tsc k = .error c) : c.CursorAt n := by
  by_cases hknown : KnownAlgorithm k.schedulingAlgorithm
  · rcases schedule_spec hs with hc | ⟨k', rfl, -, hram⟩
    · exact hc.cursorAt h
    · refine cursorAt_spinning ?_
      rw [Machine.cursorpos, hram hknown]
      exact h
  · have h3 : k.schedulingAlgorithm ≠ 3 :=
      fun h3 => hknown (Or.inr (Or.inr (Or.inr (Or.inl h3))))
    rcases schedule_const_spec h3 hs with hc | rfl | ⟨-, rfl⟩
    · exact hc.runsFrom.cursorAt h
    · exact cursorAt_spinning h
    · exact fun hn => unknownAlgorithm_cursorpos hn h

/-- **One interrupt** moves the cursor by the character that it prints. -/
theorem Config.CursorAt.trap {n : Nat} {c : Config} (h : c.CursorAt n)
    (hkeep : ∀ p k cpu, c = .user p k cpu → t.cell = k.cursorpos) :
    (c.trap t).CursorAt (n + if c.prints t then 1 else 0) := by
  cases c with
  | spinning k => exact h
  | user p k cpu =>
    have hcell : t.cell = cellAddr n := (hkeep p k cpu rfl).trans h
    have hcall := Trap.call_cursorpos (k := k) hcell
    simp only [Config.prints, decide_eq_true_eq]
    rcases trap_cases t p k cpu with hs | hs
    · exact schedule_cursorAt hcall hs
    · rw [hs]
      exact cursorAt_spinning hcall

end Step

/-! ## Whole runs -/

section Runs

variable {ramimages : Fin 4 → Ramimage} {alg : Int32} {k₀ : Machine} {traps : Nat → Trap}

theorem printCount_succ (n : Nat) : printCount ramimages alg k₀ traps (n + 1)
    = printCount ramimages alg k₀ traps n
      + if (system ramimages alg k₀ traps n).prints (traps n) then 1 else 0 := rfl

theorem printCount_mono {m n : Nat} (h : m ≤ n) :
    printCount ramimages alg k₀ traps m ≤ printCount ramimages alg k₀ traps n := by
  induction h with
  | refl => exact Nat.le_refl _
  | step _ ih => exact Nat.le_trans ih (Nat.le_add_right _ _)

/-- Every number of characters is passed on the way to a larger one, by printing. -/
theorem exists_printCount_eq {c : Nat} : ∀ {N : Nat}, c < printCount ramimages alg k₀ traps N →
    ∃ n, n < N ∧ printCount ramimages alg k₀ traps n = c ∧
      (system ramimages alg k₀ traps n).prints (traps n) = true
  | 0, h => absurd h (Nat.not_lt_zero c)
  | N + 1, h => by
    by_cases hlt : c < printCount ramimages alg k₀ traps N
    · obtain ⟨n, hn, hcount, hprints⟩ := exists_printCount_eq hlt
      exact ⟨n, Nat.lt_succ_of_lt hn, hcount, hprints⟩
    · rw [printCount_succ] at h
      by_cases hprints : (system ramimages alg k₀ traps N).prints (traps N) = true
      · rw [if_pos hprints] at h
        exact ⟨N, Nat.lt_succ_self N, by omega, hprints⟩
      · rw [if_neg hprints] at h
        exact absurd h hlt

variable (hboot : (start ramimages alg k₀).proc? ≠ none)
  (hkeep : ∀ n p k cpu, system ramimages alg k₀ traps n = .user p k cpu →
    (traps n).cell = k.cursorpos)
include hboot hkeep

/-- **The cursor counts the characters** that the kernel has printed. -/
theorem system_cursorAt (n : Nat) :
    (system ramimages alg k₀ traps n).CursorAt (printCount ramimages alg k₀ traps n) := by
  induction n with
  | zero =>
    obtain ⟨k, hk, hb⟩ := start_booted hboot
    rw [system_zero, hk]
    exact hb.cursorpos
  | succ n ih => exact ih.trap (hkeep n)

/-- The cell of a character that is printed. -/
theorem system_cell {n : Nat}
    (hprints : (system ramimages alg k₀ traps n).prints (traps n) = true) :
    (traps n).cell = cellAddr (printCount ramimages alg k₀ traps n) := by
  have hcursor := system_cursorAt hboot hkeep n
  cases hc : system ramimages alg k₀ traps n with
  | spinning k =>
    rw [hc] at hprints
    cases hprints
  | user p k cpu =>
    rw [hc] at hcursor
    exact (hkeep n p k cpu hc).trans hcursor

/-- The character after the first 2000 goes behind the console. -/
theorem StaysOnConsole.printCount_le {N : Nat} (h : StaysOnConsole ramimages alg k₀ traps N) :
    printCount ramimages alg k₀ traps N ≤ 2000 := by
  by_contra hlt
  obtain ⟨n, hn, hcount, hprints⟩ := exists_printCount_eq (Nat.lt_of_not_le hlt)
  obtain ⟨i, hi, hcell⟩ := h.stores n hn hprints
  rw [system_cell hboot hkeep hprints, hcount] at hcell
  have heq := cellAddr_inj (Nat.le_refl 2000) (Nat.le_of_lt hi) hcell
  omega

theorem staysOnConsole_of_printCount_le {N : Nat}
    (h : printCount ramimages alg k₀ traps N ≤ 2000) :
    StaysOnConsole ramimages alg k₀ traps N where
  stores n hn hprints := by
    have hle : printCount ramimages alg k₀ traps (n + 1) ≤ printCount ramimages alg k₀ traps N :=
      printCount_mono (Nat.succ_le_of_lt hn)
    rw [printCount_succ, if_pos hprints] at hle
    exact ⟨_, by omega, system_cell hboot hkeep hprints⟩
  cursorpos n hn := by
    have hle : printCount ramimages alg k₀ traps n ≤ 2000 := Nat.le_trans (printCount_mono hn) h
    have hcursor := system_cursorAt hboot hkeep n
    cases hc : system ramimages alg k₀ traps n with
    | spinning k =>
      rw [hc] at hcursor
      exact hcursor hle
    | user p k cpu =>
      rw [hc] at hcursor
      exact ⟨_, hle, hcursor⟩

end Runs

/-- **When the kernel stays on the console**, in every run in which only the kernel moves the
cursor. -/
theorem stays_on_console_iff (ramimages : Fin 4 → Ramimage) (alg : Int32) (k₀ : Machine)
    (traps : Nat → Trap) (hboot : (start ramimages alg k₀).proc? ≠ none)
    (hkeep : ∀ n p k cpu, system ramimages alg k₀ traps n = .user p k cpu →
      (traps n).cell = k.cursorpos) (N : Nat) :
    StaysOnConsole ramimages alg k₀ traps N ↔ printCount ramimages alg k₀ traps N ≤ 2000 := by
  constructor
  · exact StaysOnConsole.printCount_le hboot hkeep
  · exact staysOnConsole_of_printCount_le hboot hkeep

/-! ## A run of prints -/

/-- The process that runs, if any, calls `sys_atomic_print('1')`. -/
def Config.printTrap (c : Config) : Trap where
  reg := { Registers.zero with regIntno := intSysAtomicPrint, regEax := 0x31 }
  ram := c.machine.ram
  tsc _ := 0
  fuel := nprocs

/-- The bare system when its processes do nothing else. -/
def printing : Nat → Config
  | 0 => start bareImages 0 bareMachine
  | n + 1 => (printing n).trap (printing n).printTrap

def printingTraps (n : Nat) : Trap := (printing n).printTrap

theorem system_printing : ∀ n, system bareImages 0 bareMachine printingTraps n = printing n
  | 0 => by rw [system_zero, printing]
  | n + 1 => by
    rw [system_succ, system_printing n]
    rfl

theorem printing_user : ∀ n, ∃ p k cpu, printing n = .user p k cpu ∧ ∀ i, k.Runnable i ↔ i ≠ 0
  | 0 => by
    obtain ⟨entry, ram, h₀⟩ := start_bare 0
    exact ⟨_, _, _, h₀, fun i => bootTable_pState⟩
  | n + 1 => by
    obtain ⟨p, k, cpu, hn, hall⟩ := printing_user n
    have hr : Running 0 p k cpu := system_running ((system_printing n).trans hn)
    obtain ⟨t, ht⟩ : ∃ t, (printing n).printTrap = t := ⟨_, rfl⟩
    have hint : t.reg.regIntno = intSysAtomicPrint := by
      rw [← ht]
      rfl
    have hserved : Served t.reg.regIntno := by
      rw [hint]
      decide
    have hcall : ∀ i, (t.call k).Runnable i ↔ i ≠ 0 := by
      intro i
      rw [Trap.call_runnable, hall, hint]
      exact and_iff_left fun h => absurd h.1 (by decide)
    have hfuel : nprocs ≤ t.fuel := by
      rw [← ht]
      exact Nat.le_refl _
    have hstep : printing (n + 1) = run (turnAfter p) (t.call k) := by
      rw [printing, ht, hn]
      exact trap_of_schedule hserved (schedule_roundRobin_run (hr.call_algorithm _)
        (hr.call_pPid _) (isNext_turnAfter hcall hr.ne_zero) hfuel)
    rw [hstep]
    exact ⟨_, _, _, rfl, hcall⟩

theorem printing_keep (n : Nat) (p : Pid) (k : Machine) (cpu : Registers)
    (h : system bareImages 0 bareMachine printingTraps n = .user p k cpu) :
    (printingTraps n).cell = k.cursorpos := by
  rw [system_printing] at h
  rw [printingTraps, h]
  rfl

theorem printing_printCount : ∀ n, printCount bareImages 0 bareMachine printingTraps n = n
  | 0 => rfl
  | n + 1 => by
    obtain ⟨p, k, cpu, hn, -⟩ := printing_user n
    rw [printCount_succ, printing_printCount n, system_printing, hn]
    rfl

theorem stays_on_console_printing : StaysOnConsole bareImages 0 bareMachine printingTraps 2000 :=
  (stays_on_console_iff bareImages 0 bareMachine printingTraps (bare_proc? 0) printing_keep
    2000).mpr (Nat.le_of_eq (printing_printCount 2000))

/-- **Character 2001** is stored behind the console. -/
theorem leaves_console_printing :
    (∀ n p k cpu, system bareImages 0 bareMachine printingTraps n = .user p k cpu →
      (printingTraps n).cell = k.cursorpos) ∧
    ¬ StaysOnConsole bareImages 0 bareMachine printingTraps 2001 := by
  refine ⟨printing_keep, fun h => ?_⟩
  have hle := h.printCount_le (bare_proc? 0) printing_keep
  rw [printing_printCount] at hle
  omega

end SchedOS
