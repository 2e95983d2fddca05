import SchedOS.Kern.Loader
import SchedOS.Kern.Process

/-!
# `start`

The kernel's entry point: it clears the screen, empties the process table, loads the four
applications and runs the first one. What `segments_init` and `interrupt_controller_init` set up
before that is no part of the `Machine`: see `Kern.Segments` and `Kern.InterruptController`, and
`Kern.Processor` for the machine with both.

`start_user` says what is known when `start` has got as far as running a process. The only
other end is `loader_panic`.
-/

namespace SchedOS

open Infra

/-- `PROC1_START`. -/
def proc1Start : UInt32 := 0x200000

/-- `PROC_SIZE`. -/
def procSize : UInt32 := 0x100000

/-- The first `n` rounds of the loop of `console_clear`: `cursorpos[i] = ' ' | 0x0700`. -/
def clearCells (ram : Mem) : Nat → Mem
  | 0 => ram
  | i + 1 =>
    let ram := clearCells ram i
    writeU16 ram (readU32 ram cursorposAddr + 2 * UInt32.ofNat i) (0x20 ||| 0x0700)

/-- `console_clear`, without its output to the cursor ports of the video card. -/
@[irreducible] def consoleClear (ram : Mem) : Mem :=
  clearCells (writeU32 ram cursorposAddr 0xB8000) (80 * 25)

/-- `memset` of the process table, and the loop that numbers its entries. -/
def Machine.initProcArray (k : Machine) : Machine :=
  { k with procArray := fun i => { Process.zero with pPid := i, pState := .pEmpty } }

/-- `special_registers_init`: the selectors of the application segments with privilege 3, and
`EFLAGS_IF`. -/
def specialRegistersInit (proc : Process) : Process :=
  { proc with
    pRegisters := { Registers.zero with
      regCs := 0x18 ||| 3, regDs := 0x20 ||| 3, regEs := 0x20 ||| 3, regSs := 0x20 ||| 3
      regEflags := 0x200 } }

/-- The body of the loop that sets up the process descriptors. -/
def startProcess (ramimages : Fin 4 → Ramimage) (k : Machine) (i : Pid) :
    Except Config Machine :=
  let stack_ptr := proc1Start + UInt32.ofNat i * procSize
  let k := k.setProc i fun proc =>
    let proc := specialRegistersInit proc
    { proc with pRegisters := { proc.pRegisters with regEsp := stack_ptr } }
  match programLoader ramimages (Int32.ofNat i - 1) k.ram with
  | .error ram => .error (.spinning { k with ram := ram })
  | .ok (ram, entry) =>
    .ok ({ k with ram := ram }.setProc i fun proc =>
      { proc with
        pRegisters := { proc.pRegisters with regEip := entry }
        pState := .pRunnable
        pNumTimes := 0 })

/-- `start()`, entered with arbitrary contents of the kernel's variables and the memory. The
source assigns 0 to `scheduling_algorithm`; here the value is a parameter. -/
def start (ramimages : Fin 4 → Ramimage) (scheduling_algorithm : Int32) (k : Machine) : Config :=
  let k := { k with ram := consoleClear k.ram }
  match [1, 2, 3, 4].foldlM (startProcess ramimages) k.initProcArray with
  | .error c => c
  | .ok k =>
    let k := { k with ram := writeU32 k.ram cursorposAddr 0xB8000 }
    run 1 { k with schedulingAlgorithm := scheduling_algorithm }

/-! ## The table that `start` builds -/

/-- The registers that `start` builds for process `i`. -/
def bootRegisters (i : Pid) (entry : UInt32) : Registers :=
  { Registers.zero with
    regCs := 0x1B, regDs := 0x23, regEs := 0x23, regSs := 0x23, regEflags := 0x200
    regEsp := 0x200000 + UInt32.ofNat i * 0x100000, regEip := entry }

/-- The descriptor that `start` builds for process `i`. -/
def bootProcess (i : Pid) (entry : UInt32) : Process :=
  { Process.zero with pPid := i, pRegisters := bootRegisters i entry, pState := .pRunnable }

/-- The table while `start` sets up its entries: those in `done` are complete. -/
def Booting (entry : Pid → UInt32) (done : List Pid) (k : Machine) : Prop :=
  ∀ i, k.procArray i =
    if i ∈ done then bootProcess i (entry i) else { Process.zero with pPid := i }

theorem startProcess_ok {ramimages : Fin 4 → Ramimage} {k k' : Machine} {i : Pid}
    {entry : Pid → UInt32} {done : List Pid} (hk : Booting entry done k) (hi : i ∉ done)
    (h : startProcess ramimages k i = .ok k') :
    ∃ e, Booting (Function.update entry i e) (i :: done) k' := by
  unfold startProcess at h
  simp only [Machine.setProc_ram] at h
  split at h
  · cases h
  · next ram e _ =>
    cases h
    refine ⟨e, fun j => ?_⟩
    by_cases hj : j = i
    · subst hj
      have hz := hk j
      rw [if_neg hi] at hz
      rw [if_pos List.mem_cons_self, Function.update_self, Machine.setProc_self]
      simp only [Machine.setProc_self, hz]
      rfl
    · rw [Machine.setProc_of_ne _ _ _ hj]
      simp only [Machine.setProc_of_ne _ _ _ hj, hk j, List.mem_cons, hj, false_or,
        Function.update_of_ne hj]

/-- `startProcess` touches nothing of the kernel but the entry and the memory. -/
theorem startProcess_spinning {ramimages : Fin 4 → Ramimage} {k : Machine} {i : Pid} {c : Config}
    (h : startProcess ramimages k i = .error c) : ∃ k', c = .spinning k' := by
  unfold startProcess at h
  dsimp only at h
  split at h
  · cases h
    exact ⟨_, rfl⟩
  · cases h

theorem foldlM_startProcess {ramimages : Fin 4 → Ramimage} :
    ∀ (todo : List Pid) {entry : Pid → UInt32} {done : List Pid} {k : Machine},
      Booting entry done k → todo.Nodup → (∀ i ∈ todo, i ∉ done) →
      (∃ k', todo.foldlM (startProcess ramimages) k = .error (.spinning k')) ∨
      ∃ k' entry', todo.foldlM (startProcess ramimages) k = .ok k' ∧
        Booting entry' (todo.reverse ++ done) k'
  | [], entry, _, k, hk, _, _ => Or.inr ⟨k, entry, rfl, hk⟩
  | i :: todo, entry, done, k, hk, hnd, hdis => by
    obtain ⟨hi, hnd⟩ := List.nodup_cons.mp hnd
    rw [List.foldlM_cons]
    cases hs : startProcess ramimages k i with
    | error c =>
      obtain ⟨k', rfl⟩ := startProcess_spinning hs
      exact Or.inl ⟨k', rfl⟩
    | ok k₁ =>
      obtain ⟨e, hk₁⟩ := startProcess_ok hk (hdis i List.mem_cons_self) hs
      have hdis' : ∀ j ∈ todo, j ∉ i :: done := by
        intro j hj hmem
        rcases List.mem_cons.mp hmem with rfl | hd
        · exact hi hj
        · exact hdis j (List.mem_cons_of_mem _ hj) hd
      rw [List.reverse_cons, List.append_assoc]
      exact foldlM_startProcess todo hk₁ hnd hdis'

/-- What is known of the machine when `start` runs the first process. -/
structure Booted (scheduling_algorithm : Int32) (k : Machine) : Prop where
  current : k.current = 1
  algorithm : k.schedulingAlgorithm = scheduling_algorithm
  slot_zero : k.procArray 0 = Process.zero
  /-- Entries 1 to 4, with the entry point that `program_loader` stored. -/
  proc : ∃ entry : Pid → UInt32, ∀ i, i ≠ 0 → k.procArray i = bootProcess i (entry i)
  cursorpos : k.cursorpos = 0xB8000

/-- What a field contains in every entry of the table. -/
theorem Booted.field {alg : Int32} {k : Machine} (h : Booted alg k) {β : Type*} (g : Process → β)
    {v : Pid → β} (hzero : g .zero = v 0) (hproc : ∀ i entry, g (bootProcess i entry) = v i)
    (i : Pid) : g (k.procArray i) = v i := by
  obtain ⟨entry, hentry⟩ := h.proc
  by_cases hi : i = 0
  · rw [hi, h.slot_zero, hzero]
  · rw [hentry i hi, hproc]

/-- All entries but the first are runnable. -/
theorem Booted.runnable_iff {alg : Int32} {k : Machine} (h : Booted alg k) (i : Pid) :
    k.Runnable i ↔ i ≠ 0 := by
  obtain ⟨entry, hentry⟩ := h.proc
  unfold Machine.Runnable
  by_cases hi : i = 0
  · rw [hi, h.slot_zero]
    exact iff_of_false (by decide) (not_not_intro rfl)
  · rw [hentry i hi]
    exact iff_of_true rfl hi

/-- **What `start` leaves behind.** Either the loader has panicked, or process 1 runs. -/
theorem start_cases (ramimages : Fin 4 → Ramimage) (alg : Int32) (k₀ : Machine) :
    (∃ k, start ramimages alg k₀ = .spinning k) ∨
    ∃ k, start ramimages alg k₀ = .user 1 k (k.procArray 1).pRegisters ∧ Booted alg k := by
  unfold start
  have h₀ : Booting (fun _ => 0) [] ({ k₀ with ram := consoleClear k₀.ram }.initProcArray) :=
    fun i => rfl
  have hfold := @foldlM_startProcess ramimages [1, 2, 3, 4] _ _ _ h₀ (by decide) (by simp)
  rcases hfold with ⟨k, hk⟩ | ⟨k, entry, hk, hb⟩
  · exact Or.inl ⟨k, by simp only [hk]⟩
  · refine Or.inr ⟨_, by simp only [hk]; rfl, ?_⟩
    exact {
      current := rfl
      algorithm := rfl
      slot_zero := by
        show k.procArray 0 = _
        rw [hb 0]
        rfl
      proc := by
        refine ⟨entry, fun i hi => ?_⟩
        show k.procArray i = _
        have hmem : i ∈ [(1 : Pid), 2, 3, 4].reverse ++ [] := by
          revert i
          decide
        rw [hb i, if_pos hmem]
      cursorpos := readU32_writeU32 .. }

theorem start_user {ramimages : Fin 4 → Ramimage} {alg : Int32} {k₀ k : Machine} {p : Pid}
    {cpu : Registers} (h : start ramimages alg k₀ = .user p k cpu) :
    p = 1 ∧ cpu = (k.procArray 1).pRegisters ∧ Booted alg k := by
  rcases start_cases ramimages alg k₀ with ⟨k', hk'⟩ | ⟨k', hk', hb⟩
  · rw [hk'] at h
    cases h
  · rw [hk'] at h
    cases h
    exact ⟨rfl, rfl, hb⟩

/-- Where the loader has not panicked, process 1 runs. -/
theorem start_booted {ramimages : Fin 4 → Ramimage} {alg : Int32} {k₀ : Machine}
    (h : (start ramimages alg k₀).proc? ≠ none) :
    ∃ k, start ramimages alg k₀ = .user 1 k (k.procArray 1).pRegisters ∧ Booted alg k := by
  rcases start_cases ramimages alg k₀ with ⟨k, hk⟩ | hbooted
  · rw [hk] at h
    exact absurd rfl h
  · exact hbooted

/-! ## A rule for the table -/

/-- `P` holds of an empty entry, and is kept when the registers of an entry are set and when it
is made runnable. -/
structure KeptByStart (P : Process → Prop) : Prop where
  zero : ∀ i, P { Process.zero with pPid := i }
  registers : ∀ proc r, P proc → P { proc with pRegisters := r }
  runnable : ∀ proc r, P proc →
    P { proc with pRegisters := r, pState := .pRunnable, pNumTimes := 0 }

section Rule

variable {P : Process → Prop} (hP : KeptByStart P) {ramimages : Fin 4 → Ramimage}

theorem Machine.setProc_rule {k : Machine} (h : ∀ p, P (k.procArray p)) {i : Pid}
    {f : Process → Process} (hf : P (f (k.procArray i))) (p : Pid) :
    P ((k.setProc i f).procArray p) := by
  by_cases hp : p = i
  · rwa [hp, Machine.setProc_self]
  · rw [Machine.setProc_of_ne _ _ _ hp]
    exact h p

include hP

theorem KeptByStart.startProcess {k : Machine} (h : ∀ p, P (k.procArray p)) (i : Pid) :
    match startProcess ramimages k i with
    | .error c => ∀ p, P (c.machine.procArray p)
    | .ok k' => ∀ p, P (k'.procArray p) := by
  have hesp := Machine.setProc_rule (i := i) h
    (f := fun proc => { specialRegistersInit proc with
      pRegisters := { (specialRegistersInit proc).pRegisters with
        regEsp := proc1Start + UInt32.ofNat i * procSize } })
    (hP.registers (k.procArray i) _ (h i))
  unfold SchedOS.startProcess
  dsimp only
  split
  · next c hs =>
    split at hs
    · cases hs
      exact hesp
    · cases hs
  · next k' hs =>
    split at hs
    · cases hs
    · cases hs
      refine fun p => Machine.setProc_rule ?_ ?_ p
      · exact hesp
      · exact hP.runnable _ _ (hesp i)

theorem KeptByStart.foldlM : ∀ (todo : List Pid) {k : Machine}, (∀ p, P (k.procArray p)) →
    match todo.foldlM (SchedOS.startProcess ramimages) k with
    | .error c => ∀ p, P (c.machine.procArray p)
    | .ok k' => ∀ p, P (k'.procArray p)
  | [], _, h => h
  | i :: todo, k, h => by
    have hi := @KeptByStart.startProcess _ hP ramimages _ h i
    rw [List.foldlM_cons]
    cases hs : SchedOS.startProcess ramimages k i with
    | error c =>
      rw [hs] at hi
      exact hi
    | ok k' =>
      rw [hs] at hi
      exact KeptByStart.foldlM todo hi

/-- **The rule for `start`.** Such a `P` holds of every entry that it leaves behind, also where the
loader panics. -/
theorem KeptByStart.start (alg : Int32) (k₀ : Machine) (p : Pid) :
    P ((SchedOS.start ramimages alg k₀).machine.procArray p) := by
  have h := @KeptByStart.foldlM _ hP ramimages [1, 2, 3, 4]
    { k₀ with ram := consoleClear k₀.ram }.initProcArray hP.zero
  unfold SchedOS.start
  dsimp only
  cases hs : [1, 2, 3, 4].foldlM (SchedOS.startProcess ramimages)
      { k₀ with ram := consoleClear k₀.ram }.initProcArray with
  | error c =>
    rw [hs] at h
    exact h p
  | ok k =>
    rw [hs] at h
    exact h p

end Rule

end SchedOS
