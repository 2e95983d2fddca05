import SchedOS.Properties.BootChain
import SchedOS.Properties.Lock
import SchedOS.Properties.Progress

/-!
# The lock at power-on

Between power-on and the first instruction of an application nobody gives `lock` a value. What the
applications make of the word that they find decides about everything:

* `locked_out` — if it is not zero, nobody ever gets past the first `atomic_swap`, whoever runs and
  whenever the clock ticks
* `power_on` — so a machine that is switched on prints all of its output and comes to an end if the
  word happens to be zero, and prints nothing and runs for ever if it does not
-/

namespace SchedOS

open Infra Filter

/-! ## Locked out -/

/-- Nobody has come any further than to the first `atomic_swap`; `ram₀` is the memory that the
applications found. -/
structure World.LockedOut (ram₀ : Mem) (w : World) : Prop where
  lock : w.config.machine.lock ≠ 0
  written : w.written = []
  completed : ∀ p, w.completed p = 0
  /-- Of all the memory only the lock itself may have changed. -/
  ram : ∀ a, ¬ InSpan lockAddr 4 a → w.config.machine.ram a = ram₀ a
  runnable : ∀ p, p ≠ 0 → w.config.machine.Runnable p

variable {alg : Int32} {apps : Apps} {t : Tick} {w w' : World} {p : Pid} {k : Machine}
  {cpu : Registers} {pc : Pc} {ram : Mem}

/-- An instruction outside of a print leaves no trace in the record … -/
theorem record_of_outside (h : pc.phase cpu = .outside) : w.record p cpu pc = w := by
  cases pc
  case storeCell => cases h
  case releaseSwap => cases h
  all_goals rfl

/-- … and writes to nothing but the lock. -/
theorem exec_ram_of_outside (program : Program) (runcount : Nat) (h : pc.phase cpu = .outside)
    {a : UInt32} (ha : ¬ InSpan lockAddr 4 a) :
    (program.exec runcount cpu ram pc).ram a = ram a := by
  cases pc
  case acquireSwap => exact writeU32_of_not_inSpan _ _ ha
  case storeCell => cases h
  case storeCursorpos => cases h
  case releaseSwap => cases h
  all_goals rfl

/-- `w` differs from the world in which the applications began with the memory `ram₀` in nothing
but the lock and what the processes have told the kernel about themselves. -/
structure World.Untouched (ram₀ : Mem) (w : World) : Prop where
  written : w.written = []
  completed : ∀ p, w.completed p = 0
  ram : ∀ a, ¬ InSpan lockAddr 4 a → w.config.machine.ram a = ram₀ a

/-- As long as nobody gets in, nothing happens. -/
theorem World.Steps.untouched {ram₀ : Mem} (hstep : World.Steps apps alg t w w')
    (hknown : KnownAlgorithm alg) (hstuck : w.Stuck apps alg) (h : w.Untouched ram₀) :
    w'.Untouched ram₀ := by
  cases hstep with
  | spinning _ => exact h
  | clock _ hw hr _ _ =>
    have hint : some intClock ≠ some intSysAtomicPrint := by decide
    refine ⟨by simp [h.written], by simp [h.completed], fun a ha => ?_⟩
    have hram := h.ram a ha
    rw [hw] at hram
    rw [finish_ram hr hw hknown hint]
    exact hram
  | @instr p k cpu pc _ hw hr ht _ =>
    have hout : pc.phase cpu = .outside := by
      rw [← ht.phase_cpu hw]
      exact hstuck.outside p
    rw [record_of_outside hout]
    refine ⟨by simp [h.written], by simp [h.completed], fun a ha => ?_⟩
    have hram := h.ram a ha
    rw [hw] at hram
    rw [finish_ram hr hw hknown exec_int_ne, exec_ram_of_outside _ _ hout ha]
    exact hram

/-- Whoever has not printed anything is not at the end of its program. -/
theorem World.Untouched.lockedOut {ram₀ : Mem} (h : w.Untouched ram₀) (hstuck : w.Stuck apps alg)
    (hpos : 0 < apps.runcount) : w.LockedOut ram₀ where
  lock := by simpa [World.lockedLog] using hstuck.locked
  written := h.written
  completed := h.completed
  ram := h.ram
  runnable p hp := by
    obtain ⟨pc, ht⟩ := hstuck.tracks p
    have hpc : pc ≠ .hang := by
      rintro rfl
      have hdone : w.completed p = apps.runcount := ht.accounts
      rw [h.completed] at hdone
      omega
    have hstate := ht.pState
    rwa [if_neg hpc, if_neg hp] at hstate

section Runs

variable {ramimages : Fin 4 → Ramimage} {k₀ : Machine} {runcount : Nat}

theorem world_untouched (program : Pid → Program) (hknown : KnownAlgorithm alg)
    (hrun : runcount < 2 ^ 31) (hboot : (start ramimages alg k₀).proc? ≠ none)
    (hlock : (start ramimages alg k₀).machine.lock ≠ 0) (ticks : Nat → Tick) (n : Nat) :
    (world program runcount (start ramimages alg k₀) ticks n).Untouched
      (start ramimages alg k₀).machine.ram := by
  induction n with
  | zero => exact ⟨rfl, fun _ => rfl, fun _ _ => rfl⟩
  | succ n ih =>
    have hstuck := world_stuck program hknown hrun hboot hlock ticks n
    exact (world_steps program hrun hboot ticks n).untouched hknown hstuck ih

end Runs

/-- **Who finds the lock taken by nobody waits for ever**, under every algorithm. -/
theorem locked_out (ramimages : Fin 4 → Ramimage) (alg : Int32) (k₀ : Machine)
    (program : Pid → Program) (runcount : Nat) (ticks : Nat → Tick) (n : Nat)
    (hknown : KnownAlgorithm alg) (hpos : 0 < runcount) (hrun : runcount < 2 ^ 31)
    (hboot : (start ramimages alg k₀).proc? ≠ none)
    (hlock : (start ramimages alg k₀).machine.lock ≠ 0) :
    (world program runcount (start ramimages alg k₀) ticks n).LockedOut
      (start ramimages alg k₀).machine.ram :=
  (world_untouched program hknown hrun hboot hlock ticks n).lockedOut
    (world_stuck program hknown hrun hboot hlock ticks n) hpos

theorem taken_sameImage (i : Fin 4) :
    SameImage (bareImages i).begin 52 bareMachine.ram takenMachine.ram := by
  intro x hx
  refine writeU32_of_not_inSpan _ _ fun hlock => ?_
  exact apart_of_le (a := 0x110000) (b := lockAddr) (by decide) (by decide) x hx hlock

theorem taken_proc? (alg : Int32) : (start bareImages alg takenMachine).proc? ≠ none := by
  have hmagic : ∀ i, readU32 takenMachine.ram (bareImages i).begin = elfMagic := fun i =>
    (readU32_congr fun x hx => taken_sameImage i x (Nat.lt_trans hx (by decide))).trans
      (readU32_writeU32 ..)
  have hnum : readU16 takenMachine.ram (0x110000 + 44) = 0 := by decide
  obtain ⟨k, hk, -⟩ := start_of_header alg hmagic (fun _ => hnum)
    fun _ x hx => bare_header_out (Nat.lt_trans hx (by decide))
  simp [hk]

theorem taken_lock (alg : Int32) : (start bareImages alg takenMachine).machine.lock = 1 :=
  ((bare_linked.congr taken_sameImage).start_lock alg).trans (readU32_writeU32 ..)

theorem locked_out_taken : (world shippedProgram shippedRuncount (start bareImages 4 takenMachine)
    thirdTicks 1000).LockedOut (start bareImages 4 takenMachine).machine.ram := by
  refine locked_out bareImages 4 takenMachine shippedProgram shippedRuncount thirdTicks 1000
    (by simp [KnownAlgorithm]) (by decide) (by decide) (taken_proc? 4) ?_
  rw [taken_lock]
  decide

/-! ## From power-on -/

/-- **What `lock` holds at power-on decides.** The clock keeps ticking, and there is an instruction
between any two of its interrupts. -/
theorem power_on (bootsector kernel : List UInt8) (apps : Fin 4 → List UInt8)
    (ramimages : Fin 4 → Ramimage) (writes : List WriteResult) (image : List UInt8)
    (disk : Nat → UInt8) (m : Mem)
    (hl : Linked kernel apps ramimages) (happs : ∀ i, ValidApp (apps i) i)
    (hmagic : ∀ i, (elfOf (apps i)).eMagic = elfMagic)
    (hcovers : ∀ x n, InSpan lockAddr 4 x → n < (elfOf kernel).ePhnum.toNat →
      ¬ (proghdrOf kernel n).Covers x)
    (himage : mkbootdisk bootsector [.file kernel] writes = some image)
    (hdisk : ∀ i (hi : i < image.length), disk i = image[i]) :
    ∃ m', bootmain disk m = some (.jumped (elfOf kernel).eEntry m') ∧
      ∀ alg k₀ (program : Pid → Program) runcount (ticks : Nat → Tick),
        (alg = 0 ∨ alg = 1 ∨ alg = 2) → k₀.ram = m' → (∀ p, 0 ≤ (program p).priority) →
        0 < runcount → 4 * runcount ≤ 2000 → (∃ᶠ n in atTop, (ticks n).clock = true) →
        (∀ n, (ticks n).clock = true → (ticks (n + 1)).clock = false) →
        (∀ n, nprocs ≤ (ticks n).fuel) →
          let run := world program runcount (start ramimages alg k₀) ticks
          let ram₀ := (start ramimages alg k₀).machine.ram
          (readU32 m lockAddr = 0 → ∃ N, ∀ n, N ≤ n →
            (run n).Finished (.load program runcount (start ramimages alg k₀)) ram₀) ∧
          (readU32 m lockAddr ≠ 0 → ∀ n, (run n).LockedOut ram₀) := by
  have hkernel := holdsKernel_of_mkbootdisk himage hdisk
  obtain ⟨m', hm', hdone⟩ := bootmain_spec hl.toValidKernel hkernel m
  refine ⟨m', hm', fun alg k₀ program runcount ticks halg hram hpriority hpos hrun hclock hslice
    hfuel => ?_⟩
  subst hram
  have hsmall : runcount < 2 ^ 31 := by omega
  have hknown := knownAlgorithm_of_candidate halg
  obtain ⟨k, hstart, -, -, hlock⟩ : ∃ k, start ramimages alg k₀ = _ ∧ _ :=
    start_launches happs (hl.appImages hdone) hmagic
  have hfound : k.lock = readU32 m lockAddr :=
    hlock.trans (bootmain_lock hl.toValidKernel hkernel hm' hcovers)
  have hboot : (start ramimages alg k₀).proc? ≠ none := by simp [hstart]
  have hsame : (start ramimages alg k₀).machine.lock = readU32 m lockAddr := by
    rw [hstart]
    exact hfound
  rw [← hsame]
  refine ⟨fun hfree => ?_, fun htaken n => ?_⟩
  · exact exists_finished hknown hrun hboot hfree fun _ hstalled =>
      hstalled.idle halg hpriority hsmall hclock hslice hfuel hboot
  · exact (world_untouched program hknown hsmall hboot htaken ticks n).lockedOut
      (world_stuck program hknown hsmall hboot htaken ticks n) hpos

/-- A memory full of ones. -/
theorem power_on_two : ∃ writes image m',
    mkbootdisk [] [.file twoKernel] writes = some image ∧
      bootmain (fun i => image.getD i 0) (fun _ => 0xFF) = some (.jumped 0x100054 m') ∧
      ∀ n, (world shippedProgram shippedRuncount
          (start twoRamimages 0 { bareMachine with ram := m' }) thirdTicks n).LockedOut
        (start twoRamimages 0 { bareMachine with ram := m' }).machine.ram := by
  obtain ⟨writes, image, himage⟩ :=
    mkbootdisk_succeeds (show ([] : List UInt8).length ≤ 510 by decide) twoKernel
  obtain ⟨m', hm', hruns⟩ := power_on [] twoKernel twoApps twoRamimages writes image
    (fun i => image.getD i 0) (fun _ => 0xFF) twoKernel_linked twoApps_valid twoApps_magic
    twoKernel_spares_lock himage
    fun i hi => by rw [List.getD_eq_getElem?_getD, List.getElem?_eq_getElem hi, Option.getD_some]
  have hrun := hruns 0 { bareMachine with ram := m' } shippedProgram shippedRuncount thirdTicks
    (Or.inl rfl) rfl (by decide) (by decide) (by decide) thirdTicks_often thirdTicks_slice
    fun _ => Nat.le_refl _
  rw [twoKernel_elf] at hm'
  exact ⟨writes, image, m', himage, hm', hrun.2 (by decide)⟩

end SchedOS
