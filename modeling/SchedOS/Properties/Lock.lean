import SchedOS.Properties.Printing
import SchedOS.Properties.Loading

/-!
# Who holds the lock

`lock` is a word at a fixed address that no part of the kernel sets: `start` gives `cursorpos`
its value, but not `lock`. So whether the lock is free when the first process is dispatched is up
to what the memory holds when the kernel is entered. If it is not, it never will be.

* `lock_held_iff` — in any state of any run, the lock is taken exactly while some process is
  between its two `atomic_swap`s, if it was free when `start` was done, and otherwise in no state
-/

namespace SchedOS

open Infra

/-! ## Images in memory that agrees on them -/

section Congr

variable {m m' : Mem} {E : UInt32} {L : Nat} (hv : ValidImage m E L) (h : SameImage E L m m')
include hv h

theorem SameImage.valid : ValidImage m' E L := by
  have hload := h.loadable hv.loadable
  exact {
    fits := hload.fits
    magic := hload.magic
    header := hload.header
    table := hload.table
    filesz_le := hload.filesz_le
    no_wrap := hload.no_wrap
    inside := h.forall_isLoad hv.loadable
      (P := fun _ g => g.pOffset.toNat + g.pFilesz.toNat ≤ L) hv.inside
    apart := fun i j hi hj hij => by
      have hi' := (h.isLoad_iff hv.loadable i).mp hi
      have hj' := (h.isLoad_iff hv.loadable j).mp hj
      rw [h.progHeader_eq hv.loadable hi'.1, h.progHeader_eq hv.loadable hj'.1]
      exact hv.apart i j hi' hj' hij
    apart_image := h.forall_isLoad hv.loadable
      (P := fun _ g => Apart g.pVa g.pMemsz.toNat E L) hv.apart_image }

theorem SameImage.readsFresh (hf : ReadsFresh m E) : ReadsFresh m' E := by
  constructor
  · intro i j x hij hi hx
    rw [h.readElf_eq hv.loadable] at hi
    rw [h.headerAddr_eq hv.loadable] at hx
    rw [h.writes_iff hv.loadable]
    exact hf.headers i j x hij hi hx
  · intro i j x hij hx
    rw [h.reads_iff hv.loadable] at hx
    rw [h.writes_iff hv.loadable]
    exact hf.contents i j x hij hx
  · intro j x hx
    rw [h.writes_iff hv.loadable]
    exact hf.entry j x hx

end Congr

/-! ## What `start` does to `lock` -/

/-- The memory holds the four images, and they can be loaded: nothing that `start` writes lies
in an image. No segment covers `lock`. -/
structure LinkedImages (ramimages : Fin 4 → Ramimage) (length : Fin 4 → Nat) (m : Mem) :
    Prop where
  valid : ∀ i, ValidImage m (ramimages i).begin (length i)
  readsFresh : ∀ i, ReadsFresh m (ramimages i).begin
  console : ∀ i, Apart (ramimages i).begin (length i) 0xB8000 4000
  cursorpos : ∀ i, Apart (ramimages i).begin (length i) cursorposAddr 4
  writes_image : ∀ i j n x, Writes m (ramimages i).begin n x →
    ¬ InSpan (ramimages j).begin (length j) x
  writes_lock : ∀ i n x, Writes m (ramimages i).begin n x → ¬ InSpan lockAddr 4 x

/-- What the loading of the images leaves alone. -/
structure LoadKeeps (ramimages : Fin 4 → Ramimage) (length : Fin 4 → Nat) (m m' : Mem) :
    Prop where
  images : ∀ i, SameImage (ramimages i).begin (length i) m m'
  lock : readU32 m' lockAddr = readU32 m lockAddr

section Start

variable {ramimages : Fin 4 → Ramimage} {length : Fin 4 → Nat} {m m' : Mem}

theorem LinkedImages.congr (hl : LinkedImages ramimages length m)
    (h : ∀ i, SameImage (ramimages i).begin (length i) m m') :
    LinkedImages ramimages length m' where
  valid i := (h i).valid (hl.valid i)
  readsFresh i := (h i).readsFresh (hl.valid i) (hl.readsFresh i)
  console := hl.console
  cursorpos := hl.cursorpos
  writes_image i j n x hw :=
    hl.writes_image i j n x (((h i).writes_iff (hl.valid i).loadable n x).mp hw)
  writes_lock i n x hw := hl.writes_lock i n x (((h i).writes_iff (hl.valid i).loadable n x).mp hw)

theorem LoadKeeps.trans {m'' : Mem} (h : LoadKeeps ramimages length m m')
    (h' : LoadKeeps ramimages length m' m'') : LoadKeeps ramimages length m m'' where
  images i x hx := (h'.images i x hx).trans (h.images i x hx)
  lock := h'.lock.trans h.lock

/-- One application. -/
theorem LinkedImages.startProcess {k : Machine} (hl : LinkedImages ramimages length k.ram)
    {i : Pid} (hi : i ≠ 0) : ∃ k', startProcess ramimages k i = .ok k' ∧
      LoadKeeps ramimages length k.ram k'.ram := by
  have hid : 0 ≤ (Int32.ofNat i - 1).toInt ∧ (Int32.ofNat i - 1).toInt < 4 := by
    revert i
    decide
  obtain ⟨m', hm', hload⟩ := programLoader_spec hid rfl (hl.valid _).loadable (hl.readsFresh _)
  have hkeep : LoadKeeps ramimages length k.ram m' := by
    constructor
    · intro j x hx
      exact hload.fresh x fun n _ hw => hl.writes_image _ j n x hw hx
    · exact readU32_congr fun x hx => hload.fresh x fun n _ hw => hl.writes_lock _ n x hw hx
  unfold SchedOS.startProcess
  simp only [Machine.setProc_ram, hm']
  exact ⟨_, rfl, hkeep⟩

theorem LinkedImages.foldlM : ∀ (todo : List Pid) {k : Machine}, (∀ i ∈ todo, i ≠ 0) →
    LinkedImages ramimages length k.ram →
    ∃ k', todo.foldlM (SchedOS.startProcess ramimages) k = .ok k' ∧
      LoadKeeps ramimages length k.ram k'.ram
  | [], k, _, _ => ⟨k, rfl, fun _ _ _ => rfl, rfl⟩
  | i :: todo, k, hne, hl => by
    obtain ⟨k₁, h₁, hkeep⟩ := hl.startProcess (hne i List.mem_cons_self)
    rw [List.foldlM_cons, h₁]
    obtain ⟨k', h', hkeep'⟩ := LinkedImages.foldlM todo
      (fun j hj => hne j (List.mem_cons_of_mem _ hj)) (hl.congr hkeep.images)
    exact ⟨k', h', hkeep.trans hkeep'⟩

/-- **`start` does not touch `lock`.** -/
theorem LinkedImages.start_lock {k₀ : Machine} (hl : LinkedImages ramimages length k₀.ram)
    (alg : Int32) : (start ramimages alg k₀).machine.lock = k₀.lock := by
  have hclear : ∀ i, SameImage (ramimages i).begin (length i) k₀.ram (consoleClear k₀.ram) :=
    fun i x hx => consoleClear_frame _ (hl.console i x hx) (hl.cursorpos i x hx)
  obtain ⟨k', hk', hkeep⟩ := LinkedImages.foldlM [1, 2, 3, 4]
    (k := { k₀ with ram := consoleClear k₀.ram }.initProcArray) (by decide) (hl.congr hclear)
  have hlock : readU32 k'.ram lockAddr = readU32 k₀.ram lockAddr :=
    hkeep.lock.trans (consoleClear_lock k₀.ram)
  unfold start
  simp only [hk']
  show readU32 (writeU32 k'.ram cursorposAddr 0xB8000) lockAddr = _
  rw [readU32_writeU32_of_apart _ lock_apart_cursorpos.symm, hlock]
  rfl

end Start

/-! ## The lock while the applications run -/

/-- The lock is taken exactly while some process is between its two `atomic_swap`s. -/
def World.LockHeld (apps : Apps) (w : World) : Prop :=
  w.config.machine.lock ≠ 0 ↔ ∃ p, apps.Inside p (w.config.regs p)

/-- The lock is taken, and by nobody. -/
structure World.Stuck (apps : Apps) (scheduling_algorithm : Int32) (w : World) : Prop
    extends World.OnTrack apps scheduling_algorithm w where
  locked : (w.lockedLog apps).locked = true
  outside : ∀ p, (w.lockedLog apps).phase p = .outside

section Steps

variable {alg : Int32} {apps : Apps} {t : Tick} {w w' : World}

theorem lockHeld_iff_log : w.LockHeld apps ↔
    ((w.lockedLog apps).locked = true ↔ ∃ p, (w.lockedLog apps).phase p ≠ .outside) := by
  have hlocked : (w.lockedLog apps).locked = true ↔ w.config.machine.lock ≠ 0 := by
    simp [World.lockedLog]
  rw [World.LockHeld, hlocked]
  simp only [Apps.inside_iff]
  rfl

theorem World.Stuck.not_lockHeld (h : w.Stuck apps alg) : ¬ w.LockHeld apps := by
  rw [lockHeld_iff_log]
  intro hheld
  obtain ⟨p, hp⟩ := hheld.mp h.locked
  exact hp (h.outside p)

/-- **Nobody ever gets in.** -/
theorem World.Steps.stuck (hstep : World.Steps apps alg t w w') (hknown : KnownAlgorithm alg)
    (hrun : apps.runcount < 2 ^ 31) (h : w.Stuck apps alg) : w'.Stuck apps alg := by
  have htrack := hstep.onTrack hrun h.toOnTrack
  have hlog : w'.lockedLog apps = w.lockedLog apps := by
    cases hstep with
    | spinning _ => rfl
    | @clock p k cpu pc _ hw hr ht hpc =>
      have hint : some intClock ≠ some intSysAtomicPrint := by decide
      rw [(moves_clock ht hw hpc).lockedLog hknown hr hw hint]
      exact (logAfter_idle hw ht rfl rfl rfl rfl).eq_of_locked h.locked (h.outside p)
    | @instr p k cpu pc _ hw hr ht hpc =>
      rw [(moves_exec hrun ht hw hpc).lockedLog hknown hr hw exec_int_ne]
      -- a process that writes a cell would be inside
      refine (exec_log_step hw ht fun hcell => ?_).eq_of_locked h.locked (h.outside p)
      subst hcell
      have hout := h.outside p
      rw [ht.phase_cpu hw] at hout
      cases hout
  exact { htrack with
    locked := by rw [hlog]; exact h.locked
    outside := by rw [hlog]; exact h.outside }

end Steps

section Runs

variable {alg : Int32} {ramimages : Fin 4 → Ramimage} {k₀ : Machine} {runcount : Nat}

theorem world_stuck (program : Pid → Program) (hknown : KnownAlgorithm alg)
    (hrun : runcount < 2 ^ 31) (hboot : (start ramimages alg k₀).proc? ≠ none)
    (hlock : (start ramimages alg k₀).machine.lock ≠ 0) (ticks : Nat → Tick) (n : Nat) :
    (world program runcount (start ramimages alg k₀) ticks n).Stuck
      (.load program runcount (start ramimages alg k₀)) alg := by
  refine states_invariant (fun t _ h => (h.toOnTrack.steps t).stuck hknown hrun h) ?_ n
  refine { world_onTrack program hrun hboot ticks 0 with locked := ?_, outside := fun p => ?_ }
  · simpa [World.lockedLog, World.boot] using hlock
  · rw [(boot_tracks program runcount hboot p).phase]
    rfl

end Runs

/-- **When the lock is held by somebody.** In every state of every run it depends on the same
word, which `start` leaves as the kernel has found it. -/
theorem lock_held_iff (ramimages : Fin 4 → Ramimage) (alg : Int32) (k₀ : Machine)
    (program : Pid → Program) (runcount : Nat) (hknown : KnownAlgorithm alg)
    (hrun : 4 * runcount ≤ 2000) (hboot : (start ramimages alg k₀).proc? ≠ none) :
    (∀ ticks n, (world program runcount (start ramimages alg k₀) ticks n).LockHeld
        (.load program runcount (start ramimages alg k₀)) ↔
      (start ramimages alg k₀).machine.lock = 0) ∧
    ∀ length, LinkedImages ramimages length k₀.ram →
      (start ramimages alg k₀).machine.lock = k₀.lock := by
  refine ⟨fun ticks n => ⟨fun hheld => ?_, fun hlock => ?_⟩, fun _ hl => hl.start_lock alg⟩
  · by_contra hlock
    exact (world_stuck program hknown (by omega) hboot hlock ticks n).not_lockHeld hheld
  · rw [lockHeld_iff_log]
    exact (world_inv program hknown hrun hboot hlock ticks n).log.locked_iff

/-- The image of the bare machine has no segments. -/
theorem bare_linked : LinkedImages bareImages (fun _ => 52) bareMachine.ram := by
  have hnum : (readElf bareMachine.ram 0x110000).ePhnum = 0 := by decide
  have hload : ∀ i, ¬ IsLoad bareMachine.ram 0x110000 i := by
    rintro i ⟨hi, -⟩
    rw [hnum] at hi
    exact Nat.not_lt_zero i hi
  have hwrites : ∀ i x, ¬ Writes bareMachine.ram 0x110000 i x := fun i x hw => hload i hw.1
  have hvalid : ValidImage bareMachine.ram 0x110000 52 := {
    fits := by decide
    magic := readU32_writeU32 ..
    header := Nat.le_refl _
    table := by decide
    filesz_le := fun i hi => absurd hi (hload i)
    no_wrap := fun i hi => absurd hi (hload i)
    inside := fun i hi => absurd hi (hload i)
    apart := fun i _ hi => absurd hi (hload i)
    apart_image := fun i hi => absurd hi (hload i) }
  have hfresh : ReadsFresh bareMachine.ram 0x110000 := {
    headers := fun _ j x _ _ _ => hwrites j x
    contents := fun _ j x _ _ => hwrites j x
    entry := fun j x _ => hwrites j x }
  exact {
    valid := fun _ => hvalid
    readsFresh := fun _ => hfresh
    console := fun _ _ hx => (bare_header_out hx).1
    cursorpos := fun _ _ hx => (bare_header_out hx).2
    writes_image := fun _ _ n x hw => absurd hw (hwrites n x)
    writes_lock := fun _ n x hw => absurd hw (hwrites n x) }

theorem lock_held_bare :
    (∀ ticks n, (world shippedProgram shippedRuncount (start bareImages 0 bareMachine) ticks
        n).LockHeld (.load shippedProgram shippedRuncount (start bareImages 0 bareMachine))) ∧
      (start bareImages 0 bareMachine).machine.lock = bareMachine.lock := by
  have h := lock_held_iff bareImages 0 bareMachine shippedProgram shippedRuncount (Or.inl rfl)
    (by decide) (bare_proc? 0)
  exact ⟨fun ticks n => (h.1 ticks n).mpr (start_bare_lock 0), h.2 _ bare_linked⟩

/-- The bare machine, but for a 1 in the word at `0x198004`. -/
def takenMachine : Machine := { bareMachine with ram := writeU32 bareMachine.ram lockAddr 1 }

/-- **A lock that nobody has taken.** The shipped applications find it so, and wait for ever. -/
theorem lock_held_by_nobody :
    (start bareImages 0 takenMachine).proc? = some 1 ∧
      ∀ ticks n, ¬ (world shippedProgram shippedRuncount (start bareImages 0 takenMachine) ticks
        n).LockHeld (.load shippedProgram shippedRuncount (start bareImages 0 takenMachine)) := by
  have hmagic : readU32 takenMachine.ram 0x110000 = elfMagic :=
    (readU32_writeU32_of_apart 1 (apart_of_le (a := 0x110000) (b := lockAddr) (by decide)
      (by decide)).symm).trans (readU32_writeU32 ..)
  have hnum : readU16 takenMachine.ram (0x110000 + 44) = 0 := by decide
  obtain ⟨k, hk, -, hram⟩ : ∃ k, start bareImages 0 takenMachine
      = .user 1 k (k.procArray 1).pRegisters ∧ Booted 0 k ∧
        k.ram = writeU32 (consoleClear takenMachine.ram) cursorposAddr 0xB8000 :=
    start_of_header 0 (fun _ => hmagic) (fun _ => hnum)
      fun _ _ hx => bare_header_out (Nat.lt_trans hx (by decide))
  have hproc : (start bareImages 0 takenMachine).proc? = some 1 := by
    rw [hk, Config.proc?_user]
  have hlock : (start bareImages 0 takenMachine).machine.lock = 1 := by
    rw [hk]
    show readU32 k.ram lockAddr = 1
    rw [hram, readU32_writeU32_of_apart _ lock_apart_cursorpos.symm, consoleClear_lock]
    exact readU32_writeU32 ..
  refine ⟨hproc, fun ticks n => ?_⟩
  refine (world_stuck shippedProgram (Or.inl rfl) (by decide) ?_ ?_ ticks n).not_lockHeld
  · rw [hproc]
    simp
  · rw [hlock]
    decide

end SchedOS
