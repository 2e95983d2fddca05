import SchedOS.Kern.Start

/-!
# Booting

What `console_clear` does to the memory, and a condition under which `start` gets as far as
running a process: every image has the right magic and no segments of its own, in a place
that the console does not reach.
-/

namespace SchedOS

open Infra

/-! ## `console_clear` -/

/-- The address of cell `n` of the console, or the one behind it. -/
def cellAddr (n : Nat) : UInt32 := 0xB8000 + 2 * UInt32.ofNat n

theorem cellAddr_toNat {n : Nat} (hn : n ≤ 2000) : (cellAddr n).toNat = 0xB8000 + 2 * n := by
  unfold cellAddr
  rw [UInt32.toNat_add, UInt32.toNat_mul, UInt32.toNat_ofNat']
  simp
  omega

/-- Two cells do not overlap. -/
theorem cell_apart {i j : Nat} (hi : i < 2000) (hj : j < 2000) (h : i ≠ j) :
    Apart (cellAddr i) 2 (cellAddr j) 2 := by
  have h₁ := cellAddr_toNat (Nat.le_of_lt hi)
  have h₂ := cellAddr_toNat (Nat.le_of_lt hj)
  rcases Nat.lt_or_gt_of_ne h with hlt | hgt
  · exact apart_of_le (by omega) (by omega)
  · exact (apart_of_le (by omega) (by omega)).symm

/-- A cell is neither `cursorpos` nor `lock`. -/
theorem cell_apart_shared {i : Nat} (hi : i < 2000) {a : UInt32} (ha : 0xB8FA0 ≤ a.toNat)
    {n : Nat} (hn : a.toNat + n ≤ 2 ^ 32) : Apart (cellAddr i) 2 a n := by
  have h := cellAddr_toNat (Nat.le_of_lt hi)
  exact apart_of_le (by omega) hn

theorem cell_apart_lock {i : Nat} (hi : i < 2000) : Apart (cellAddr i) 2 lockAddr 4 :=
  cell_apart_shared hi (by decide) (by decide)

theorem cell_apart_cursorpos {i : Nat} (hi : i < 2000) : Apart (cellAddr i) 2 cursorposAddr 4 :=
  cell_apart_shared hi (by decide) (by decide)

theorem cell_inSpan {i : Nat} (hi : i < 2000) {x : UInt32} (hx : InSpan (cellAddr i) 2 x) :
    InSpan 0xB8000 4000 x := by
  have h := cellAddr_toNat (Nat.le_of_lt hi)
  rw [inSpan_iff (by omega)] at hx
  rw [inSpan_iff (by decide)]
  have : (0xB8000 : UInt32).toNat = 0xB8000 := rfl
  omega

/-- The shared variables are not on the console. -/
theorem console_apart_lock : Apart 0xB8000 4000 lockAddr 4 :=
  apart_of_le (by decide) (by decide)

theorem console_apart_cursorpos : Apart 0xB8000 4000 cursorposAddr 4 :=
  apart_of_le (by decide) (by decide)

theorem lock_apart_cursorpos : Apart lockAddr 4 cursorposAddr 4 :=
  (apart_of_le (a := cursorposAddr) (b := lockAddr) (by decide) (by decide)).symm

theorem clearCells_cursorpos {ram : Mem} (h : readU32 ram cursorposAddr = 0xB8000) :
    ∀ n, n ≤ 2000 → readU32 (clearCells ram n) cursorposAddr = 0xB8000
  | 0, _ => h
  | n + 1, hn => by
    have ih := clearCells_cursorpos h n (by omega)
    rw [clearCells, ih]
    show readU32 (writeU16 _ (cellAddr n) _) _ = _
    rw [readU32_writeU16_of_apart _ (cell_apart_cursorpos (by omega)), ih]

theorem clearCells_frame {ram : Mem} (h : readU32 ram cursorposAddr = 0xB8000) {x : UInt32}
    (hx : ¬ InSpan 0xB8000 4000 x) : ∀ n, n ≤ 2000 → clearCells ram n x = ram x
  | 0, _ => rfl
  | n + 1, hn => by
    rw [clearCells, clearCells_cursorpos h n (by omega)]
    show writeU16 _ (cellAddr n) _ x = _
    rw [writeU16_of_not_inSpan _ _ fun hc => hx (cell_inSpan (by omega) hc)]
    exact clearCells_frame h hx n (by omega)

theorem clearCells_cell {ram : Mem} (h : readU32 ram cursorposAddr = 0xB8000) {i n : Nat}
    (hn : n ≤ 2000) (hi : i < n) : readU16 (clearCells ram n) (cellAddr i) = 0x0720 := by
  induction n with
  | zero => exact absurd hi (Nat.not_lt_zero i)
  | succ n ih =>
    rw [clearCells, clearCells_cursorpos h n (by omega)]
    show readU16 (writeU16 _ (cellAddr n) _) _ = _
    by_cases he : i = n
    · rw [he, readU16_writeU16]
      rfl
    · rw [readU16_writeU16_of_apart _ (cell_apart (by omega) (by omega) (Ne.symm he))]
      exact ih (by omega) (by omega)

/-- **`console_clear`** blanks every cell of the console … -/
theorem consoleClear_cell (ram : Mem) {i : Nat} (hi : i < 2000) :
    readU16 (consoleClear ram) (cellAddr i) = 0x0720 := by
  rw [consoleClear]
  exact clearCells_cell (readU32_writeU32 ..) (Nat.le_refl _) hi

/-- … and touches nothing else but `cursorpos`. -/
theorem consoleClear_frame (ram : Mem) {x : UInt32} (hx : ¬ InSpan 0xB8000 4000 x)
    (hc : ¬ InSpan cursorposAddr 4 x) : consoleClear ram x = ram x := by
  rw [consoleClear, clearCells_frame (readU32_writeU32 ..) hx _ (Nat.le_refl _)]
  exact writeU32_of_not_inSpan _ _ hc

theorem consoleClear_lock (ram : Mem) :
    readU32 (consoleClear ram) lockAddr = readU32 ram lockAddr :=
  readU32_congr fun x hx =>
    consoleClear_frame _ (console_apart_lock.symm x hx) (lock_apart_cursorpos x hx)

/-! ## Images without segments -/

section Headers

variable {ramimages : Fin 4 → Ramimage}

/-- An image that has the magic and no program headers is accepted as it is. -/
theorem programLoader_of_header {program_id : Int32}
    (hid : 0 ≤ program_id.toInt ∧ program_id.toInt < 4) {m : Mem}
    (hmagic : ∀ i, readU32 m (ramimages i).begin = elfMagic)
    (hnum : ∀ i, readU16 m ((ramimages i).begin + 44) = 0) :
    ∃ entry, programLoader ramimages program_id m = .ok (m, entry) := by
  unfold programLoader
  rw [dif_pos hid]
  dsimp only [readElf]
  rw [if_neg (not_not_intro (hmagic _)), hnum]
  exact ⟨_, rfl⟩

theorem startProcess_of_header {k : Machine} {i : Pid} (hi : i ≠ 0)
    (hmagic : ∀ i, readU32 k.ram (ramimages i).begin = elfMagic)
    (hnum : ∀ i, readU16 k.ram ((ramimages i).begin + 44) = 0) :
    ∃ k', startProcess ramimages k i = .ok k' ∧ k'.ram = k.ram := by
  have hid : 0 ≤ (Int32.ofNat i - 1).toInt ∧ (Int32.ofNat i - 1).toInt < 4 := by
    revert i
    decide
  obtain ⟨entry, h⟩ := programLoader_of_header hid hmagic hnum
  unfold startProcess
  simp only [Machine.setProc_ram, h]
  exact ⟨_, rfl, rfl⟩

theorem foldlM_startProcess_of_header : ∀ (todo : List Pid) {k : Machine}, (∀ i ∈ todo, i ≠ 0) →
    (∀ i, readU32 k.ram (ramimages i).begin = elfMagic) →
    (∀ i, readU16 k.ram ((ramimages i).begin + 44) = 0) →
    ∃ k', todo.foldlM (startProcess ramimages) k = .ok k' ∧ k'.ram = k.ram
  | [], k, _, _, _ => ⟨k, rfl, rfl⟩
  | i :: todo, k, hne, hmagic, hnum => by
    obtain ⟨k₁, h₁, hram⟩ := startProcess_of_header (hne i List.mem_cons_self) hmagic hnum
    rw [List.foldlM_cons, h₁]
    rw [← hram] at hmagic hnum ⊢
    exact foldlM_startProcess_of_header todo (fun j hj => hne j (List.mem_cons_of_mem _ hj))
      hmagic hnum

/-- **`start` boots** when every image has the magic, no program headers, and a header out of
reach of `console_clear`. -/
theorem start_of_header (alg : Int32) {k₀ : Machine}
    (hmagic : ∀ i, readU32 k₀.ram (ramimages i).begin = elfMagic)
    (hnum : ∀ i, readU16 k₀.ram ((ramimages i).begin + 44) = 0)
    (hout : ∀ i x, InSpan (ramimages i).begin 46 x →
      ¬ InSpan 0xB8000 4000 x ∧ ¬ InSpan cursorposAddr 4 x) :
    ∃ k, start ramimages alg k₀ = .user 1 k (k.procArray 1).pRegisters ∧ Booted alg k ∧
      k.ram = writeU32 (consoleClear k₀.ram) cursorposAddr 0xB8000 := by
  have hframe : ∀ i x, InSpan (ramimages i).begin 46 x → consoleClear k₀.ram x = k₀.ram x :=
    fun i x hx => consoleClear_frame _ (hout i x hx).1 (hout i x hx).2
  have hmagic' : ∀ i, readU32 (consoleClear k₀.ram) (ramimages i).begin = elfMagic := fun i =>
    (readU32_congr fun x hx => hframe i x (Nat.lt_trans hx (by decide))).trans (hmagic i)
  have hnum' : ∀ i, readU16 (consoleClear k₀.ram) ((ramimages i).begin + 44) = 0 := by
    intro i
    refine (readU16_congr fun x hx => hframe i x ?_).trans (hnum i)
    unfold InSpan at hx ⊢
    have hsub : x - (ramimages i).begin = (x - ((ramimages i).begin + 44)) + 44 := by grind
    rw [hsub, UInt32.toNat_add]
    show (_ + 44) % 2 ^ 32 < 46
    omega
  obtain ⟨k', hk', hram⟩ := foldlM_startProcess_of_header [1, 2, 3, 4]
    (k := { k₀ with ram := consoleClear k₀.ram }.initProcArray) (by decide) hmagic' hnum'
  -- the loader has not panicked, so of the two ends of `start` this is the second
  rcases start_cases ramimages alg k₀ with ⟨k, hk⟩ | ⟨k, hk, hb⟩
  · exfalso
    unfold start at hk
    simp only [hk'] at hk
    cases hk
  · refine ⟨k, hk, hb, ?_⟩
    unfold start at hk
    simp only [hk'] at hk
    cases hk
    exact congrArg (fun ram => writeU32 ram cursorposAddr 0xB8000) hram

end Headers

/-! ## A machine that boots -/

/-- The process table after `start`, given the entry points. -/
def bootTable (entry : Pid → UInt32) : Pid → Process :=
  fun i => if i = 0 then .zero else bootProcess i (entry i)

theorem Booted.eq {alg : Int32} {k : Machine} (h : Booted alg k) :
    ∃ entry ram, k = ⟨bootTable entry, 1, alg, ram⟩ := by
  obtain ⟨entry, hproc⟩ := h.proc
  refine ⟨entry, k.ram, ?_⟩
  have htable : k.procArray = bootTable entry := by
    funext i
    unfold bootTable
    split
    · next hi => rw [hi, h.slot_zero]
    · next hi => exact hproc i hi
  rw [← htable, ← h.current, ← h.algorithm]

/-- Four applications that share one image, a bare ELF header at `0x110000`. -/
def bareImages : Fin 4 → Ramimage := fun _ => ⟨0x110000, 0x110034⟩

/-- A machine whose memory holds that header. -/
def bareMachine : Machine := ⟨fun _ => .zero, 0, 0, writeU32 (fun _ => 0) 0x110000 elfMagic⟩

theorem bootTable_pState {entry : Pid → UInt32} {i : Pid} :
    (bootTable entry i).pState = .pRunnable ↔ i ≠ 0 := by
  unfold bootTable
  split
  · next h => simp [Process.zero, h]
  · next h => simp [bootProcess, h]

/-- Its header is out of reach of `console_clear`. -/
theorem bare_header_out {x : UInt32} (hx : InSpan 0x110000 52 x) :
    ¬ InSpan 0xB8000 4000 x ∧ ¬ InSpan cursorposAddr 4 x :=
  ⟨(apart_of_le (a := 0xB8000) (n := 4000) (by decide) (by decide)).symm x hx,
    apart_of_le (by decide) (by decide) x hx⟩

theorem start_bare_booted (alg : Int32) : ∃ k,
    start bareImages alg bareMachine = .user 1 k (k.procArray 1).pRegisters ∧ Booted alg k ∧
      k.ram = writeU32 (consoleClear bareMachine.ram) cursorposAddr 0xB8000 := by
  have hmagic : ∀ i, readU32 bareMachine.ram (bareImages i).begin = elfMagic :=
    fun _ => readU32_writeU32 ..
  have hnum : readU16 bareMachine.ram (0x110000 + 44) = 0 := by decide
  exact start_of_header alg hmagic (fun _ => hnum)
    fun _ x hx => bare_header_out (Nat.lt_trans hx (by decide))

theorem start_bare (alg : Int32) : ∃ entry ram,
    start bareImages alg bareMachine = .user 1 ⟨bootTable entry, 1, alg, ram⟩
      (bootRegisters 1 (entry 1)) := by
  obtain ⟨k, hk, hb, -⟩ := start_bare_booted alg
  obtain ⟨entry, ram, rfl⟩ := hb.eq
  exact ⟨entry, ram, hk⟩

theorem bare_proc? (alg : Int32) : (start bareImages alg bareMachine).proc? ≠ none := by
  obtain ⟨entry, ram, h₀⟩ := start_bare alg
  rw [h₀]
  simp

/-- Nothing that runs before the applications writes to `lock`. -/
theorem start_bare_lock (alg : Int32) : (start bareImages alg bareMachine).machine.lock = 0 := by
  obtain ⟨k, hk, -, hram⟩ := start_bare_booted alg
  have hzero : readU32 bareMachine.ram lockAddr = 0 := by decide
  rw [hk]
  show readU32 k.ram lockAddr = 0
  rw [hram, readU32_writeU32_of_apart _ lock_apart_cursorpos.symm, consoleClear_lock, hzero]

end SchedOS
