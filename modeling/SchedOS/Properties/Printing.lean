import SchedOS.Properties.Programs
import SchedOS.Properties.Boot
import SchedOS.Infra.LockedLog

/-!
# Printing under the lock

`cursorpos`, `lock` and the console together are a locked log (`Infra.LockedLog`): its slots are
the addresses of the cells and the next slot is two bytes further on. `World.lockedLog` says
which log the world implements, and `exec_log_step` that every instruction is one step of it.
The invariant of the log then holds in every reachable state; what is left is to see that the
cells hold what the log says.

* `prints_once` — one process at a time, no cell written twice, and in the end `RUNCOUNT` copies
  of each character
-/

namespace SchedOS

open Infra

/-! ## The log that the world implements -/

/-- How far into a print a process is, at this instruction. -/
def Pc.phase (cpu : Registers) : Pc → Phase UInt32
  | .testLock => if cpu.regEax = 0 then .entered else .outside
  | .loadCursorpos => .entered
  | .storeCell => .read cpu.regEcx
  | .storeCursorpos => .written cpu.regEcx
  | .releaseSwap => .advanced
  | _ => .outside

def Apps.phase (apps : Apps) (p : Pid) (cpu : Registers) : Phase UInt32 :=
  match apps.decode p cpu with
  | some pc => pc.phase cpu
  | none => .outside

/-- The log. -/
def World.lockedLog (apps : Apps) (w : World) : LockedLog Pid UInt32 where
  locked := w.config.machine.lock != 0
  cursor := w.config.machine.cursorpos
  phase p := apps.phase p (w.config.regs p)
  log := w.written
  completed := w.completed

/-- The address after a cell. -/
def nextCell (cell : UInt32) : UInt32 := cell + 2

variable {alg : Int32} {apps : Apps} {t : Tick} {p q : Pid} {k : Machine} {cpu : Registers}
  {e : Exec} {w w' : World} {pc : Pc}

theorem Apps.inside_iff : apps.Inside p cpu ↔ apps.phase p cpu ≠ .outside := by
  unfold Apps.Inside Apps.phase
  cases apps.decode p cpu with
  | none => simp
  | some pc => cases pc <;> simp [Pc.phase]

theorem Apps.phase_resume : apps.phase p (apps.resume p e) = e.pc.phase e.cpu := by
  unfold Apps.phase
  rw [Apps.decode_resume]
  rfl

theorem Tracks.phase (h : Tracks apps w p pc) :
    (w.lockedLog apps).phase p = pc.phase (w.config.regs p) := by
  show apps.phase p (w.config.regs p) = _
  rw [Apps.phase, h.decode]

theorem iterate_nextCell : ∀ n : Nat, nextCell^[n] 0xB8000 = cellAddr n
  | 0 => rfl
  | n + 1 => by
    rw [Function.iterate_succ_apply', iterate_nextCell n, nextCell, cellAddr, cellAddr,
      UInt32.ofNat_add]
    grind

/-! ## Moves are steps of the log -/

/-- The log after a move. -/
def World.logAfter (apps : Apps) (w w' : World) (p : Pid) (e : Exec) : LockedLog Pid UInt32 where
  locked := readU32 e.ram lockAddr != 0
  cursor := readU32 e.ram cursorposAddr
  phase := Function.update (w.lockedLog apps).phase p (e.pc.phase e.cpu)
  log := w'.written
  completed := w'.completed

theorem Moves.lockedLog (hm : Moves apps w w' p pc e) (hknown : KnownAlgorithm alg)
    (hr : Running alg p k (k.procArray p).pRegisters) (hw : w.config = .user p k cpu)
    (hint : e.int ≠ some intSysAtomicPrint) :
    (w'.finish apps t p k e).lockedLog apps = w.logAfter apps w' p e := by
  have hw' : w'.config = .user p k cpu := hm.config.trans hw
  have hphase : (fun q => apps.phase q ((w'.finish apps t p k e).config.regs q))
      = Function.update (w.lockedLog apps).phase p (e.pc.phase e.cpu) := by
    funext q
    rw [finish_regs hr hw', hm.config]
    by_cases hq : q = p
    · rw [hq, Function.update_self, Function.update_self, Apps.phase_resume]
    · rw [Function.update_of_ne hq, Function.update_of_ne hq]
      rfl
  unfold World.lockedLog World.logAfter
  rw [hphase]
  simp only [Machine.lock, Machine.cursorpos, finish_ram hr hw' hknown hint, finish_written,
    finish_completed]

section Steps

variable (hw : w.config = .user p k cpu) (ht : Tracks apps w p pc)
include hw ht

theorem Tracks.phase_cpu : (w.lockedLog apps).phase p = pc.phase cpu := by
  rw [ht.phase, hw]
  simp [Config.regs]

/-- A move that changes neither the memory nor the phase. -/
theorem logAfter_idle (hram : e.ram = k.ram) (hphase : e.pc.phase e.cpu = pc.phase cpu)
    (hwritten : w'.written = w.written) (hcompleted : w'.completed = w.completed) :
    LockedLog.Step nextCell (w.lockedLog apps) p (w.logAfter apps w' p e) := by
  have heq : w.logAfter apps w' p e = w.lockedLog apps := by
    unfold World.logAfter
    rw [hram, hphase, ← ht.phase_cpu hw, Function.update_eq_self, hwritten, hcompleted]
    simp only [World.lockedLog, Machine.lock, Machine.cursorpos, hw, Config.machine_user]
  rw [heq]
  exact .idle

end Steps

/-- What `exec` leaves of the log at `pc`. -/
def World.logExec (apps : Apps) (w : World) (p : Pid) (k : Machine) (cpu : Registers) (pc : Pc) :
    LockedLog Pid UInt32 :=
  w.logAfter apps (w.record p cpu pc) p ((apps.program p).exec apps.runcount cpu k.ram pc)

section Instructions

variable (hw : w.config = .user p k cpu)
include hw

theorem acquireSwap_log_step (ht : Tracks apps w p .acquireSwap) :
    LockedLog.Step nextCell (w.lockedLog apps) p (w.logExec apps p k cpu .acquireSwap) := by
  have houtside : (w.lockedLog apps).phase p = .outside := ht.phase_cpu hw
  have hlocked : (w.lockedLog apps).locked = (readU32 k.ram lockAddr != 0) := by
    simp [World.lockedLog, Machine.lock, hw]
  have hafter : w.logExec apps p k cpu .acquireSwap
      = { w.lockedLog apps with
          locked := true
          phase := Function.update (w.lockedLog apps).phase p
            (Pc.testLock.phase { cpu with regEax := readU32 k.ram lockAddr }) } := by
    simp [World.logExec, World.logAfter, World.lockedLog, World.record, Program.exec, atomicSwap,
      hw, Machine.cursorpos, readU32_writeU32_of_apart _ lock_apart_cursorpos]
  rw [hafter]
  by_cases hfree : readU32 k.ram lockAddr = 0
  · simp only [Pc.phase, hfree, if_true]
    exact .acquire houtside (by simp [hlocked, hfree])
  · -- the lock is taken, and stays so
    have htrue : (w.lockedLog apps).locked = true := by simp [hlocked, hfree]
    simp only [Pc.phase, hfree, if_false]
    rw [← houtside, Function.update_eq_self, ← htrue]
    exact .idle

theorem loadCursorpos_log_step (ht : Tracks apps w p .loadCursorpos) :
    LockedLog.Step nextCell (w.lockedLog apps) p (w.logExec apps p k cpu .loadCursorpos) := by
  have hafter : w.logExec apps p k cpu .loadCursorpos
      = { w.lockedLog apps with
          phase := Function.update (w.lockedLog apps).phase p
            (.read (w.lockedLog apps).cursor) } := by
    simp [World.logExec, World.logAfter, World.lockedLog, World.record, Program.exec, Pc.phase, hw,
      Machine.cursorpos, Machine.lock]
  rw [hafter]
  exact .read (ht.phase_cpu hw)

/-- The cell must not be where the shared variables are. -/
theorem storeCell_log_step (ht : Tracks apps w p .storeCell) {i : Nat} (hi : i < 2000)
    (hecx : cpu.regEcx = cellAddr i) :
    LockedLog.Step nextCell (w.lockedLog apps) p (w.logExec apps p k cpu .storeCell) := by
  have hlock : Apart cpu.regEcx 2 lockAddr 4 := hecx ▸ cell_apart_lock hi
  have hcursorpos : Apart cpu.regEcx 2 cursorposAddr 4 := hecx ▸ cell_apart_cursorpos hi
  have hafter : w.logExec apps p k cpu .storeCell
      = { w.lockedLog apps with
          phase := Function.update (w.lockedLog apps).phase p (.written cpu.regEcx)
          log := (w.lockedLog apps).log ++ [(p, cpu.regEcx)] } := by
    simp [World.logExec, World.logAfter, World.lockedLog, World.record, Program.exec, Pc.phase, hw,
      Machine.cursorpos, Machine.lock, readU32_writeU16_of_apart _ hlock,
      readU32_writeU16_of_apart _ hcursorpos]
  rw [hafter]
  exact .write (ht.phase_cpu hw)

theorem storeCursorpos_log_step (ht : Tracks apps w p .storeCursorpos) :
    LockedLog.Step nextCell (w.lockedLog apps) p (w.logExec apps p k cpu .storeCursorpos) := by
  have hafter : w.logExec apps p k cpu .storeCursorpos
      = { w.lockedLog apps with
          phase := Function.update (w.lockedLog apps).phase p .advanced
          cursor := nextCell cpu.regEcx } := by
    simp [World.logExec, World.logAfter, World.lockedLog, World.record, Program.exec, Pc.phase, hw,
      nextCell, Machine.lock, readU32_writeU32_of_apart _ lock_apart_cursorpos.symm]
  rw [hafter]
  exact .advance (ht.phase_cpu hw)

theorem releaseSwap_log_step (ht : Tracks apps w p .releaseSwap) :
    LockedLog.Step nextCell (w.lockedLog apps) p (w.logExec apps p k cpu .releaseSwap) := by
  have hafter : w.logExec apps p k cpu .releaseSwap
      = { w.lockedLog apps with
          locked := false
          phase := Function.update (w.lockedLog apps).phase p .outside
          completed := Function.update (w.lockedLog apps).completed p
            ((w.lockedLog apps).completed p + 1) } := by
    simp [World.logExec, World.logAfter, World.lockedLog, World.record, Program.exec, atomicSwap,
      Pc.phase, hw, Machine.cursorpos, readU32_writeU32_of_apart _ lock_apart_cursorpos]
  rw [hafter]
  exact .release (ht.phase_cpu hw)

/-- **Every instruction is a step of the log.** -/
theorem exec_log_step (ht : Tracks apps w p pc)
    (hcell : pc = .storeCell → ∃ i, i < 2000 ∧ cpu.regEcx = cellAddr i) :
    LockedLog.Step nextCell (w.lockedLog apps) p (w.logExec apps p k cpu pc) := by
  cases pc
  case acquireSwap => exact acquireSwap_log_step hw ht
  case loadCursorpos => exact loadCursorpos_log_step hw ht
  case storeCell =>
    obtain ⟨i, hi, hecx⟩ := hcell rfl
    exact storeCell_log_step hw ht hi hecx
  case storeCursorpos => exact storeCursorpos_log_step hw ht
  case releaseSwap => exact releaseSwap_log_step hw ht
  case testLock =>
    refine logAfter_idle hw ht rfl ?_ rfl rfl
    by_cases hval : cpu.regEax = 0 <;> simp [Program.exec, Pc.phase, hval]
  case testI =>
    refine logAfter_idle hw ht rfl ?_ rfl rfl
    simp only [Program.exec]
    split <;> rfl
  -- nothing that is shared is touched
  all_goals exact logAfter_idle hw ht rfl rfl rfl rfl

end Instructions

/-! ## The invariant -/

/-- What holds of the world at any time: no process is lost, the shared variables are a locked
log, and the console shows what the log says. -/
structure World.Inv (apps : Apps) (scheduling_algorithm : Int32) (ram₀ : Mem) (w : World) : Prop
    extends World.OnTrack apps scheduling_algorithm w where
  log : (w.lockedLog apps).Inv nextCell 0xB8000
  printed : ∀ x ∈ w.written,
    readU16 w.config.machine.ram x.2 = (apps.program x.1).printchar
  /-- From the first cell that is not written on, the console is as `start` has left it. -/
  blank : ∀ i, w.written.length ≤ i → i < 2000 →
    readU16 w.config.machine.ram (cellAddr i) = readU16 ram₀ (cellAddr i)

section Bounds

variable {runcount done : Nat} {i : UInt32}

/-- No process prints more often than `RUNCOUNT` times. -/
theorem accounts_uncounted_le (h : pc.Accounts runcount done i) :
    done + (pc.phase cpu).uncounted ≤ runcount := by
  cases pc
  case testLock =>
    have hlt : done < runcount := h.2
    simp only [Pc.phase]
    split <;> simp [Phase.uncounted] <;> omega
  all_goals simp only [Pc.Accounts] at h; simp only [Pc.phase, Phase.uncounted]; omega

/-- The prints of all processes together. -/
theorem sum_runcount (runcount : Nat) :
    ∑ q : Pid, (if q = 0 then 0 else runcount) = 4 * runcount := by
  rw [Fin.sum_univ_five]
  simp
  omega

variable {ram₀ : Mem} (h : w.Inv apps alg ram₀)
include h

theorem World.Inv.countP_le (q : Pid) :
    w.written.countP (fun x => x.1 = q) ≤ if q = 0 then 0 else apps.runcount := by
  obtain ⟨pc, ht⟩ := h.tracks q
  have hcount := h.log.counts q
  rw [ht.phase] at hcount
  have hle : w.completed q + (pc.phase (w.config.regs q)).uncounted ≤ apps.runcount :=
    accounts_uncounted_le ht.accounts
  have hcount' : w.written.countP (fun x => x.1 = q)
      = w.completed q + (pc.phase (w.config.regs q)).uncounted := hcount
  by_cases hq : q = 0
  · -- entry 0 has not even begun
    obtain rfl := ht.idle hq
    have hdone : w.completed q = 0 := ht.accounts
    rw [hcount', hdone, if_pos hq]
    simp [Pc.phase, Phase.uncounted]
  · rw [hcount', if_neg hq]
    exact hle

theorem World.Inv.written_le : w.written.length ≤ 4 * apps.runcount := by
  rw [LockedLog.length_eq_sum_countP, ← sum_runcount]
  exact Finset.sum_le_sum fun q _ => h.countP_le q

/-- A process that is about to write a cell has not used up its prints. -/
theorem World.Inv.written_lt (hp : p ≠ 0) (ht : Tracks apps w p .storeCell) :
    w.written.length < 4 * apps.runcount := by
  rw [LockedLog.length_eq_sum_countP, ← sum_runcount]
  refine Finset.sum_lt_sum (fun q _ => h.countP_le q) ⟨p, Finset.mem_univ p, ?_⟩
  have hcount := h.log.counts p
  rw [ht.phase] at hcount
  have hlt : w.completed p < apps.runcount := ht.accounts.2
  have hcount' : w.written.countP (fun x => x.1 = p) = w.completed p + 0 := hcount
  rw [hcount', if_neg hp]
  exact hlt

/-- The cells are written from the first on, in order. -/
theorem World.Inv.slots :
    w.written.map Prod.snd = (List.range w.written.length).map cellAddr := by
  have hslots := h.log.slots
  simp only [iterate_nextCell] at hslots
  exact hslots

theorem World.Inv.exists_cell {x : Pid × UInt32} (hx : x ∈ w.written) :
    ∃ i, i < w.written.length ∧ x.2 = cellAddr i := by
  have hmem : x.2 ∈ w.written.map Prod.snd := List.mem_map_of_mem hx
  rw [h.slots, List.mem_map] at hmem
  obtain ⟨i, hi, hxi⟩ := hmem
  exact ⟨i, List.mem_range.mp hi, hxi.symm⟩

/-- The cells hold what their writers have printed. -/
theorem World.Inv.cells :
    ((List.range w.written.length).map fun i => readU16 w.config.machine.ram (cellAddr i))
      = (w.written.map Prod.fst).map fun p => (apps.program p).printchar := by
  have hread : (w.written.map Prod.snd).map (readU16 w.config.machine.ram)
      = (w.written.map Prod.fst).map fun p => (apps.program p).printchar := by
    rw [List.map_map, List.map_map]
    exact List.map_congr_left h.printed
  rw [← hread, h.slots, List.map_map]
  rfl

/-- The process that has read `cursorpos` writes the first cell that is not written. -/
theorem World.Inv.storeCell_ecx (hw : w.config = .user p k cpu)
    (ht : Tracks apps w p .storeCell) : cpu.regEcx = cellAddr w.written.length := by
  have hphase := ht.phase_cpu hw
  have hcursor := h.log.holder p (by rw [hphase]; simp [Pc.phase])
  rw [hphase] at hcursor
  obtain ⟨-, hecx⟩ := hcursor
  rw [iterate_nextCell] at hecx
  exact hecx

end Bounds

/-! ## Steps keep it -/

/-- Only one instruction writes to the console. -/
theorem exec_cell {program : Program} {runcount : Nat} {ram : Mem} (hpc : pc ≠ .storeCell) {i : Nat}
    (hi : i < 2000) : readU16 (program.exec runcount cpu ram pc).ram (cellAddr i)
      = readU16 ram (cellAddr i) := by
  cases pc
  case storeCell => exact absurd rfl hpc
  case acquireSwap => exact readU16_writeU32_of_apart 1 (cell_apart_lock hi).symm
  case releaseSwap => exact readU16_writeU32_of_apart 0 (cell_apart_lock hi).symm
  case storeCursorpos => exact readU16_writeU32_of_apart _ (cell_apart_cursorpos hi).symm
  all_goals rfl

theorem record_written (hpc : pc ≠ .storeCell) : (w.record p cpu pc).written = w.written := by
  cases pc
  case storeCell => exact absurd rfl hpc
  all_goals rfl

section Steps

variable {ram₀ : Mem} (h : w.Inv apps alg ram₀) (hknown : KnownAlgorithm alg)
  (hr : Running alg p k (k.procArray p).pRegisters) (hw : w.config = .user p k cpu)
  (ht : Tracks apps w p pc)
include h hknown hr hw ht

theorem Moves.inv (hm : Moves apps w w' p pc e) (hint : e.int ≠ some intSysAtomicPrint)
    (hstep : LockedLog.Step nextCell (w.lockedLog apps) p (w.logAfter apps w' p e))
    (hprinted : ∀ x ∈ w'.written, readU16 e.ram x.2 = (apps.program x.1).printchar)
    (hblank : ∀ i, w'.written.length ≤ i → i < 2000 →
      readU16 e.ram (cellAddr i) = readU16 ram₀ (cellAddr i)) :
    (w'.finish apps t p k e).Inv apps alg ram₀ := by
  have hram : (w'.finish apps t p k e).config.machine.ram = e.ram :=
    finish_ram hr (hm.config.trans hw) hknown hint
  refine { hm.onTrack h.toOnTrack hr hw ht with log := ?_, printed := ?_, blank := ?_ }
  · rw [hm.lockedLog hknown hr hw hint]
    exact hstep.inv h.log
  · rw [finish_written, hram]
    exact hprinted
  · rw [finish_written, hram]
    exact hblank

/-- An instruction that does not write a cell. -/
theorem World.Inv.instr (hrun : 4 * apps.runcount ≤ 2000) (hpc : pc ≠ .hang)
    (hcell : pc ≠ .storeCell) :
    ((w.record p cpu pc).finish apps t p k
      ((apps.program p).exec apps.runcount cpu k.ram pc)).Inv apps alg ram₀ := by
  refine (moves_exec (by omega) ht hw hpc).inv h hknown hr hw ht exec_int_ne ?_ ?_ ?_
  · exact exec_log_step hw ht fun he => absurd he hcell
  · rw [record_written hcell]
    intro x hx
    have hle := h.written_le
    obtain ⟨i, hi, hxi⟩ := h.exists_cell hx
    have hprinted := h.printed x hx
    rw [hw, hxi] at hprinted
    rw [hxi, exec_cell hcell (by omega)]
    exact hprinted
  · rw [record_written hcell]
    intro i hlen hi
    have hblank := h.blank i hlen hi
    rw [hw] at hblank
    rw [exec_cell hcell hi]
    exact hblank

end Steps

/-- The instruction that writes a cell. -/
theorem World.Inv.storeCell {ram₀ : Mem} (h : w.Inv apps alg ram₀) (hknown : KnownAlgorithm alg)
    (hr : Running alg p k (k.procArray p).pRegisters) (hw : w.config = .user p k cpu)
    (ht : Tracks apps w p .storeCell) (hrun : 4 * apps.runcount ≤ 2000) :
    ((w.record p cpu .storeCell).finish apps t p k
      ((apps.program p).exec apps.runcount cpu k.ram .storeCell)).Inv apps alg ram₀ := by
  have hlt : w.written.length < 2000 := by
    have hlt := h.written_lt hr.ne_zero ht
    omega
  have hecx := h.storeCell_ecx hw ht
  have hne : Pc.storeCell ≠ .hang := by decide
  refine (moves_exec (by omega) ht hw hne).inv h hknown hr hw ht exec_int_ne ?_ ?_ ?_
  · exact exec_log_step hw ht fun _ => ⟨_, hlt, hecx⟩
  · -- the new cell is none of the old ones, and it gets the character of its writer
    intro x hx
    rcases List.mem_append.mp hx with hx | hx
    · obtain ⟨i, hi, hxi⟩ := h.exists_cell hx
      have hprinted := h.printed x hx
      rw [hw, hxi] at hprinted
      show readU16 (writeU16 k.ram cpu.regEcx _) _ = _
      rw [hxi, hecx, readU16_writeU16_of_apart _ (cell_apart hlt (by omega) (by omega))]
      exact hprinted
    · obtain rfl := List.mem_singleton.mp hx
      exact readU16_writeU16 ..
  · intro i hlen hi
    have hlen' : w.written.length + 1 ≤ i := by simpa [World.record] using hlen
    have hblank := h.blank i (by omega) hi
    rw [hw] at hblank
    show readU16 (writeU16 k.ram cpu.regEcx _) _ = _
    rw [hecx, readU16_writeU16_of_apart _ (cell_apart hlt hi (by omega))]
    exact hblank

/-- **Every step of the world keeps the invariant.** -/
theorem World.Steps.inv {ram₀ : Mem} (hstep : World.Steps apps alg t w w')
    (hknown : KnownAlgorithm alg) (hrun : 4 * apps.runcount ≤ 2000) (h : w.Inv apps alg ram₀) :
    w'.Inv apps alg ram₀ := by
  cases hstep with
  | spinning _ => exact h
  | clock _ hw hr ht hpc =>
    have hint : some intClock ≠ some intSysAtomicPrint := by decide
    refine (moves_clock ht hw hpc).inv h hknown hr hw ht hint ?_ ?_ ?_
    · exact logAfter_idle hw ht rfl rfl rfl rfl
    · have hprinted := h.printed
      rwa [hw] at hprinted
    · have hblank := h.blank
      rwa [hw] at hblank
  | @instr p k cpu pc _ hw hr ht hpc =>
    by_cases hcell : pc = .storeCell
    · subst hcell
      exact h.storeCell hknown hr hw ht hrun
    · exact h.instr hknown hr hw ht hrun hpc hcell

section Runs

variable {ramimages : Fin 4 → Ramimage} {k₀ : Machine} {program : Pid → Program} {runcount : Nat}

theorem boot_inv (hboot : (start ramimages alg k₀).proc? ≠ none)
    (hlock : (start ramimages alg k₀).machine.lock = 0) :
    (World.boot (start ramimages alg k₀)).Inv (.load program runcount (start ramimages alg k₀))
      alg (start ramimages alg k₀).machine.ram where
  valid := boot_valid
  tracks p := ⟨.sysSetPriority, boot_tracks program runcount hboot p⟩
  log := by
    refine .init ?_ ?_ (fun p => ?_) rfl fun _ => rfl
    · simp [World.lockedLog, World.boot, hlock]
    · obtain ⟨k, hk, hb⟩ := start_booted hboot
      rw [hk]
      exact hb.cursorpos
    · rw [(boot_tracks program runcount hboot p).phase]
      rfl
  printed x hx := absurd hx List.not_mem_nil
  blank _ _ _ := rfl

/-- **The invariant holds in every reachable state.** -/
theorem world_inv (program : Pid → Program) (hknown : KnownAlgorithm alg)
    (hrun : 4 * runcount ≤ 2000) (hboot : (start ramimages alg k₀).proc? ≠ none)
    (hlock : (start ramimages alg k₀).machine.lock = 0) (ticks : Nat → Tick) (n : Nat) :
    (world program runcount (start ramimages alg k₀) ticks n).Inv
      (.load program runcount (start ramimages alg k₀)) alg
      (start ramimages alg k₀).machine.ram :=
  states_invariant (fun t _ h => (h.toOnTrack.steps t).inv hknown hrun h) (boot_inv hboot hlock) n

end Runs

/-! ## No output is lost or duplicated -/

/-- What the applications have done to the console in `w`; `ram₀` is the memory that they found. -/
structure PrintsOnce (apps : Apps) (ram₀ : Mem) (w : World) : Prop where
  /-- At most one process is between its acquiring and its releasing `atomic_swap`. -/
  exclusive : ∀ p q, apps.Inside p (w.config.regs p) → apps.Inside q (w.config.regs q) → p = q
  /-- While none is, every cell that has been written belongs to a completed print. -/
  balanced : (∀ p, ¬ apps.Inside p (w.config.regs p)) →
    w.config.machine.cursorpos = 0xB8000 + 2 * UInt32.ofNat (∑ p, w.completed p) ∧
      w.written.length = ∑ p, w.completed p
  nodup : (w.written.map Prod.snd).Nodup
  /-- What has been written is there, and nothing else on the console has changed. -/
  printed : ∀ x ∈ w.written, readU16 w.config.machine.ram x.2 = (apps.program x.1).printchar
  unwritten : ∀ i, i < 2000 → cellAddr i ∉ w.written.map Prod.snd →
    readU16 w.config.machine.ram (cellAddr i) = readU16 ram₀ (cellAddr i)
  /-- When all four have exited, the first `4 * RUNCOUNT` cells are what they have written, with
  `RUNCOUNT` copies of the character of each. -/
  exited : (∀ p, p ≠ 0 → (w.config.machine.procArray p).pState = .pZombie) →
    w.written.map Prod.snd = (List.range (4 * apps.runcount)).map cellAddr ∧
      ((List.range (4 * apps.runcount)).map fun i =>
          readU16 w.config.machine.ram (cellAddr i)).Perm
        ([1, 2, 3, 4].flatMap fun p =>
          List.replicate apps.runcount (apps.program p).printchar)

/-- The four processes, each `n` times. -/
theorem count_four (n : Nat) (q : Pid) :
    ([1, 2, 3, 4].flatMap fun p : Pid => List.replicate n p).count q
      = if q = 0 then 0 else n := by
  have hq : q = 0 ∨ q = 1 ∨ q = 2 ∨ q = 3 ∨ q = 4 := by
    revert q
    decide
  rcases hq with rfl | rfl | rfl | rfl | rfl <;> simp [List.count_replicate]

section PrintsOnce

variable {ram₀ : Mem} (h : w.Inv apps alg ram₀)
include h

/-- While nobody is inside, the lock is free. -/
theorem World.Inv.not_locked (hout : ∀ p, (w.lockedLog apps).phase p = .outside) :
    (w.lockedLog apps).locked = false := by
  rw [← Bool.not_eq_true, h.log.locked_iff]
  rintro ⟨p, hp⟩
  exact hp (hout p)

theorem World.Inv.lock_free (hout : ∀ p, (w.lockedLog apps).phase p = .outside) :
    w.config.machine.lock = 0 := by
  simpa [World.lockedLog] using h.not_locked hout

theorem World.Inv.balanced (hout : ∀ p, ¬ apps.Inside p (w.config.regs p)) :
    w.config.machine.cursorpos = 0xB8000 + 2 * UInt32.ofNat (∑ p, w.completed p) ∧
      w.written.length = ∑ p, w.completed p := by
  have hphase : ∀ p, (w.lockedLog apps).phase p = .outside :=
    fun p => by_contra fun hne => hout p (Apps.inside_iff.mpr hne)
  have htotal : w.written.length = ∑ p, w.completed p := h.log.total hphase
  refine ⟨?_, htotal⟩
  have hcursor := h.log.free (h.not_locked hphase)
  rw [iterate_nextCell] at hcursor
  rw [← htotal]
  exact hcursor

theorem World.Inv.nodup (hrun : 4 * apps.runcount ≤ 2000) : (w.written.map Prod.snd).Nodup := by
  rw [h.slots]
  refine List.Nodup.map_on (fun i hi j hj hij => ?_) List.nodup_range
  have hle := h.written_le
  have hi := List.mem_range.mp hi
  have hj := List.mem_range.mp hj
  have hval := congrArg UInt32.toNat hij
  rw [cellAddr_toNat (by omega), cellAddr_toNat (by omega)] at hval
  omega

theorem World.Inv.unwritten {i : Nat} (hi : i < 2000)
    (hmem : cellAddr i ∉ w.written.map Prod.snd) :
    readU16 w.config.machine.ram (cellAddr i) = readU16 ram₀ (cellAddr i) := by
  refine h.blank i ?_ hi
  by_contra hlt
  rw [h.slots] at hmem
  exact hmem (List.mem_map_of_mem (List.mem_range.mpr (Nat.lt_of_not_le hlt)))

section Exited

variable (hexit : ∀ p, p ≠ 0 → (w.config.machine.procArray p).pState = .pZombie)
include hexit

theorem World.Inv.tracks_hang {q : Pid} (hq : q ≠ 0) : Tracks apps w q .hang := by
  obtain ⟨pc, ht⟩ := h.tracks q
  have hstate := ht.pState
  rw [hexit q hq] at hstate
  by_cases hpc : pc = .hang
  · rwa [hpc] at ht
  · simp [hpc, hq] at hstate

/-- Who has exited is not inside. -/
theorem World.Inv.phase_exited (q : Pid) : (w.lockedLog apps).phase q = .outside := by
  by_cases hq : q = 0
  · obtain ⟨pc, ht⟩ := h.tracks q
    rw [ht.phase, ht.idle hq]
    rfl
  · rw [(h.tracks_hang hexit hq).phase]
    rfl

/-- Who has exited has printed `RUNCOUNT` times. -/
theorem World.Inv.countP_exited (q : Pid) :
    w.written.countP (fun x => x.1 = q) = if q = 0 then 0 else apps.runcount := by
  by_cases hq : q = 0
  · have hle := h.countP_le q
    rw [if_pos hq] at hle ⊢
    omega
  · have ht := h.tracks_hang hexit hq
    have hcount := h.log.counts q
    rw [ht.phase] at hcount
    have hdone : w.completed q = apps.runcount := ht.accounts
    have hcount' : w.written.countP (fun x => x.1 = q) = w.completed q + 0 := hcount
    rw [hcount', hdone, if_neg hq, Nat.add_zero]

theorem World.Inv.exited :
    w.written.map Prod.snd = (List.range (4 * apps.runcount)).map cellAddr ∧
      ((List.range (4 * apps.runcount)).map fun i =>
          readU16 w.config.machine.ram (cellAddr i)).Perm
        ([1, 2, 3, 4].flatMap fun p =>
          List.replicate apps.runcount (apps.program p).printchar) := by
  have hcount := h.countP_exited hexit
  have hlen : w.written.length = 4 * apps.runcount := by
    rw [LockedLog.length_eq_sum_countP, ← sum_runcount]
    exact Finset.sum_congr rfl fun q _ => hcount q
  have hslots := h.slots
  rw [hlen] at hslots
  refine ⟨hslots, ?_⟩
  -- what the cells hold is what the writers have printed, …
  have hcells : ((List.range (4 * apps.runcount)).map fun i =>
      readU16 w.config.machine.ram (cellAddr i))
      = (w.written.map Prod.fst).map fun p => (apps.program p).printchar := by
    rw [← hlen]
    exact h.cells
  -- … and each of the four occurs `RUNCOUNT` times among them
  have hperm : (w.written.map Prod.fst).Perm
      ([1, 2, 3, 4].flatMap fun p : Pid => List.replicate apps.runcount p) := by
    rw [List.perm_iff_count]
    intro q
    have hq : (w.written.map Prod.fst).count q = w.written.countP (fun x => x.1 = q) := by
      rw [List.count, List.countP_map]
      rfl
    rw [hq, hcount q, count_four]
  rw [hcells]
  simpa [List.flatMap, List.map_append, List.map_replicate]
    using hperm.map fun p => (apps.program p).printchar

end Exited

end PrintsOnce

/-- **No output is lost or duplicated**, under every algorithm and in every order of steps. -/
theorem prints_once (ramimages : Fin 4 → Ramimage) (alg : Int32) (k₀ : Machine)
    (program : Pid → Program) (runcount : Nat) (ticks : Nat → Tick) (n : Nat)
    (hknown : KnownAlgorithm alg) (hrun : 4 * runcount ≤ 2000)
    (hboot : (start ramimages alg k₀).proc? ≠ none)
    (hlock : (start ramimages alg k₀).machine.lock = 0) :
    PrintsOnce (.load program runcount (start ramimages alg k₀))
      (start ramimages alg k₀).machine.ram
      (world program runcount (start ramimages alg k₀) ticks n) := by
  have h := world_inv program hknown hrun hboot hlock ticks n
  constructor
  · intro p q hp hq
    exact h.log.exclusive p q (Apps.inside_iff.mp hp) (Apps.inside_iff.mp hq)
  · exact h.balanced
  · exact h.nodup hrun
  · exact h.printed
  · exact fun i hi hmem => h.unwritten hi hmem
  · exact h.exited

/-- A clock interrupt comes before every third instruction. -/
def thirdTicks (n : Nat) : Tick := ⟨n % 3 == 2, fun i => UInt64.ofNat (n + i), nprocs⟩

theorem prints_once_shipped :
    PrintsOnce (.load shippedProgram shippedRuncount (start bareImages 0 bareMachine))
      (start bareImages 0 bareMachine).machine.ram
      (world shippedProgram shippedRuncount (start bareImages 0 bareMachine) thirdTicks 1000) :=
  prints_once bareImages 0 bareMachine shippedProgram shippedRuncount thirdTicks 1000
    (Or.inl rfl) (by decide) (bare_proc? 0) (start_bare_lock 0)

end SchedOS
