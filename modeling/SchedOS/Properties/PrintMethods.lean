import SchedOS.Properties.Printing

/-!
# The two print methods

A character is printed either by the application itself, under the lock, or by the kernel
(`sys_atomic_print`). The kernel passes it through a `char`, which is signed, and so loses the
colour: what arrives in the cell is the low byte with its sign bit repeated in the high one.

* `print_methods_iff` — the two leave the same on the console exactly for the values on which
  that makes no difference, in any state and after any sequence of prints
-/

namespace SchedOS

open Infra

/-! ## Through a `char` and back -/

/-- The value survives the conversion to `char`: it has no colour, or all bits of the colour
are set and the sign bit of the character too. -/
def Plain (c : UInt16) : Prop := c < 0x80 ∨ 0xFF80 ≤ c

instance (c : UInt16) : Decidable (Plain c) := by
  unfold Plain
  infer_instance

/-- What is left of `c` after the conversions of `*cursorpos++ = (char) c`. -/
def widened (c : UInt32) : UInt16 := c.toUInt8.toInt8.toInt16.toUInt16

theorem widened_toNat (c : UInt32) : (widened c).toNat
    = c.toNat % 256 + if c.toNat % 256 < 128 then 0 else 65280 := by
  have hbits : (widened c).toBitVec = c.toUInt8.toBitVec.signExtend 16 := rfl
  have hnat : (widened c).toNat = (c.toUInt8.toBitVec.signExtend 16).toNat := by
    rw [← hbits]
    rfl
  have hlow : c.toUInt8.toBitVec.toNat = c.toNat % 256 := UInt32.toNat_toUInt8 c
  rw [hnat, BitVec.toNat_signExtend, BitVec.toNat_setWidth, BitVec.msb_eq_decide, hlow]
  simp only [decide_eq_true_eq]
  split <;> split <;> omega

/-- The character itself always arrives … -/
theorem widened_low (c : UInt16) :
    UInt8.ofNat (widened c.toUInt32).toNat = UInt8.ofNat c.toNat := by
  refine UInt8.toNat_inj.mp ?_
  rw [UInt8.toNat_ofNat', UInt8.toNat_ofNat', widened_toNat, UInt16.toNat_toUInt32]
  split <;> omega

/-- … and the colour if the value is plain. -/
theorem widened_high_iff (c : UInt16) :
    UInt8.ofNat ((widened c.toUInt32).toNat / 256) = UInt8.ofNat (c.toNat / 256) ↔ Plain c := by
  have hc := c.toNat_lt
  rw [← UInt8.toNat_inj, UInt8.toNat_ofNat', UInt8.toNat_ofNat', widened_toNat,
    UInt16.toNat_toUInt32, Plain, UInt16.lt_iff_toNat_lt, UInt16.le_iff_toNat_le,
    show (0x80 : UInt16).toNat = 128 from rfl, show (0xFF80 : UInt16).toNat = 65408 from rfl]
  split <;> omega

theorem widened_eq_iff (c : UInt16) : widened c.toUInt32 = c ↔ Plain c := by
  have hc := c.toNat_lt
  rw [← UInt16.toNat_inj, widened_toNat, UInt16.toNat_toUInt32, Plain, UInt16.lt_iff_toNat_lt,
    UInt16.le_iff_toNat_le, show (0x80 : UInt16).toNat = 128 from rfl,
    show (0xFF80 : UInt16).toNat = 65408 from rfl]
  split <;> omega

/-! ## A print -/

/-- A print of the character of `program` by process `proc`. -/
structure Print where
  proc : Pid
  program : Program
  /-- The registers of the process. -/
  cpu : Registers
  /-- The readings of the cycle counter, and the passes of the scheduling loop, in a call of
  the kernel. -/
  tsc : Nat → UInt64
  fuel : Nat

/-- `n` instructions of a program, none of which is an `int`. -/
def Program.execs (program : Program) (runcount : Nat) : Nat → Exec → Exec
  | 0, e => e
  | n + 1, e => program.execs runcount n (program.exec runcount e.cpu e.ram e.pc)

/-- The six instructions from the acquiring to the releasing `atomic_swap`. -/
def Print.execs (x : Print) (ram : Mem) : Exec :=
  x.program.execs shippedRuncount 6 ⟨.acquireSwap, x.cpu, ram, none⟩

/-- With `__PRINT_METHOD_LOCK__`. -/
def Print.lock (x : Print) (k : Machine) : Machine := { k with ram := (x.execs k.ram).ram }

/-- The interrupt that `sys_atomic_print` causes. -/
def Print.trap (x : Print) (ram : Mem) : Trap where
  reg := { x.cpu with regEax := x.program.printchar.toUInt32, regIntno := intSysAtomicPrint }
  ram := ram
  tsc := x.tsc
  fuel := x.fuel

/-- Without it: the machine when the kernel has done its work. -/
def Print.atomic (x : Print) (k : Machine) : Machine :=
  ((Config.user x.proc k x.cpu).trap (x.trap k.ram)).machine

/-- The same on the console, and the same cursor. -/
structure SameScreen (k k' : Machine) : Prop where
  console : ∀ a, InSpan 0xB8000 4000 a → k'.ram a = k.ram a
  cursorpos : k'.cursorpos = k.cursorpos

/-- What printing `c` in the state `k` should do to the console. -/
structure Printed (c : UInt16) (k k' : Machine) : Prop where
  cell : readU16 k'.ram k.cursorpos = c
  others : ∀ a, InSpan 0xB8000 4000 a → ¬ InSpan k.cursorpos 2 a → k'.ram a = k.ram a
  cursorpos : k'.cursorpos = k.cursorpos + 2

section Print

variable {x : Print} {k : Machine}

theorem writeU16_eq (m : Mem) (a : UInt32) (v : UInt16) : writeU16 m a v
    = (m.write a (UInt8.ofNat v.toNat)).write (a + 1) (UInt8.ofNat (v.toNat / 256)) := rfl

/-- What an application does under the lock … -/
theorem Print.lock_ram (hfree : k.lock = 0) : (x.lock k).ram
    = writeU32 (writeU32 (writeU16 (writeU32 k.ram lockAddr 1) k.cursorpos x.program.printchar)
        cursorposAddr (k.cursorpos + 2)) lockAddr 0 := by
  have hcursor : readU32 (writeU32 k.ram lockAddr 1) cursorposAddr = k.cursorpos :=
    readU32_writeU32_of_apart 1 lock_apart_cursorpos
  have hval : readU32 k.ram lockAddr = 0 := hfree
  simp only [Print.lock, Print.execs, Program.execs, Program.exec, atomicSwap, hval, hcursor,
    ne_eq, not_true_eq_false, if_false]

/-- … and what the kernel does. -/
theorem Print.atomic_ram (hknown : KnownAlgorithm k.schedulingAlgorithm) : (x.atomic k).ram
    = writeU32 (writeU16 k.ram k.cursorpos (widened x.program.printchar.toUInt32)) cursorposAddr
        (k.cursorpos + 2) := by
  rw [Print.atomic, trap_ram_call _ _ _ _ hknown]
  rfl

theorem Print.lock_console (hfree : k.lock = 0) {a : UInt32} (ha : InSpan 0xB8000 4000 a) :
    (x.lock k).ram a = if a = k.cursorpos + 1 then UInt8.ofNat (x.program.printchar.toNat / 256)
      else if a = k.cursorpos then UInt8.ofNat x.program.printchar.toNat else k.ram a := by
  have hlock := console_apart_lock a ha
  rw [Print.lock_ram hfree, writeU32_of_not_inSpan _ _ hlock,
    writeU32_of_not_inSpan _ _ (console_apart_cursorpos a ha), writeU16_eq]
  simp only [Mem.write, Function.update_apply, writeU32_of_not_inSpan _ _ hlock]

theorem Print.atomic_console (hknown : KnownAlgorithm k.schedulingAlgorithm) {a : UInt32}
    (ha : InSpan 0xB8000 4000 a) : (x.atomic k).ram a
      = if a = k.cursorpos + 1 then
          UInt8.ofNat ((widened x.program.printchar.toUInt32).toNat / 256)
        else if a = k.cursorpos then UInt8.ofNat x.program.printchar.toNat else k.ram a := by
  rw [Print.atomic_ram hknown,
    writeU32_of_not_inSpan _ _ (console_apart_cursorpos a ha), writeU16_eq,
    widened_low]
  simp only [Mem.write, Function.update_apply]

theorem Print.lock_cursorpos (hfree : k.lock = 0) : (x.lock k).cursorpos = k.cursorpos + 2 := by
  rw [Machine.cursorpos, Print.lock_ram hfree, readU32_writeU32_of_apart _ lock_apart_cursorpos,
    readU32_writeU32]

theorem Print.atomic_cursorpos (hknown : KnownAlgorithm k.schedulingAlgorithm) :
    (x.atomic k).cursorpos = k.cursorpos + 2 := by
  rw [Machine.cursorpos, Print.atomic_ram hknown, readU32_writeU32]

/-- The lock is free again. -/
theorem Print.lock_lock (hfree : k.lock = 0) : (x.lock k).lock = 0 := by
  rw [Machine.lock, Print.lock_ram hfree, readU32_writeU32]

theorem Print.atomic_algorithm : (x.atomic k).schedulingAlgorithm = k.schedulingAlgorithm :=
  trap_algorithm ..

end Print

/-! ## One print by either method -/

section Single

variable {x : Print} {k k' : Machine}

/-- **One print.** -/
theorem SameScreen.print_iff (h : SameScreen k k') (hfree : k.lock = 0)
    (hknown : KnownAlgorithm k'.schedulingAlgorithm) : SameScreen (x.lock k) (x.atomic k') ↔
      (InSpan 0xB8000 4000 (k.cursorpos + 1) → Plain x.program.printchar) := by
  constructor
  · -- the high byte of the cell tells
    intro hsame hon
    have hhigh := hsame.console _ hon
    rw [Print.lock_console hfree hon, Print.atomic_console hknown hon, h.cursorpos, if_pos rfl,
      if_pos rfl] at hhigh
    exact (widened_high_iff _).mp hhigh
  · intro hplain
    constructor
    · intro a ha
      rw [Print.lock_console hfree ha, Print.atomic_console hknown ha, h.cursorpos, h.console a ha]
      by_cases hhigh : a = k.cursorpos + 1
      · rw [if_pos hhigh, if_pos hhigh, (widened_high_iff _).mpr (hplain (hhigh ▸ ha))]
      · rw [if_neg hhigh, if_neg hhigh]
    · rw [Print.lock_cursorpos hfree, Print.atomic_cursorpos hknown, h.cursorpos]

theorem SameScreen.refl (k : Machine) : SameScreen k k := ⟨fun _ _ => rfl, rfl⟩

section Cell

variable {i : Nat} (hi : i < 2000) (hcursor : k.cursorpos = cellAddr i)
include hi hcursor

/-- The application prints what it is asked to. -/
theorem Print.lock_printed (hfree : k.lock = 0) : Printed x.program.printchar k (x.lock k) := by
  have hlock : Apart lockAddr 4 k.cursorpos 2 := hcursor ▸ (cell_apart_lock hi).symm
  have hpos : Apart cursorposAddr 4 k.cursorpos 2 := hcursor ▸ (cell_apart_cursorpos hi).symm
  constructor
  · rw [Print.lock_ram hfree, readU16_writeU32_of_apart _ hlock, readU16_writeU32_of_apart _ hpos,
      readU16_writeU16]
  · intro a ha hout
    have hoff := console_apart_lock a ha
    rw [Print.lock_ram hfree, writeU32_of_not_inSpan _ _ hoff,
      writeU32_of_not_inSpan _ _ (console_apart_cursorpos a ha),
      writeU16_of_not_inSpan _ _ hout, writeU32_of_not_inSpan _ _ hoff]
  · exact Print.lock_cursorpos hfree

theorem Print.atomic_cell (hknown : KnownAlgorithm k.schedulingAlgorithm) :
    readU16 (x.atomic k).ram k.cursorpos = widened x.program.printchar.toUInt32 := by
  have hpos : Apart cursorposAddr 4 k.cursorpos 2 := hcursor ▸ (cell_apart_cursorpos hi).symm
  rw [Print.atomic_ram hknown, readU16_writeU32_of_apart _ hpos, readU16_writeU16]

/-- The kernel does if the value is plain. -/
theorem Print.atomic_printed_iff (hknown : KnownAlgorithm k.schedulingAlgorithm) :
    Printed x.program.printchar k (x.atomic k) ↔ Plain x.program.printchar := by
  have hcell := Print.atomic_cell (x := x) hi hcursor hknown
  constructor
  · intro h
    rw [← widened_eq_iff, ← hcell]
    exact h.cell
  · intro hplain
    constructor
    · rw [hcell, widened_eq_iff]
      exact hplain
    · intro a ha hout
      rw [Print.atomic_ram hknown,
        writeU32_of_not_inSpan _ _ (console_apart_cursorpos a ha),
        writeU16_of_not_inSpan _ _ hout]
    · exact Print.atomic_cursorpos hknown

end Cell

end Single

/-! ## Sequences of prints -/

/-- The prints `xs`, one after the other, by the applications … -/
def lockPrints (xs : List Print) (k : Machine) : Machine := xs.foldl (fun k x => x.lock k) k

/-- … and by the kernel. -/
def atomicPrints (xs : List Print) (k : Machine) : Machine := xs.foldl (fun k x => x.atomic k) k

/-- Print `i` goes to a cell that is on the console as a whole only if its value is plain. -/
def PlainOnScreen (xs : List Print) (cursor : UInt32) : Prop :=
  ∀ i (hi : i < xs.length), InSpan 0xB8000 4000 (cursor + 2 * UInt32.ofNat i + 1) →
    Plain xs[i].program.printchar

theorem plainOnScreen_cons {x : Print} {xs : List Print} {cursor : UInt32} :
    PlainOnScreen (x :: xs) cursor ↔
      (InSpan 0xB8000 4000 (cursor + 1) → Plain x.program.printchar) ∧
        PlainOnScreen xs (cursor + 2) := by
  have hcell : ∀ i : Nat, cursor + 2 * UInt32.ofNat (i + 1) = cursor + 2 + 2 * UInt32.ofNat i := by
    intro i
    rw [UInt32.ofNat_add, show UInt32.ofNat 1 = 1 from rfl]
    grind
  have hzero : cursor + 2 * UInt32.ofNat 0 = cursor := by
    rw [show UInt32.ofNat 0 = 0 from rfl]
    grind
  constructor
  · intro h
    refine ⟨fun hon => ?_, fun i hi hon => ?_⟩
    · exact h 0 (Nat.succ_pos _) (by rw [hzero]; exact hon)
    · exact h (i + 1) (Nat.succ_lt_succ hi) (by rw [hcell]; exact hon)
  · rintro ⟨hhead, htail⟩ i hi hon
    cases i with
    | zero =>
      rw [hzero] at hon
      exact hhead hon
    | succ i =>
      rw [hcell] at hon
      exact htail i (Nat.lt_of_succ_lt_succ hi) hon

/-- **Any sequence of prints**, observed after each of them. -/
theorem SameScreen.prints_iff : ∀ (xs : List Print) {k k' : Machine}, SameScreen k k' →
    k.lock = 0 → KnownAlgorithm k'.schedulingAlgorithm →
    ((∀ j, j ≤ xs.length → SameScreen (lockPrints (xs.take j) k) (atomicPrints (xs.take j) k')) ↔
      PlainOnScreen xs k.cursorpos)
  | [], k, k', h, _, _ => by
    refine iff_of_true (fun j _ => ?_) fun i hi => absurd hi (Nat.not_lt_zero i)
    rw [List.take_nil]
    exact h
  | x :: xs, k, k', h, hfree, hknown => by
    have hfirst := h.print_iff (x := x) hfree hknown
    rw [plainOnScreen_cons]
    constructor
    · intro hall
      have hone : SameScreen (x.lock k) (x.atomic k') := hall 1 (by simp)
      refine ⟨hfirst.mp hone, ?_⟩
      rw [← Print.lock_cursorpos (x := x) hfree]
      rw [← SameScreen.prints_iff xs hone (Print.lock_lock hfree)
        (by rw [Print.atomic_algorithm]; exact hknown)]
      intro j hj
      exact hall (j + 1) (Nat.succ_le_succ hj)
    · rintro ⟨hhead, htail⟩ j hj
      have hone := hfirst.mpr hhead
      cases j with
      | zero => exact h
      | succ j =>
        rw [← Print.lock_cursorpos (x := x) hfree] at htail
        exact (SameScreen.prints_iff xs hone (Print.lock_lock hfree)
          (by rw [Print.atomic_algorithm]; exact hknown)).mpr htail j (Nat.le_of_succ_le_succ hj)

/-! ## The two builds -/

/-- **When the two print methods agree**: in every reachable state in which the lock is free,
and for every sequence of prints from there on. -/
theorem print_methods_iff (ramimages : Fin 4 → Ramimage) (alg : Int32) (k₀ : Machine)
    (traps : Nat → Trap) (hknown : KnownAlgorithm alg) (n : Nat) (p : Pid) (k : Machine)
    (cpu : Registers) (hrun : system ramimages alg k₀ traps n = .user p k cpu)
    (hfree : k.lock = 0) :
    (∀ (i : Nat) (x : Print), i < 2000 → k.cursorpos = cellAddr i →
      Printed x.program.printchar k (x.lock k) ∧
      (Printed x.program.printchar k (x.atomic k) ↔ Plain x.program.printchar) ∧
      (SameScreen (x.lock k) (x.atomic k) ↔ Plain x.program.printchar)) ∧
    ∀ xs, (∀ j, j ≤ xs.length →
        SameScreen (lockPrints (xs.take j) k) (atomicPrints (xs.take j) k)) ↔
      PlainOnScreen xs k.cursorpos := by
  have halg : KnownAlgorithm k.schedulingAlgorithm := (system_running hrun).algorithm ▸ hknown
  refine ⟨fun i x hi hcursor => ⟨?_, ?_, ?_⟩, fun xs => ?_⟩
  · exact Print.lock_printed hi hcursor hfree
  · exact Print.atomic_printed_iff hi hcursor halg
  · have hon : InSpan 0xB8000 4000 (k.cursorpos + 1) := by
      rw [hcursor]
      exact cell_inSpan hi (inSpan_add (k := 1) (by decide) (by decide))
    rw [(SameScreen.refl k).print_iff hfree halg]
    exact ⟨fun h => h hon, fun h _ => h⟩
  · exact (SameScreen.refl k).prints_iff xs hfree halg

/-- A print of the character `c` by the first application. -/
def printOf (c : UInt16) : Print where
  proc := 1
  program := { shippedProgram 1 with printchar := c }
  cpu := .zero
  tsc _ := 0
  fuel := nprocs

theorem print_methods_plain : ∃ k cpu, start bareImages 0 bareMachine = .user 1 k cpu ∧
    ∀ j, j ≤ 3 → SameScreen (lockPrints ((List.replicate 3 (printOf 0x31)).take j) k)
      (atomicPrints ((List.replicate 3 (printOf 0x31)).take j) k) := by
  obtain ⟨k, hk, -, -⟩ := start_bare_booted 0
  have hfree := start_bare_lock 0
  rw [hk] at hfree
  have hrun := (system_zero bareImages 0 bareMachine fun _ => (printOf 0x31).trap k.ram).trans hk
  refine ⟨k, _, hk, ?_⟩
  refine ((print_methods_iff bareImages 0 bareMachine _ (Or.inl rfl) 0 1 k _ hrun hfree).2
    (List.replicate 3 (printOf 0x31))).mpr ?_
  intro i hi _
  rw [List.getElem_replicate]
  decide

/-- **The colour is lost**: a red `1` is printed in black on black. -/
theorem print_methods_differ : ∃ k cpu, start bareImages 0 bareMachine = .user 1 k cpu ∧
    k.lock = 0 ∧ k.cursorpos = 0xB8000 ∧
    readU16 ((printOf 0x0C31).lock k).ram 0xB8000 = 0x0C31 ∧
    readU16 ((printOf 0x0C31).atomic k).ram 0xB8000 = 0x0031 ∧
    ¬ SameScreen ((printOf 0x0C31).lock k) ((printOf 0x0C31).atomic k) := by
  obtain ⟨k, hk, hb, -⟩ := start_bare_booted 0
  have hfree := start_bare_lock 0
  rw [hk] at hfree
  have halg : KnownAlgorithm k.schedulingAlgorithm := hb.algorithm ▸ Or.inl rfl
  have hcursor : k.cursorpos = cellAddr 0 := hb.cursorpos
  have hlock := (Print.lock_printed (x := printOf 0x0C31) (by decide) hcursor hfree).cell
  have hatomic := Print.atomic_cell (x := printOf 0x0C31) (by decide) hcursor halg
  rw [hb.cursorpos] at hlock hatomic
  refine ⟨k, _, hk, hfree, hb.cursorpos, hlock, hatomic, fun hsame => ?_⟩
  rw [(SameScreen.refl k).print_iff hfree halg, hb.cursorpos] at hsame
  exact absurd (hsame (by decide)) (by decide)

end SchedOS
