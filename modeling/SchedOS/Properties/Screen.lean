import SchedOS.Properties.Format
import SchedOS.Properties.Boot
import SchedOS.Infra.Terminal

/-!
# `console_vprintf` stays on the screen

The console is a terminal of 25 lines with 80 cells each (`Infra.Terminal`): the cursor is the
address of the cell at its position, and the memory is what the stores have made of it.

* `vprintf_on_screen` — so every store goes to a cell of the console, whatever is printed
-/

namespace SchedOS

open Infra

/-! ## The console is a terminal -/

/-- The memory after stores to cells of the console. -/
def storeCells (ram : Mem) (stores : List (Nat × UInt16)) : Mem :=
  stores.foldl (fun m x => writeU16 m (cellAddr x.1) x.2) ram

/-- `console_putc` as an operation of the terminal. -/
def terminalPutc (t : Terminal UInt16) (c : UInt8) (color : Int32) : Terminal UInt16 :=
  if c = 0x0A then t.newline 2000 80 (0x20 ||| color.toUInt32).toUInt16
  else t.putc 2000 (c.toUInt32 ||| color.toUInt32).toUInt16

/-- The screen is in the state of the terminal, which has been started on the memory `ram₀`. -/
structure Shows (ram₀ : Mem) (t : Terminal UInt16) (s : Screen) : Prop where
  cursor : s.cursor = cellAddr t.pos
  ram : s.ram = storeCells ram₀ t.stores

section Shows

variable {ram₀ : Mem} {t : Terminal UInt16} {s : Screen}

theorem cellAddr_succ (n : Nat) : cellAddr n + 2 = cellAddr (n + 1) := by
  rw [cellAddr, cellAddr, UInt32.ofNat_add, show UInt32.ofNat 1 = 1 from rfl]
  grind

theorem Shows.put (h : Shows ram₀ t s) (v : UInt32) :
    Shows ram₀ (t.put v.toUInt16) (s.put v) where
  cursor := by
    rw [Screen.put, h.cursor]
    exact cellAddr_succ t.pos
  ram := by
    rw [Screen.put, h.cursor, h.ram, storeCells, Terminal.put, storeCells, List.foldl_append]
    rfl

theorem Shows.putMany (v : UInt32) : ∀ (n : Nat) {t : Terminal UInt16} {s : Screen},
    Shows ram₀ t s → Shows ram₀ (t.putMany v.toUInt16 n) (s.putMany v n)
  | 0, _, _, h => h
  | n + 1, _, _, h => Shows.putMany v n (h.put v)

/-- The test against `CONSOLE_END`. -/
theorem Shows.wrap (h : Shows ram₀ t s) (hpos : t.pos ≤ 2000) : Shows ram₀ (t.wrap 2000)
    (if consoleEnd ≤ s.cursor then { s with cursor := consoleBegin } else s) := by
  have hend : consoleEnd ≤ s.cursor ↔ 2000 ≤ t.pos := by
    rw [h.cursor, UInt32.le_iff_toNat_le, cellAddr_toNat hpos,
      show consoleEnd.toNat = 0xB8000 + 4000 from rfl]
    omega
  unfold Terminal.wrap
  by_cases hfull : 2000 ≤ t.pos
  · rw [if_pos hfull, if_pos (hend.mpr hfull)]
    exact ⟨rfl, h.ram⟩
  · rw [if_neg hfull, if_neg (hend.not.mpr hfull)]
    exact h

/-- The number of blanks that a newline stores, computed from the cursor. -/
theorem blanks_eq {i : Nat} (hi : i < 2000) :
    (80 - ((cellAddr i - consoleBegin).toInt32 / 2) % 80 : Int32).toInt.toNat = 80 - i % 80 := by
  have hoff : (cellAddr i - consoleBegin).toInt32 = Int32.ofNat (2 * i) := by
    have hsub : cellAddr i - consoleBegin = UInt32.ofNat (2 * i) := by
      rw [UInt32.ofNat_mul, cellAddr, consoleBegin, show UInt32.ofNat 2 = 2 from rfl]
      grind
    rw [hsub, UInt32.toInt32_ofNat']
  have hint : (Int32.ofNat (2 * i)).toInt = 2 * i := by
    rw [Int32.toInt_ofNat_of_lt (by omega)]
    push_cast
    rfl
  have hdiv : (Int32.ofNat (2 * i) / 2).toInt = i := by
    rw [Int32.toInt_div_of_ne_right _ _ (by decide), hint, show (2 : Int32).toInt = 2 from rfl,
      Int.tdiv_eq_ediv_of_nonneg (by omega)]
    omega
  have hmod : (Int32.ofNat (2 * i) / 2 % 80).toInt = (i % 80 : Nat) := by
    rw [Int32.toInt_mod, hdiv, show (80 : Int32).toInt = 80 from rfl,
      Int.tmod_eq_emod_of_nonneg (by omega)]
    push_cast
    rfl
  rw [hoff, Int32.toInt_sub, hmod, show (80 : Int32).toInt = 80 from rfl, Int.bmod_eq_of_le]
  all_goals omega

/-- **`console_putc`** is an operation of the terminal. -/
theorem Shows.consolePutc (h : Shows ram₀ t s) (hpos : t.pos ≤ 2000) (c : UInt8) (color : Int32) :
    Shows ram₀ (terminalPutc t c color) (consolePutc s c color) := by
  have hwrap := h.wrap hpos
  have hlt : (t.wrap 2000).pos < 2000 := Terminal.wrap_pos_lt (by decide)
  unfold SchedOS.consolePutc terminalPutc
  dsimp only
  by_cases hc : c = 0x0A
  · rw [if_pos hc, if_pos hc, hwrap.cursor, blanks_eq hlt]
    exact hwrap.putMany _ _
  · rw [if_neg hc, if_neg hc]
    exact hwrap.put _

end Shows

/-! ## Whatever is printed -/

/-- The terminal after some characters. -/
def terminalPrint (out : List (UInt8 × Int32)) (t : Terminal UInt16) : Terminal UInt16 :=
  out.foldl (fun t x => terminalPutc t x.1 x.2) t

section Print

variable {ram₀ : Mem} {t : Terminal UInt16} {s : Screen}

theorem terminalPutc_inv (h : t.Inv 2000) (c : UInt8) (color : Int32) :
    (terminalPutc t c color).Inv 2000 := by
  unfold terminalPutc
  split
  · exact h.newline (by decide) (by decide) ⟨25, rfl⟩
  · exact h.putc (by decide)

theorem terminalPrint_inv : ∀ (out : List (UInt8 × Int32)) {t : Terminal UInt16},
    t.Inv 2000 → (terminalPrint out t).Inv 2000
  | [], _, h => h
  | x :: out, _, h => terminalPrint_inv out (terminalPutc_inv h x.1 x.2)

/-- The screen keeps showing the terminal. -/
theorem Shows.printAll : ∀ (out : List (UInt8 × Int32)) {t : Terminal UInt16} {s : Screen},
    t.Inv 2000 → Shows ram₀ t s → Shows ram₀ (terminalPrint out t) (printAll out s)
  | [], _, _, _, h => h
  | x :: out, _, _, hinv, h =>
    Shows.printAll out (terminalPutc_inv hinv x.1 x.2) (h.consolePutc hinv.pos_le x.1 x.2)

theorem storeCells_frame {a : UInt32} (ha : ¬ InSpan 0xB8000 4000 a) :
    ∀ (stores : List (Nat × UInt16)) (ram : Mem), (∀ x ∈ stores, x.1 < 2000) →
    storeCells ram stores a = ram a
  | [], _, _ => rfl
  | x :: stores, ram, h => by
    have hcell : ¬ InSpan (cellAddr x.1) 2 a :=
      fun hin => ha (cell_inSpan (h x List.mem_cons_self) hin)
    rw [storeCells, List.foldl_cons]
    exact (storeCells_frame ha stores _ fun y hy => h y (List.mem_cons_of_mem _ hy)).trans
      (writeU16_of_not_inSpan _ _ hcell)

/-- What printing does from a cursor on the screen. -/
theorem printAll_shows {i : Nat} (hi : i ≤ 2000) (ram : Mem) (out : List (UInt8 × Int32)) :
    (terminalPrint out ⟨i, []⟩).Inv 2000 ∧
      Shows ram (terminalPrint out ⟨i, []⟩) (printAll out ⟨cellAddr i, ram⟩) := by
  have hinv : (⟨i, []⟩ : Terminal UInt16).Inv 2000 := ⟨hi, by simp⟩
  exact ⟨terminalPrint_inv out hinv, Shows.printAll out hinv ⟨rfl, rfl⟩⟩

end Print

/-- The screen `s` has come from the memory `ram` by stores to cells of the console only, and its
cursor is on the console. -/
structure OnScreen (ram : Mem) (s : Screen) : Prop where
  stores : ∃ stores, (∀ x ∈ stores, x.1 < 2000) ∧ s.ram = storeCells ram stores
  frame : ∀ a, ¬ InSpan 0xB8000 4000 a → s.ram a = ram a
  cursor : ∃ i, i ≤ 2000 ∧ s.cursor = cellAddr i

theorem printAll_onScreen {i : Nat} (hi : i ≤ 2000) (ram : Mem) (out : List (UInt8 × Int32)) :
    OnScreen ram (printAll out ⟨cellAddr i, ram⟩) := by
  obtain ⟨hinv, hshows⟩ := printAll_shows hi ram out
  refine ⟨⟨_, hinv.stores_lt, hshows.ram⟩, fun a ha => ?_, ⟨_, hinv.pos_le, hshows.cursor⟩⟩
  rw [hshows.ram, storeCells_frame ha _ _ hinv.stores_lt]

end SchedOS
