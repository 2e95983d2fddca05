import SchedOS.Properties.Cursor
import SchedOS.Properties.PrintMethods

/-!
# What is on the screen

As long as the screen is not full, printing appends cells to those that are there (`Displays`),
whether the kernel prints through `console_putc` or by `*cursorpos++ = …`, and a newline appends
blanks up to the end of the line.
-/

namespace SchedOS

open Infra

/-- The memory, with the cursor that is stored in it. -/
def screenOf (ram : Mem) : Screen := ⟨readU32 ram cursorposAddr, ram⟩

@[simp] theorem screenOf_cursor (ram : Mem) :
    (screenOf ram).cursor = readU32 ram cursorposAddr := rfl

@[simp] theorem screenOf_ram (ram : Mem) : (screenOf ram).ram = ram := rfl

theorem Screen.put_cursor (s : Screen) (v : UInt32) : (s.put v).cursor = s.cursor + 2 := rfl

theorem Screen.put_ram (s : Screen) (v : UInt32) :
    (s.put v).ram = writeU16 s.ram s.cursor v.toUInt16 := rfl

/-- The memory `ram₀` with `cells` on the console, from the first one on, and the cursor behind
them. -/
structure Displays (ram₀ : Mem) (cells : List UInt16) (s : Screen) : Prop where
  cursor : s.cursor = cellAddr cells.length
  shown : ∀ i (hi : i < cells.length), readU16 s.ram (cellAddr i) = cells[i]
  /-- Nothing else has changed, but for the word in which the kernel keeps the cursor. -/
  frame : ∀ a, ¬ InSpan 0xB8000 (2 * cells.length) a → ¬ InSpan cursorposAddr 4 a →
    s.ram a = ram₀ a

/-- A cell lies in any part of the console that it comes before the end of. -/
theorem cell_inSpan_of_lt {i n : Nat} (hn : n ≤ 2000) (hi : i < n) {x : UInt32}
    (hx : InSpan (cellAddr i) 2 x) : InSpan 0xB8000 (2 * n) x := by
  have haddr : (cellAddr i).toNat = 0xB8000 + 2 * i := cellAddr_toNat (by omega)
  have hbegin : (0xB8000 : UInt32).toNat = 0xB8000 := rfl
  rw [inSpan_iff (by omega)] at hx ⊢
  omega

/-- The blanks that a newline appends. -/
def blanks (cells : List UInt16) (color : Int32) : List UInt16 :=
  List.replicate (80 - cells.length % 80) (0x20 ||| color.toUInt32).toUInt16

namespace Displays

variable {ram₀ ram : Mem} {cells : List UInt16} {s : Screen}

theorem nil (h : readU32 ram cursorposAddr = 0xB8000) : Displays ram [] (screenOf ram) where
  cursor := h
  shown _ hi := absurd hi (Nat.not_lt_zero _)
  frame _ _ _ := rfl

/-- What is there already may be taken for printed. -/
theorem of_cursor {n : Nat} (h : readU32 ram cursorposAddr = cellAddr n) :
    Displays ram ((List.range n).map fun i => readU16 ram (cellAddr i)) (screenOf ram) where
  cursor := by simpa using h
  shown i hi := by simp
  frame _ _ _ := rfl

/-- `*cursor++ = v` -/
theorem put (h : Displays ram₀ cells s) (hroom : cells.length < 2000) (v : UInt32) :
    Displays ram₀ (cells ++ [v.toUInt16]) (s.put v) := by
  have hlength : (cells ++ [v.toUInt16]).length = cells.length + 1 := by simp
  constructor
  · rw [Screen.put_cursor, h.cursor, cellAddr_succ, hlength]
  · intro i hi
    rw [hlength] at hi
    rw [Screen.put_ram, h.cursor]
    by_cases hlast : i = cells.length
    · subst hlast
      simp
    · have hlt : i < cells.length := by omega
      have hapart := cell_apart hroom (by omega) (Ne.symm hlast)
      rw [readU16_writeU16_of_apart _ hapart, h.shown i hlt, List.getElem_append_left hlt]
  · intro a ha hcursorpos
    rw [hlength] at ha
    have hold : ¬ InSpan 0xB8000 (2 * cells.length) a :=
      fun hin => ha (Nat.lt_of_lt_of_le hin (by omega))
    have hnew : ¬ InSpan (cellAddr cells.length) 2 a :=
      fun hin => ha (cell_inSpan_of_lt (by omega) (Nat.lt_succ_self _) hin)
    rw [Screen.put_ram, h.cursor, writeU16_of_not_inSpan _ _ hnew, h.frame a hold hcursorpos]

/-- The cursor is stored. -/
theorem store (h : Displays ram₀ cells s) (hroom : cells.length ≤ 2000) :
    Displays ram₀ cells (screenOf (writeU32 s.ram cursorposAddr s.cursor)) where
  cursor := (readU32_writeU32 ..).trans h.cursor
  shown i hi := by
    have hapart := (cell_apart_cursorpos (Nat.lt_of_lt_of_le hi hroom)).symm
    rw [screenOf_ram, readU16_writeU32_of_apart _ hapart, h.shown i hi]
  frame a ha hcursorpos := by
    rw [screenOf_ram, writeU32_of_not_inSpan _ _ hcursorpos, h.frame a ha hcursorpos]

theorem putMany (v : UInt32) : ∀ (n : Nat) {cells : List UInt16} {s : Screen},
    Displays ram₀ cells s → cells.length + n ≤ 2000 →
      Displays ram₀ (cells ++ List.replicate n v.toUInt16) (s.putMany v n)
  | 0, _, _, h, _ => by
    rw [List.replicate_zero, List.append_nil]
    exact h
  | n + 1, cells, s, h, hroom => by
    have hput := putMany v n (h.put (by omega) v) (by simp; omega)
    rwa [List.append_assoc, List.singleton_append, ← List.replicate_succ] at hput

/-- On a screen that is not full the cursor is not behind the last cell. -/
theorem not_end (h : Displays ram₀ cells s) (hroom : cells.length < 2000) :
    ¬ consoleEnd ≤ s.cursor := by
  rw [h.cursor, UInt32.le_iff_toNat_le, cellAddr_toNat (by omega),
    show consoleEnd.toNat = 0xB8000 + 4000 from rfl]
  omega

/-- `console_putc` of a character -/
theorem putc (h : Displays ram₀ cells s) (hroom : cells.length < 2000) {c : UInt8}
    (hc : c ≠ 0x0A) (color : Int32) :
    Displays ram₀ (cells ++ [(c.toUInt32 ||| color.toUInt32).toUInt16])
      (consolePutc s c color) := by
  unfold consolePutc
  simp only [h.not_end hroom, hc, if_false]
  exact h.put hroom _

/-- `console_putc` of a newline -/
theorem newline (h : Displays ram₀ cells s) (hroom : cells.length < 2000) (color : Int32) :
    Displays ram₀ (cells ++ blanks cells color) (consolePutc s 0x0A color) := by
  have hfits : cells.length + (80 - cells.length % 80) ≤ 2000 := by omega
  unfold consolePutc blanks
  simp only [h.not_end hroom, if_false, if_true]
  rw [h.cursor, blanks_eq hroom]
  exact h.putMany _ _ hfits

/-- A line of text. -/
theorem printText (color : Int32) : ∀ (text : List UInt8) {cells : List UInt16} {s : Screen},
    Displays ram₀ cells s → 0x0A ∉ text → cells.length + text.length ≤ 2000 →
      Displays ram₀ (cells ++ text.map fun c => (c.toUInt32 ||| color.toUInt32).toUInt16)
        (printText color text s)
  | [], _, _, h, _, _ => by
    rw [List.map_nil, List.append_nil]
    exact h
  | c :: text, cells, s, h, hnot, hroom => by
    rw [List.length_cons] at hroom
    have hputc := h.putc (by omega) (Ne.symm (List.ne_of_not_mem_cons hnot)) color
    have htext := printText color text hputc (List.not_mem_of_not_mem_cons hnot)
      (by simp; omega)
    rwa [List.append_assoc, List.singleton_append] at htext

end Displays

/-! ## System calls -/

variable {ram₀ : Mem} {cells : List UInt16} {t : Trap} {k : Machine}

/-- What the console shows when the interrupt has been served, if there were `cells` before. -/
def Trap.shown (t : Trap) (cells : List UInt16) : List UInt16 :=
  if t.reg.regIntno = intSysAtomicPrint then cells ++ [widened t.reg.regEax] else cells

/-- The kernel gives `*cursorpos` its new value before it looks for the next process. -/
theorem Displays.call (h : Displays ram₀ cells (screenOf t.ram))
    (hroom : (t.shown cells).length ≤ 2000) :
    Displays ram₀ (t.shown cells) (screenOf (t.call k).ram) := by
  unfold Trap.shown at hroom ⊢
  by_cases hprint : t.reg.regIntno = intSysAtomicPrint
  · rw [if_pos hprint] at hroom ⊢
    have hput := h.put (by simpa using hroom) (widened t.reg.regEax).toUInt32
    rw [UInt16.toUInt16_toUInt32] at hput
    have hstore := hput.store hroom
    rw [Screen.put_ram, Screen.put_cursor, UInt16.toUInt16_toUInt32] at hstore
    rw [Trap.call_ram_print hprint]
    exact hstore
  · rw [if_neg hprint, Trap.call_ram hprint]
    exact h

end SchedOS
