import Mathlib.Tactic

/-!
# A terminal that wraps around

A screen whose cells are written in order. The position is the number of the cell that comes
next; it may lie just behind the last cell, and then the next character goes to the first one. A
newline fills the rest of its line with blanks.

The terminal keeps a record of its stores and nothing else: what a cell shows follows from that.
-/

namespace Infra

universe u

/-- The state of a terminal. -/
structure Terminal (α : Type u) where
  pos : Nat
  /-- The cell and the value of every store, in order. -/
  stores : List (Nat × α)

namespace Terminal

variable {α : Type u}

def put (t : Terminal α) (v : α) : Terminal α := ⟨t.pos + 1, t.stores ++ [(t.pos, v)]⟩

def putMany (t : Terminal α) (v : α) : Nat → Terminal α
  | 0 => t
  | n + 1 => (t.put v).putMany v n

section Size

variable (size cols : Nat) (t : Terminal α)

/-- Behind the last cell comes the first one. -/
def wrap : Terminal α := if size ≤ t.pos then { t with pos := 0 } else t

def putc (v : α) : Terminal α := (t.wrap size).put v

def newline (blank : α) : Terminal α :=
  (t.wrap size).putMany blank (cols - (t.wrap size).pos % cols)

/-- The position is in range, and so are all cells that have been written. -/
structure Inv : Prop where
  pos_le : t.pos ≤ size
  stores_lt : ∀ x ∈ t.stores, x.1 < size

end Size

variable {size cols : Nat} {t : Terminal α} {v : α}

@[simp] theorem wrap_stores : (t.wrap size).stores = t.stores := by
  unfold wrap
  split <;> rfl

theorem wrap_pos_lt (hsize : 0 < size) : (t.wrap size).pos < size := by
  unfold wrap
  split
  · exact hsize
  · next h => exact Nat.lt_of_not_le h

theorem Inv.wrap (h : t.Inv size) : (t.wrap size).Inv size where
  pos_le := by
    unfold Terminal.wrap
    split
    · exact Nat.zero_le _
    · exact h.pos_le
  stores_lt := by
    rw [wrap_stores]
    exact h.stores_lt

theorem Inv.put (h : t.Inv size) (hpos : t.pos < size) : (t.put v).Inv size where
  pos_le := hpos
  stores_lt x hx := by
    rcases List.mem_append.mp hx with hx | hx
    · exact h.stores_lt x hx
    · rw [List.mem_singleton.mp hx]
      exact hpos

theorem putMany_pos : ∀ (n : Nat) (t : Terminal α), (t.putMany v n).pos = t.pos + n
  | 0, _ => rfl
  | n + 1, t => by
    rw [putMany, putMany_pos n]
    show t.pos + 1 + n = t.pos + (n + 1)
    omega

theorem Inv.putMany : ∀ (n : Nat) {t : Terminal α}, t.Inv size → t.pos + n ≤ size →
    (t.putMany v n).Inv size
  | 0, _, h, _ => h
  | n + 1, t, h, hpos => by
    have hput : (t.put v).Inv size := h.put (by omega)
    refine Inv.putMany n hput ?_
    show t.pos + 1 + n ≤ size
    omega

/-- The place where the next line begins. -/
theorem add_sub_mod_eq (i : Nat) (hcols : 0 < cols) :
    i + (cols - i % cols) = cols * (i / cols + 1) := by
  have hmod := Nat.mod_lt i hcols
  have hdiv := Nat.div_add_mod i cols
  rw [Nat.mul_succ]
  omega

theorem newline_pos (hcols : 0 < cols) :
    (t.newline size cols v).pos = cols * ((t.wrap size).pos / cols + 1) := by
  rw [newline, putMany_pos, add_sub_mod_eq _ hcols]

variable (hsize : 0 < size)
include hsize

/-- **A character** stays on the screen. -/
theorem Inv.putc (h : t.Inv size) : (t.putc size v).Inv size :=
  h.wrap.put (wrap_pos_lt hsize)

variable (hcols : 0 < cols) (hdvd : cols ∣ size)
include hcols hdvd

theorem newline_pos_le : (t.newline size cols v).pos ≤ size := by
  obtain ⟨rows, rfl⟩ := hdvd
  rw [newline_pos hcols]
  exact Nat.mul_le_mul_left _ (Nat.div_lt_of_lt_mul (wrap_pos_lt hsize))

/-- **A newline** does so too, … -/
theorem Inv.newline (h : t.Inv size) : (t.newline size cols v).Inv size := by
  have hle : (t.newline size cols v).pos ≤ size := newline_pos_le hsize hcols hdvd
  refine h.wrap.putMany _ ?_
  rwa [Terminal.newline, putMany_pos] at hle

end Terminal

end Infra
