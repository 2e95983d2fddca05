import SchedOS.Infra.Memory
import SchedOS.Infra.ProtectedMode

/-!
# Segment registers of an x86

What a load leaves in a segment register, in real mode and in protected mode, and which addresses
the register stands for afterwards; and what a load of the task register leaves in the tables. A
load that the processor refuses is `none`.
-/

namespace Infra

/-- A selector, with the descriptor that the processor keeps for it. -/
structure SegmentRegister where
  selector : BitVec 16
  view : SegmentView

/-! ## Loading -/

/-- In real mode the descriptor keeps all but its base. -/
def SegmentRegister.loadReal (r : SegmentRegister) (sel : BitVec 16) : SegmentRegister where
  selector := sel
  view := { r.view with base := sel.setWidth 32 <<< 4 }

/-- `%ds` and the like. A null selector can be loaded, though not used. -/
def SegmentRegister.loadData (r : SegmentRegister) (t : Tables) (cpl : BitVec 2)
    (sel : BitVec 16) : Option SegmentRegister :=
  if t.LoadsData cpl sel then some ⟨sel, (t.lookup sel).getD { r.view with present := 0 }⟩
  else none

/-- `%ss`. -/
def Tables.loadStack (t : Tables) (cpl : BitVec 2) (sel : BitVec 16) : Option SegmentRegister := do
  let d ← t.lookup sel
  if d.WritableData ∧ d.present = 1 ∧ d.dpl = cpl ∧ requestedLevel sel = cpl then some ⟨sel, d⟩
  else none

/-- `%cs` in a far jump, which does not change the level of privilege. -/
def Tables.jump (t : Tables) (cpl : BitVec 2) (sel : BitVec 16) : Option SegmentRegister := do
  let d ← t.lookup sel
  if d.Code ∧ d.present = 1 ∧
      (if d.Conforming then d.dpl ≤ cpl else d.dpl = cpl ∧ requestedLevel sel ≤ cpl) then
    some ⟨(sel &&& ~~~3) ||| cpl.setWidth 16, d⟩
  else none

/-- `ltr`, with a 32-bit task state that is not in use. The processor marks it in the table as one
that is. -/
def Tables.ltr (t : Tables) (sel : BitVec 16) : Option Tables := do
  let d ← t.lookup sel
  if d.s = 0 ∧ d.type = 9 ∧ d.present = 1 then
    let index := (cut sel.toNat 3 13).toNat
    some { t with gdt := Function.update t.gdt index (t.gdt index ||| 2 ^ 41), tr := sel }
  else none

/-- `lgdt` with 16-bit operands: a limit, and 24 bits of a base. -/
def Tables.lgdt (t : Tables) (m : Mem) (a : UInt32) : Tables :=
  let base := readU32 m (a + 2) &&& 0xFFFFFF
  { t with
    gdt := fun i => ofLE (readBytes m (base + 8 * UInt32.ofNat i) 8)
    gdtLimit := (readU16 m a).toNat }

/-! ## The task register -/

/-- A task state that is in use. -/
def SegmentView.busy (d : SegmentView) : SegmentView := { d with type := d.type ||| 2 }

theorem readSegment_busy (n : Nat) : readSegment (n ||| 2 ^ 41) = (readSegment n).busy := by
  have htype : cut (n ||| 2 ^ 41) 40 4 = cut n 40 4 ||| 2 := cut_or n (2 ^ 41) 40 4
  have hother : ∀ lo len, 41 < lo ∨ lo + len ≤ 41 → cut (n ||| 2 ^ 41) lo len = cut n lo len :=
    fun _ _ h => cut_or_two_pow n h
  rw [readSegment, htype, hother 56 8 (by decide), hother 32 8 (by decide),
    hother 16 16 (by decide), hother 48 4 (by decide), hother 0 16 (by decide),
    hother 55 1 (by decide), hother 44 1 (by decide), hother 45 2 (by decide),
    hother 47 1 (by decide)]
  rfl

section Ltr

variable {t t' : Tables} {sel : BitVec 16}

theorem Tables.ltr_of_available {d : SegmentView} (hd : t.lookup sel = some d)
    (h : d.s = 0 ∧ d.type = 9 ∧ d.present = 1) : t.ltr sel = some { t with
      gdt := Function.update t.gdt (cut sel.toNat 3 13).toNat
        (t.gdt (cut sel.toNat 3 13).toNat ||| 2 ^ 41)
      tr := sel } := by
  rw [Tables.ltr, hd]
  exact if_pos h

/-- Only the descriptor of the task state changes. -/
theorem Tables.ltr_lookup (h : t.ltr sel = some t') (sel' : BitVec 16) :
    t'.lookup sel' = if (cut sel'.toNat 3 13).toNat = (cut sel.toNat 3 13).toNat
      then (t.lookup sel').map SegmentView.busy else t.lookup sel' := by
  cases hd : t.lookup sel with
  | none =>
    rw [Tables.ltr, hd] at h
    cases h
  | some d =>
    rw [Tables.ltr, hd] at h
    obtain ⟨-, ht⟩ := Option.ite_none_right_eq_some.mp h
    cases ht
    unfold Tables.lookup
    dsimp only
    by_cases hindex : (cut sel'.toNat 3 13).toNat = (cut sel.toNat 3 13).toNat
    · rw [if_pos hindex, hindex, Function.update_self, readSegment_busy]
      split <;> rfl
    · rw [if_neg hindex, Function.update_of_ne hindex]

end Ltr

/-! ## Addresses -/

/-- The linear address of the `n` bytes from `offset` on, if the segment has them. Segments that
expand downwards are not known. -/
def SegmentView.linear (d : SegmentView) (offset : BitVec 32) (n : Nat) : Option (BitVec 32) :=
  if d.present = 1 ∧ offset.toNat + n ≤ d.limit + 1 then some (d.base + offset) else none

/-- Every offset is the address of what lies there. -/
def SegmentView.Flat (d : SegmentView) : Prop :=
  ∀ (offset : BitVec 32) (n : Nat), offset.toNat + n ≤ 2 ^ 32 → d.linear offset n = some offset

/-- A segment that spans all of the memory. -/
def flatSegment (type : BitVec 4) (dpl : BitVec 2) : SegmentView where
  base := 0
  limit := 2 ^ 32 - 1
  type := type
  s := 1
  dpl := dpl
  present := 1

theorem flatSegment_limit (type : BitVec 4) (dpl : BitVec 2) :
    (flatSegment type dpl).limit = 2 ^ 32 - 1 := rfl

theorem flatSegment_flat (type : BitVec 4) (dpl : BitVec 2) : (flatSegment type dpl).Flat := by
  intro offset n h
  have hbase : (flatSegment type dpl).base + offset = offset := BitVec.zero_add offset
  have hpresent : (flatSegment type dpl).present = 1 := rfl
  have hinside : offset.toNat + n ≤ (flatSegment type dpl).limit + 1 := by
    rw [flatSegment_limit]
    omega
  rw [SegmentView.linear, hbase, if_pos ⟨hpresent, hinside⟩]

end Infra
