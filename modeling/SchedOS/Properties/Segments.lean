import SchedOS.Kern.Segments
import SchedOS.Properties.Trapframe

/-!
# What the processor finds in the tables

`segments_init` fills in bit-fields and the processor cuts bits out of words. Here the two meet:
each gate leads to its handler, in the kernel's code segment and on the kernel's stack.

* `interrupts_enter_kernel` — every interrupt of an application ends in a handler of the kernel,
  and none but the system calls can be had by an `int`
* `no_memory_protection` — an application can reach all of the memory
* `io_permitted_iff` — which ports the applications may use, though their I/O privilege level is 0
-/

namespace SchedOS

open Infra

variable {s : Symbols} {behind : Nat}

/-! ## Gates -/

/-- The lowest level of privilege from which an `int` leads there. -/
def Handler.dpl : Handler → UInt32
  | .sys _ => 3
  | _ => 0

theorem Handler.dpl_lt (h : Handler) :
    h.dpl.toBitVec.setWidth 2 < (3 : BitVec 2) ↔ h.dpl = 0 := by
  cases h with
  | clock => decide
  | sys i =>
    have hthree : (3 : UInt32).toBitVec.setWidth 2 < (3 : BitVec 2) ↔ (3 : UInt32) = 0 := by decide
    exact hthree
  | default => decide

/-- The gates that lead from an `int` into the kernel are those of the system calls. -/
theorem dpl_eq_zero_iff {v : UInt8} : (interruptDescriptors v).dpl = 0 ↔ v < 48 ∨ 57 < v := by
  have hall : ∀ n : Fin 256, (interruptDescriptors (UInt8.ofFin n)).dpl = 0 ↔
      UInt8.ofFin n < 48 ∨ 57 < UInt8.ofFin n := by decide +kernel
  exact hall v.toFin

/-- The gate for a handler. -/
def Symbols.gate (s : Symbols) (h : Handler) : Gatedescriptor :=
  setgate false segselKernCode (s.handler h) h.dpl

theorem comp_foldl_update {ι κ α β : Type*} [DecidableEq κ] (f : α → β) (key : ι → κ)
    (value : ι → α) : ∀ (is : List ι) (g : κ → α),
      is.foldl (fun g i => Function.update g (key i) (f (value i))) (f ∘ g)
        = f ∘ is.foldl (fun g i => Function.update g (key i) (value i)) g
  | [], _ => rfl
  | i :: is, g => by
    rw [List.foldl_cons, List.foldl_cons, ← Function.comp_update,
      comp_foldl_update f key value is]

/-- The loops leave the gates of `interruptDescriptors`. -/
theorem interruptGates_eq (s : Symbols) (v : UInt8) :
    interruptGates s v = s.gate (interruptDescriptors v) := by
  have hclock : Function.update (fun _ => s.gate .default) intClock.toUInt8 (s.gate .clock)
      = s.gate ∘ Function.update (fun _ => .default) intClock.toUInt8 .clock := by
    rw [Function.comp_update]
    rfl
  have hgates : interruptGates s = s.gate ∘ interruptDescriptors := by
    unfold interruptDescriptors
    rw [← comp_foldl_update s.gate sysVector Handler.sys, ← hclock]
    rfl
  rw [hgates]
  rfl

/-- A mask with as many bits as the field changes nothing. -/
theorem assigned_and (x : UInt32) {m : UInt32} {w : Nat} (hm : assigned w m = BitVec.allOnes w) :
    assigned w (x &&& m) = assigned w x := by
  have hand : assigned w (x &&& m) = assigned w x &&& assigned w m := BitVec.setWidth_and
  rw [hand, hm, BitVec.and_allOnes]

theorem assigned_eq_cut (x : UInt32) (w : Nat) : assigned w x = cut x.toNat 0 w := by
  refine BitVec.eq_of_toNat_eq ?_
  simp [assigned, cut]

theorem assigned_shiftRight (x : UInt32) {a : UInt32} (ha : a < 32) (w : Nat) :
    assigned w (x >>> a) = cut x.toNat a.toNat w := by
  have ha' : a.toNat % 32 = a.toNat := Nat.mod_eq_of_lt ha
  refine BitVec.eq_of_toNat_eq ?_
  simp [assigned, cut, ha', Nat.shiftRight_eq_div_pow]

/-- The offset is split over two fields. -/
theorem offset_split (off : UInt32) :
    assigned 16 (off >>> 16) ++ assigned 16 (off &&& 0xFFFF) = off.toBitVec := by
  rw [assigned_and off (by decide), assigned_shiftRight off (by decide), assigned_eq_cut]
  exact (cut_append_cut off.toNat 0 16 16).trans (cut_self _ _ rfl)

/-- The base of a segment is split over three. -/
theorem base_split (base : UInt32) : assigned 8 ((base >>> 24) &&& 0xFF) ++
    assigned 8 ((base >>> 16) &&& 0xFF) ++ assigned 16 (base &&& 0xFFFF) = base.toBitVec := by
  rw [assigned_and _ (by decide), assigned_and _ (by decide), assigned_and _ (by decide),
    assigned_shiftRight base (by decide), assigned_shiftRight base (by decide), assigned_eq_cut]
  have hhigh := cut_append_cut base.toNat 16 8 8
  have hall := cut_append_cut base.toNat 0 16 16
  have hself := cut_self base.toNat base.toBitVec rfl
  calc cut base.toNat 24 8 ++ cut base.toNat 16 8 ++ cut base.toNat 0 16
      = cut base.toNat 16 16 ++ cut base.toNat 0 16 := by rw [hhigh]
    _ = cut base.toNat 0 32 := hall
    _ = base.toBitVec := hself

/-- What the processor reads in a gate. -/
theorem readGate_setgate (istrap : Bool) (sel off dpl : UInt32) :
    readGate (pack (setgate istrap sel off dpl).fields) = {
      offset := off.toBitVec
      selector := assigned 16 sel
      type := assigned 4 (if istrap then stsTg32 else stsIg32)
      s := 0
      dpl := assigned 2 dpl
      present := 1 } := by
  have hcut := cut_pack (setgate istrap sel off dpl).fields
  have hlow := hcut 0 (show 0 < 9 by decide)
  have hsel := hcut 1 (show 1 < 9 by decide)
  have htype := hcut 4 (show 4 < 9 by decide)
  have hs := hcut 5 (show 5 < 9 by decide)
  have hdpl := hcut 6 (show 6 < 9 by decide)
  have hp := hcut 7 (show 7 < 9 by decide)
  have hhigh := hcut 8 (show 8 < 9 by decide)
  rw [readGate, GateView.mk.injEq]
  refine ⟨?_, hsel, htype, hs, hdpl, hp⟩
  rw [← offset_split off]
  exact congrArg₂ (· ++ ·) hhigh hlow

/-! ## Segments -/

theorem readSegment_fields (d : Segmentdescriptor) : readSegment (pack d.fields) = {
    base := d.sdBase31_24 ++ d.sdBase23_16 ++ d.sdBase15_0
    limit :=
      let limit := (d.sdLim19_16 ++ d.sdLim15_0).toNat
      if d.sdG = 1 then 4096 * limit + 4095 else limit
    type := d.sdType
    s := d.sdS
    dpl := d.sdDpl
    present := d.sdP } := by
  have hcut := cut_pack d.fields
  have hlow : cut (pack d.fields) 0 16 = d.sdLim15_0 := hcut 0 (show 0 < 13 by decide)
  have hbase₀ : cut (pack d.fields) 16 16 = d.sdBase15_0 := hcut 1 (show 1 < 13 by decide)
  have hbase₁ : cut (pack d.fields) 32 8 = d.sdBase23_16 := hcut 2 (show 2 < 13 by decide)
  have htype := hcut 3 (show 3 < 13 by decide)
  have hs := hcut 4 (show 4 < 13 by decide)
  have hdpl := hcut 5 (show 5 < 13 by decide)
  have hp := hcut 6 (show 6 < 13 by decide)
  have hhigh : cut (pack d.fields) 48 4 = d.sdLim19_16 := hcut 7 (show 7 < 13 by decide)
  have hg : cut (pack d.fields) 55 1 = d.sdG := hcut 11 (show 11 < 13 by decide)
  have hbase₂ : cut (pack d.fields) 56 8 = d.sdBase31_24 := hcut 12 (show 12 < 13 by decide)
  rw [readSegment, hbase₀, hbase₁, hbase₂, hlow, hhigh, hg, SegmentView.mk.injEq]
  exact ⟨rfl, rfl, htype, hs, hdpl, hp⟩

/-- What a selector for a segment consists of. -/
theorem selector_index : ∀ (i : Fin 6) (rpl : BitVec 2),
    (cut (8 * BitVec.ofNat 16 i ||| rpl.setWidth 16).toNat 3 13).toNat = i ∧
      cut (8 * BitVec.ofNat 16 i ||| rpl.setWidth 16).toNat 2 1 = 0 ∧
      (8 * BitVec.ofNat 16 i ||| rpl.setWidth 16).toNat = 8 * i + rpl.toNat := by
  decide

/-- The segment that a selector with any requested level selects. -/
theorem lookup_descriptorTables (i : Fin 6) (hi : i ≠ 0) (rpl : BitVec 2) :
    (descriptorTables s behind).lookup (8 * BitVec.ofNat 16 i ||| rpl.setWidth 16)
      = some (readSegment (pack (segments s i).fields)) := by
  obtain ⟨hindex, hti, -⟩ := selector_index i rpl
  have hne : (i : Nat) ≠ 0 := fun he => hi (Fin.ext he)
  have hlimit : ¬ (descriptorTables s behind).gdtLimit < 8 * (i : Nat) + 7 := by
    show ¬ 47 < 8 * (i : Nat) + 7
    omega
  unfold Tables.lookup
  rw [hindex, hti]
  dsimp only
  rw [if_neg (by simp [hne, hlimit])]
  simp only [descriptorTables, Fin.is_lt, dite_true, Fin.eta]

/-- Other selectors select nothing. -/
theorem selector_of_lookup {sel : BitVec 16} {d : SegmentView}
    (h : (descriptorTables s behind).lookup sel = some d) : ∃ i : Fin 6, i ≠ 0 ∧
      sel = 8 * BitVec.ofNat 16 i ||| (requestedLevel sel).setWidth 16 ∧
      d = readSegment (pack (segments s i).fields) := by
  have hlimit : (descriptorTables s behind).gdtLimit = 47 := rfl
  have hindex : (cut sel.toNat 3 13).toNat = sel.toNat / 8 := by
    have hsel := sel.isLt
    rw [cut, BitVec.toNat_ofNat]
    omega
  have hlevel : (requestedLevel sel).toNat = sel.toNat % 4 := by
    rw [requestedLevel, cut, BitVec.toNat_ofNat]
    omega
  have htable : cut sel.toNat 2 1 = 1 ↔ sel.toNat / 4 % 2 = 1 := by
    rw [← BitVec.toNat_inj, cut, BitVec.toNat_ofNat]
    rfl
  unfold Tables.lookup at h
  rw [hindex, hlimit] at h
  obtain ⟨hvalid, hd⟩ := Option.ite_none_left_eq_some.mp h
  rw [htable] at hvalid
  have hi : sel.toNat / 8 < 6 := by omega
  have hgdt : (descriptorTables s behind).gdt (sel.toNat / 8)
      = pack (segments s ⟨_, hi⟩).fields := dif_pos hi
  refine ⟨⟨sel.toNat / 8, hi⟩, fun he => hvalid (Or.inl (congrArg Fin.val he)), ?_, ?_⟩
  · rw [← BitVec.toNat_inj, (selector_index ⟨_, hi⟩ _).2.2, hlevel]
    show sel.toNat = 8 * (sel.toNat / 8) + sel.toNat % 4
    omega
  · rw [← hgdt]
    exact (Option.some.inj hd).symm

/-- The segment with the task state. It ends one byte behind `kernel_task_descriptor`. -/
def taskSegment (s : Symbols) (type : BitVec 4) : SegmentView where
  base := s.kernelTaskDescriptor.toBitVec
  limit := 104
  type := type
  s := 0
  dpl := 0
  present := 1

theorem taskSegment_busy : (taskSegment s 9).busy = taskSegment s 0xB := by
  have htype : (9 ||| 2 : BitVec 4) = 0xB := by decide
  exact congrArg (taskSegment s) htype

theorem readSegment_taskstate : readSegment (pack (segments s 5).fields) = taskSegment s 9 := by
  have hlimit : (assigned 4 ((sizeofTaskstate >>> 16) &&& 0xF) ++
      assigned 16 (sizeofTaskstate &&& 0xFFFF)).toNat = 104 := by decide
  rw [readSegment_fields, segments, Function.update_self, seg16, base_split]
  dsimp only
  rw [hlimit]
  rfl

theorem lookup_available : (descriptorTables s behind).lookup 0x28 = some (taskSegment s 9) :=
  (lookup_descriptorTables 5 (by decide) 0).trans (congrArg some readSegment_taskstate)

/-- **The task register can be loaded.** -/
theorem ltr_descriptorTables :
    (descriptorTables s behind).ltr 0x28 = some (segmentsInit s behind) := by
  have hltr := Tables.ltr_of_available (@lookup_available s behind) ⟨rfl, rfl, rfl⟩
  rw [segmentsInit, show assigned 16 segselTaskstate = 0x28 by decide, hltr]
  rfl

/-- The tables are what they have been, but for the task register and the descriptor of the task
state. -/
theorem segmentsInit_eq : segmentsInit s behind = { descriptorTables s behind with
    gdt := Function.update (descriptorTables s behind).gdt 5
      ((descriptorTables s behind).gdt 5 ||| 2 ^ 41)
    tr := 0x28 } :=
  Option.some.inj (ltr_descriptorTables.symm.trans
    (Tables.ltr_of_available (@lookup_available s behind) ⟨rfl, rfl, rfl⟩))

theorem lookup_segmentsInit (sel : BitVec 16) : (segmentsInit s behind).lookup sel =
    if (cut sel.toNat 3 13).toNat = 5
      then ((descriptorTables s behind).lookup sel).map SegmentView.busy
      else (descriptorTables s behind).lookup sel := by
  have hindex : (cut (0x28 : BitVec 16).toNat 3 13).toNat = 5 := by decide
  rw [Tables.ltr_lookup (@ltr_descriptorTables s behind) sel, hindex]

theorem readSegment_flat (type dpl : UInt32) :
    readSegment (pack (seg type 0 0xFFFFFFFF dpl).fields)
      = flatSegment (assigned 4 type) (assigned 2 dpl) := by
  have hlimit : (assigned 4 (((0xFFFFFFFF : UInt32) >>> 28) &&& 0xF) ++
      assigned 16 (((0xFFFFFFFF : UInt32) >>> 12) &&& 0xFFFF)).toNat = 0xFFFFF := by decide
  rw [readSegment_fields, seg, base_split]
  dsimp only
  rw [hlimit]
  rfl

theorem lookup_kernCode : (segmentsInit s behind).lookup 0x08 = some (flatSegment 0xA 0) :=
  (lookup_segmentsInit _).trans
    ((lookup_descriptorTables 1 (by decide) 0).trans (congrArg some (readSegment_flat ..)))

theorem lookup_kernData : (segmentsInit s behind).lookup 0x10 = some (flatSegment 0x2 0) :=
  (lookup_segmentsInit _).trans
    ((lookup_descriptorTables 2 (by decide) 0).trans (congrArg some (readSegment_flat ..)))

theorem lookup_appCode : (segmentsInit s behind).lookup 0x1B = some (flatSegment 0xA 3) :=
  (lookup_segmentsInit _).trans
    ((lookup_descriptorTables 3 (by decide) 3).trans (congrArg some (readSegment_flat ..)))

theorem lookup_appData : (segmentsInit s behind).lookup 0x23 = some (flatSegment 0x2 3) :=
  (lookup_segmentsInit _).trans
    ((lookup_descriptorTables 4 (by decide) 3).trans (congrArg some (readSegment_flat ..)))

/-- The task register leads to the task state, which is in use. -/
theorem lookup_taskstate :
    (segmentsInit s behind).lookup (segmentsInit s behind).tr = some (taskSegment s 0xB) := by
  rw [show (segmentsInit s behind).tr = 0x28 by rw [segmentsInit_eq], lookup_segmentsInit,
    lookup_available, if_pos (by decide), Option.map_some, taskSegment_busy]

/-- **The segments that there are**, and their selectors. -/
theorem lookup_cases {sel : BitVec 16} {d : SegmentView}
    (h : (segmentsInit s behind).lookup sel = some d) :
    d = taskSegment s 0xB ∨
      sel = 0x08 ||| (requestedLevel sel).setWidth 16 ∧ d = flatSegment 0xA 0 ∨
      sel = 0x10 ||| (requestedLevel sel).setWidth 16 ∧ d = flatSegment 0x2 0 ∨
      sel = 0x18 ||| (requestedLevel sel).setWidth 16 ∧ d = flatSegment 0xA 3 ∨
      sel = 0x20 ||| (requestedLevel sel).setWidth 16 ∧ d = flatSegment 0x2 3 := by
  have hlookup : ∃ d', (descriptorTables s behind).lookup sel = some d' ∧
      d = if (cut sel.toNat 3 13).toNat = 5 then d'.busy else d' := by
    rw [lookup_segmentsInit] at h
    split at h
    · next hindex =>
      obtain ⟨d', hd', rfl⟩ := Option.map_eq_some_iff.mp h
      exact ⟨d', hd', (if_pos hindex).symm⟩
    · next hindex => exact ⟨d, h, (if_neg hindex).symm⟩
  obtain ⟨d', hd', rfl⟩ := hlookup
  obtain ⟨i, hi, hsel, rfl⟩ := selector_of_lookup hd'
  have hindex : (cut sel.toNat 3 13).toNat = 5 ↔ i = 5 := by
    rw [hsel, (selector_index i _).1]
    exact Fin.val_inj (b := 5)
  have hsame : i ≠ 5 → segments s i = initialSegments i := fun hne =>
    Function.update_of_ne hne _ _
  by_cases hlast : i = 5
  · subst hlast
    left
    rw [if_pos (hindex.mpr rfl), readSegment_taskstate, taskSegment_busy]
  · right
    rw [if_neg (hindex.not.mpr hlast), hsame hlast]
    fin_cases i
    · exact absurd rfl hi
    · exact Or.inl ⟨hsel, readSegment_flat ..⟩
    · exact Or.inr (Or.inl ⟨hsel, readSegment_flat ..⟩)
    · exact Or.inr (Or.inr (Or.inl ⟨hsel, readSegment_flat ..⟩))
    · exact Or.inr (Or.inr (Or.inr ⟨hsel, readSegment_flat ..⟩))
    · exact absurd rfl hlast

/-- The only segment that is not flat is the one with the task state. -/
theorem lookup_flat {sel : BitVec 16} {d : SegmentView}
    (h : (segmentsInit s behind).lookup sel = some d) (hs : d.s = 1) : d.Flat := by
  rcases lookup_cases h with rfl | ⟨-, rfl⟩ | ⟨-, rfl⟩ | ⟨-, rfl⟩ | ⟨-, rfl⟩
  · cases hs
  · exact flatSegment_flat _ _
  · exact flatSegment_flat _ _
  · exact flatSegment_flat _ _
  · exact flatSegment_flat _ _

theorem taskLimit_eq : (segmentsInit s behind).taskLimit = 104 := by
  rw [Tables.taskLimit, lookup_taskstate]
  rfl

/-! ## From an application into the kernel -/

theorem readGate_idt (v : UInt8) : readGate ((segmentsInit s behind).idt v.toNat) = {
    offset := (s.handler (interruptDescriptors v)).toBitVec
    selector := 8
    type := 14
    s := 0
    dpl := (interruptDescriptors v).dpl.toBitVec.setWidth 2
    present := 1 } := by
  have hv : UInt8.ofNat v.toNat = v := UInt8.ofNat_toNat
  rw [segmentsInit_eq]
  show readGate (pack (interruptGates s (UInt8.ofNat v.toNat)).fields) = _
  rw [hv, interruptGates_eq]
  exact readGate_setgate ..

/-- What the processor reads in `kernel_task_descriptor`. -/
theorem cut_task {lo len : Nat} (h : lo + len ≤ 832) :
    cut (segmentsInit s behind).task lo len = cut (pack kernelTaskDescriptor.fields) lo len := by
  rw [segmentsInit_eq]
  exact cut_add_mul _ _ h

/-- The stack of the kernel. -/
theorem stackOf_kernel (o : Origin) : (segmentsInit s behind).stackOf o 0
    = .ok (0x10, kernelStackTop.toBitVec) := by
  have hesp : cut (segmentsInit s behind).task (8 * (8 * (0 : BitVec 2).toNat + 4)) 32
      = kernelStackTop.toBitVec := by
    rw [cut_task (by decide)]
    exact cut_pack kernelTaskDescriptor.fields 1 (show 1 < 37 by decide)
  have hss : cut (segmentsInit s behind).task (8 * (8 * (0 : BitVec 2).toNat + 4 + 4)) 16
      = 0x10 := by
    rw [cut_task (by decide)]
    exact cut_pack kernelTaskDescriptor.fields 2 (show 2 < 37 by decide)
  unfold Tables.stackOf
  dsimp only
  rw [taskLimit_eq, hesp, hss, if_neg (by decide), lookup_kernData]
  rfl

/-- Entering a handler of the kernel: with its privileges, on its stack, and interrupts off. -/
def kernelEntry (eip : UInt32) : Entry where
  eip := eip.toBitVec
  cs := 0x08
  cpl := 0
  stack := some (0x10, kernelStackTop.toBitVec)
  clearsIf := true

/-- Through any gate into the kernel's code. -/
theorem enter_kernel (o : Origin) (off : UInt32) (dpl : BitVec 2) :
    (segmentsInit s behind).enter 3 o {
      offset := off.toBitVec, selector := 0x08, type := 14, s := 0, dpl, present := 1 }
      = .ok (kernelEntry off) := by
  have hcode : (flatSegment 0xA 0).Code ∧ ¬ (flatSegment 0xA 0).Conforming := by decide
  unfold Tables.enter
  dsimp only
  rw [lookup_kernCode]
  dsimp only
  rw [if_neg (not_or.mpr ⟨not_not_intro hcode.1, by decide⟩), if_neg (by decide),
    if_pos ⟨hcode.2, by decide⟩, show (flatSegment 0xA 0).dpl = 0 from rfl, stackOf_kernel]
  rfl

/-- **An interrupt at the level of the applications.** -/
theorem deliver_user (o : Origin) (v : UInt8) : (segmentsInit s behind).deliver 3 o v =
    if o = .software ∧ (v < 48 ∨ 57 < v) then
      .error (generalProtection (8 * v.toNat + 2))
    else .ok (kernelEntry (s.handler (interruptDescriptors v))) := by
  have hlimit : ¬ (segmentsInit s behind).idtLimit < 8 * v.toNat + 7 := by
    have hv := v.toNat_lt
    rw [segmentsInit_eq]
    show ¬ 2047 < 8 * v.toNat + 7
    omega
  unfold Tables.deliver
  rw [readGate_idt]
  dsimp only
  rw [if_neg hlimit, if_neg (by decide), enter_kernel]
  have hdpl := (Handler.dpl_lt (interruptDescriptors v)).trans dpl_eq_zero_iff
  by_cases h : o = .software ∧ (v < 48 ∨ 57 < v)
  · rw [if_pos ⟨h.1, hdpl.mpr h.2⟩, if_pos h, h.1]
    rfl
  · rw [if_neg fun hlt => h ⟨hlt.1, hdpl.mp hlt.2⟩, if_neg h, if_neg (by decide)]

/-- **Every interrupt of an application ends in the kernel**: in the handler of its gate, or in the
default handler, as a general protection fault, if it is an `int` other than a system call. -/
theorem interrupts_enter_kernel (s : Symbols) (behind : Nat) (o : Origin) (v : UInt8)
    (err : Option UInt32) (exception : err.isSome → v < 32) :
    (segmentsInit s behind).take 3 o v err exception = some
      (if o = .software ∧ (v < 48 ∨ 57 < v) then
        ⟨13, some (8 * UInt32.ofNat v.toNat + 2), fun _ => by decide,
          kernelEntry (s.handler .default)⟩
      else ⟨v, err, exception, kernelEntry (s.handler (interruptDescriptors v))⟩) := by
  have hv := @deliver_user s behind o v
  split at hv
  · next h =>
    have hfault : interruptDescriptors 13 = .default := interruptDescriptors_exception (by decide)
    have hexternal := @deliver_user s behind .external 13
    rw [if_neg (by simp), hfault] at hexternal
    rw [if_pos h, Tables.take_of_fault hv hexternal]
    simp [generalProtection]
  · next h => rw [if_neg h, Tables.take_of_deliver hv]

/-- A page fault, with the error code of a write. -/
theorem interrupts_enter_kernel_pageFault :
    (segmentsInit ⟨0x103000, fun _ => 0x100200⟩ 0).take 3 .external 14 (some 6)
        (fun _ => by decide) =
      some ⟨14, some 6, fun _ => by decide, kernelEntry 0x100200⟩ := by
  rw [interrupts_enter_kernel _ 0 .external 14 (some 6) fun _ => by decide, if_neg (by simp)]

/-- **`iret` gets back to an application.** -/
theorem returns_to_application (s : Symbols) (behind : Nat) :
    (segmentsInit s behind).Returns 0 0x1B 0x23 :=
  ⟨by decide, ⟨_, lookup_appCode, by decide, rfl, by decide⟩,
    ⟨_, lookup_appData, by decide, rfl, by decide, rfl⟩⟩

/-- An application stays in its code segment … -/
theorem jump_application {sel : BitVec 16} {r : SegmentRegister}
    (h : (segmentsInit s behind).jump 3 sel = some r) : r.selector = 0x1B := by
  have hlevel : ∀ rpl : BitVec 2, ((0x18 ||| rpl.setWidth 16 : BitVec 16) &&& ~~~3)
      ||| (3 : BitVec 2).setWidth 16 = 0x1B := by decide
  obtain ⟨d, hd, h⟩ := Option.bind_eq_some_iff.mp h
  obtain ⟨⟨hcode, -, hdpl⟩, hr⟩ := Option.ite_none_right_eq_some.mp h
  rcases lookup_cases hd with rfl | ⟨-, rfl⟩ | ⟨-, rfl⟩ | ⟨hsel, rfl⟩ | ⟨-, rfl⟩
  · cases hcode.1
  · rw [if_neg (by decide)] at hdpl
    exact absurd hdpl.1 (by decide)
  · exact absurd hcode (by decide)
  · cases hr
    show (sel &&& ~~~3) ||| (3 : BitVec 2).setWidth 16 = 0x1B
    rw [hsel]
    exact hlevel _
  · exact absurd hcode (by decide)

/-- … and on its stack segment. -/
theorem loadStack_application {sel : BitVec 16} {r : SegmentRegister}
    (h : (segmentsInit s behind).loadStack 3 sel = some r) : r.selector = 0x23 := by
  obtain ⟨d, hd, h⟩ := Option.bind_eq_some_iff.mp h
  obtain ⟨⟨hdata, -, hdpl, hlevel⟩, hr⟩ := Option.ite_none_right_eq_some.mp h
  rcases lookup_cases hd with rfl | ⟨-, rfl⟩ | ⟨-, rfl⟩ | ⟨-, rfl⟩ | ⟨hsel, rfl⟩
  · cases hdata.1
  · exact absurd hdata (by decide)
  · exact absurd hdpl (by decide)
  · exact absurd hdata (by decide)
  · cases hr
    show sel = 0x23
    rw [hsel, hlevel]
    decide

theorem loadsData_application (s : Symbols) (behind : Nat) :
    (segmentsInit s behind).LoadsData 3 0x23 := by
  rw [Tables.LoadsData, lookup_appData]
  decide

/-! ## No memory protection -/

/-- **There is no memory protection.** Whatever segments an application gets hold of, by loading
them or by an `iret` of the kernel, an offset in them is an address; and one that it has from the
start can be written to at every address. -/
theorem no_memory_protection (s : Symbols) (behind : Nat) :
    (∀ sel d, (segmentsInit s behind).lookup sel = some d →
      ((segmentsInit s behind).LoadsData 3 sel ∨
        (∃ ss, (segmentsInit s behind).Returns 0 sel ss) ∨
        ∃ cs, (segmentsInit s behind).Returns 0 cs sel) → d.Flat) ∧
    ∀ a : BitVec 32, ∃ d, (segmentsInit s behind).LoadsData 3 0x23 ∧
      (segmentsInit s behind).lookup 0x23 = some d ∧ d.WritableData ∧ d.linear a 1 = some a := by
  refine ⟨fun sel d hd hgets => lookup_flat hd ?_, fun a => ?_⟩
  · rcases hgets with hload | ⟨ss, -, ⟨d', hd', hcode, -⟩, -⟩ | ⟨cs, -, -, d', hd', hdata, -⟩
    · rw [Tables.LoadsData, hd] at hload
      exact hload.1.1
    · obtain rfl : d = d' := Option.some.inj (hd.symm.trans hd')
      exact hcode.1
    · obtain rfl : d = d' := Option.some.inj (hd.symm.trans hd')
      exact hdata.1
  · refine ⟨_, loadsData_application s behind, lookup_appData, by decide, ?_⟩
    exact flatSegment_flat _ _ a 1 a.isLt

/-! ## Ports -/

/-- The task state as a number: only `ts_esp0` and `ts_ss0` are not 0. -/
theorem pack_kernelTaskDescriptor :
    pack kernelTaskDescriptor.fields = 2 ^ 51 + 2 ^ 52 + 2 ^ 68 := by decide

theorem cut_one_eq_zero_iff (n lo : Nat) : cut n lo 1 = 0 ↔ n / 2 ^ lo % 2 = 0 := by
  rw [← BitVec.toNat_inj, cut, BitVec.toNat_ofNat]
  rfl

/-- **The ports that the applications may use.** Their I/O privilege level gives them none. But
`ts_iomb` is 0, so that the processor takes the task state itself for the I/O permission bit map,
and there almost all bits are 0. Among the ports are those of the interrupt controllers, of the
clock and of the keyboard. -/
theorem io_permitted_iff (s : Symbols) (behind port : Nat) :
    (segmentsInit s behind).IoPermitted 3 0 port 1 ↔
      port < 832 ∧ port ≠ 0x33 ∧ port ≠ 0x34 ∧ port ≠ 0x44 := by
  have hbase : (segmentsInit s behind).ioMapBase = 0 := by
    rw [Tables.ioMapBase, cut_task (by decide)]
    exact congrArg BitVec.toNat (cut_pack kernelTaskDescriptor.fields 36 (show 36 < 37 by decide))
  have hbits : ∀ port < 832, (2 ^ 51 + 2 ^ 52 + 2 ^ 68) / 2 ^ port % 2 = 0 ↔
      port ≠ 0x33 ∧ port ≠ 0x34 ∧ port ≠ 0x44 := by decide +kernel
  rw [Tables.IoPermitted, hbase, taskLimit_eq, Nat.zero_add]
  by_cases hport : port < 832
  · have hread : port / 8 + 1 ≤ 104 := by omega
    rw [show 8 * (port / 8) + port % 8 = port by omega, cut_task hport,
      pack_kernelTaskDescriptor, cut_one_eq_zero_iff, hbits port hport]
    simp [hread, hport]
  · have hread : ¬ port / 8 + 1 ≤ 104 := by omega
    simp [hread, hport]

/-- The controllers, the clock and the keyboard. -/
example : ∀ port ∈ [0x20, 0x21, 0xA0, 0xA1, 0x40, 0x43, 0x60, 0x64],
    port < 832 ∧ port ≠ 0x33 ∧ port ≠ 0x34 ∧ port ≠ 0x44 := by decide

end SchedOS
