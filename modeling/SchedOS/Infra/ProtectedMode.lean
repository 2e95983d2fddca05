import SchedOS.Infra.Bitfields

/-!
# Segments and gates of an x86 in protected mode

What the processor makes of the tables that an operating system has set up: the descriptors that
it reads in them, the checks with which it enters the handler of an interrupt and returns from it,
and the permission to use an I/O port. The tables are given as the numbers that they make up in
memory, and are cut up here as the processor cuts them up.

Only 32-bit interrupt and trap gates are known; another type of gate counts as an error, as an
invalid one does. There is no local descriptor table.
-/

namespace Infra

/-! ## Descriptors -/

/-- A descriptor of the global descriptor table. -/
structure SegmentView where
  base : BitVec 32
  limit : Nat
  type : BitVec 4
  /-- 1 for code and data, 0 for the segments of the system. -/
  s : BitVec 1
  dpl : BitVec 2
  present : BitVec 1
  deriving DecidableEq

/-- With the granularity bit the limit counts pages. -/
def readSegment (n : Nat) : SegmentView where
  base := cut n 56 8 ++ cut n 32 8 ++ cut n 16 16
  limit :=
    let limit := (cut n 48 4 ++ cut n 0 16).toNat
    if cut n 55 1 = 1 then 4096 * limit + 4095 else limit
  type := cut n 40 4
  s := cut n 44 1
  dpl := cut n 45 2
  present := cut n 47 1

def SegmentView.Code (d : SegmentView) : Prop := d.s = 1 ∧ d.type.getLsbD 3

/-- Code with this bit runs with the privileges of its caller. -/
def SegmentView.Conforming (d : SegmentView) : Prop := d.type.getLsbD 2

def SegmentView.WritableData (d : SegmentView) : Prop :=
  d.s = 1 ∧ ¬ d.type.getLsbD 3 ∧ d.type.getLsbD 1

/-- Data, or code that can be read. -/
def SegmentView.Readable (d : SegmentView) : Prop :=
  d.s = 1 ∧ (d.type.getLsbD 3 → d.type.getLsbD 1)

instance (d : SegmentView) : Decidable d.Code := inferInstanceAs (Decidable (_ ∧ _))
instance (d : SegmentView) : Decidable d.Conforming := inferInstanceAs (Decidable (_ = true))
instance (d : SegmentView) : Decidable d.WritableData := inferInstanceAs (Decidable (_ ∧ _ ∧ _))
instance (d : SegmentView) : Decidable d.Readable := inferInstanceAs (Decidable (_ ∧ (_ → _)))

/-- A descriptor of the interrupt descriptor table. -/
structure GateView where
  offset : BitVec 32
  selector : BitVec 16
  type : BitVec 4
  s : BitVec 1
  dpl : BitVec 2
  present : BitVec 1
  deriving DecidableEq

def readGate (n : Nat) : GateView where
  offset := cut n 48 16 ++ cut n 0 16
  selector := cut n 16 16
  type := cut n 40 4
  s := cut n 44 1
  dpl := cut n 45 2
  present := cut n 47 1

/-- What the registers GDTR, IDTR and TR lead to. -/
structure Tables where
  gdt : Nat → Nat
  gdtLimit : Nat
  idt : Nat → Nat
  idtLimit : Nat
  tr : BitVec 16
  /-- What lies in memory from the base of the task state segment on. -/
  task : Nat

def requestedLevel (sel : BitVec 16) : BitVec 2 := cut sel.toNat 0 2

/-- The descriptor that a selector selects. -/
def Tables.lookup (t : Tables) (sel : BitVec 16) : Option SegmentView :=
  let index := (cut sel.toNat 3 13).toNat
  if index = 0 ∨ cut sel.toNat 2 1 = 1 ∨ t.gdtLimit < 8 * index + 7 then none
  else some (readSegment (t.gdt index))

def Tables.taskLimit (t : Tables) : Nat :=
  match t.lookup t.tr with
  | some d => d.limit
  | none => 0

/-! ## Interrupts -/

/-- Where an interrupt comes from. -/
inductive Origin where
  /-- The instruction `int`. -/
  | software
  /-- An exception or a device. -/
  | external
  deriving DecidableEq

/-- A fault in the course of an interrupt, with its vector and its error code. -/
structure Fault where
  vector : UInt8
  exception : vector < 32
  err : UInt32

def invalidTss (err : Nat) : Fault := ⟨10, by decide, UInt32.ofNat err⟩
def notPresent (err : Nat) : Fault := ⟨11, by decide, UInt32.ofNat err⟩
def stackFault (err : Nat) : Fault := ⟨12, by decide, UInt32.ofNat err⟩
def generalProtection (err : Nat) : Fault := ⟨13, by decide, UInt32.ofNat err⟩

/-- Bit 0 of an error code. -/
def Origin.ext : Origin → Nat
  | .software => 0
  | .external => 1

/-- The error code for a selector, without its requested level. -/
def selectorError (o : Origin) (sel : BitVec 16) : Nat := 4 * (sel.toNat / 4) + o.ext

/-- How the processor enters a handler. -/
structure Entry where
  eip : BitVec 32
  cs : BitVec 16
  cpl : BitVec 2
  /-- The stack to which it changes, if it does. -/
  stack : Option (BitVec 16 × BitVec 32)
  clearsIf : Bool
  deriving DecidableEq

/-- The stack for a level of privilege, as the task state segment has it. -/
def Tables.stackOf (t : Tables) (o : Origin) (cpl : BitVec 2) :
    Except Fault (BitVec 16 × BitVec 32) :=
  let offset := 8 * cpl.toNat + 4
  if t.taskLimit < offset + 5 then .error (invalidTss (selectorError o t.tr))
  else
    let esp := cut t.task (8 * offset) 32
    let ss := cut t.task (8 * (offset + 4)) 16
    match t.lookup ss with
    | none => .error (invalidTss (selectorError o ss))
    | some d =>
      if requestedLevel ss ≠ cpl ∨ d.dpl ≠ cpl ∨ ¬ d.WritableData then
        .error (invalidTss (selectorError o ss))
      else if d.present = 0 then .error (stackFault (selectorError o ss))
      else .ok (ss, esp)

/-- From the gate to the handler. -/
def Tables.enter (t : Tables) (cpl : BitVec 2) (o : Origin) (g : GateView) :
    Except Fault Entry :=
  match t.lookup g.selector with
  | none => .error (generalProtection (selectorError o g.selector))
  | some d =>
    if ¬ d.Code ∨ cpl < d.dpl then .error (generalProtection (selectorError o g.selector))
    else if d.present = 0 then .error (notPresent (selectorError o g.selector))
    else if ¬ d.Conforming ∧ d.dpl < cpl then do
      let stack ← t.stackOf o d.dpl
      .ok { eip := g.offset, cs := (g.selector &&& ~~~3) ||| d.dpl.setWidth 16, cpl := d.dpl,
            stack := some stack, clearsIf := g.type = 14 }
    else
      .ok { eip := g.offset, cs := (g.selector &&& ~~~3) ||| cpl.setWidth 16, cpl
            stack := none, clearsIf := g.type = 14 }

/-- An interrupt that is taken at the level `cpl`. -/
def Tables.deliver (t : Tables) (cpl : BitVec 2) (o : Origin) (v : UInt8) : Except Fault Entry :=
  let err := 8 * v.toNat + 2 + o.ext
  let g := readGate (t.idt v.toNat)
  if t.idtLimit < 8 * v.toNat + 7 then .error (generalProtection err)
  else if g.s = 1 ∨ (g.type ≠ 14 ∧ g.type ≠ 15) then .error (generalProtection err)
  else if o = .software ∧ g.dpl < cpl then .error (generalProtection err)
  else if g.present = 0 then .error (notPresent err)
  else t.enter cpl o g

/-- An interrupt whose handler is entered. Only exceptions have an error code. -/
structure Taken where
  vector : UInt8
  err : Option UInt32
  exception : err.isSome → vector < 32
  entry : Entry

/-- What comes of an interrupt: its handler, or that of the fault on the way to it, or that of a
double fault. Else the processor shuts down. -/
def Tables.take (t : Tables) (cpl : BitVec 2) (o : Origin) (v : UInt8) (err : Option UInt32)
    (exception : err.isSome → v < 32) : Option Taken :=
  match t.deliver cpl o v with
  | .ok entry => some ⟨v, err, exception, entry⟩
  | .error f =>
    match t.deliver cpl .external f.vector with
    | .ok entry => some ⟨f.vector, some f.err, fun _ => f.exception, entry⟩
    | .error _ =>
      match t.deliver cpl .external 8 with
      | .ok entry => some ⟨8, some 0, fun _ => by decide, entry⟩
      | .error _ => none

section Take

variable {t : Tables} {cpl : BitVec 2} {o : Origin} {v : UInt8} {err : Option UInt32}
  {exception : err.isSome → v < 32} {entry : Entry}

theorem Tables.take_of_deliver (h : t.deliver cpl o v = .ok entry) :
    t.take cpl o v err exception = some ⟨v, err, exception, entry⟩ := by
  rw [Tables.take, h]

theorem Tables.take_of_fault {f : Fault} (hf : t.deliver cpl o v = .error f)
    (h : t.deliver cpl .external f.vector = .ok entry) :
    t.take cpl o v err exception = some ⟨f.vector, some f.err, fun _ => f.exception, entry⟩ := by
  rw [Tables.take, hf]
  dsimp only
  rw [h]

end Take

/-! ## Back to a process -/

/-- `iret` may load the selectors `cs` and `ss` on the way to a lower level of privilege. -/
def Tables.Returns (t : Tables) (cpl : BitVec 2) (cs ss : BitVec 16) : Prop :=
  cpl < requestedLevel cs ∧
  (∃ d, t.lookup cs = some d ∧ d.Code ∧ d.present = 1 ∧
    if d.Conforming then d.dpl ≤ requestedLevel cs else d.dpl = requestedLevel cs) ∧
  ∃ d, t.lookup ss = some d ∧ d.WritableData ∧ d.present = 1 ∧
    requestedLevel ss = requestedLevel cs ∧ d.dpl = requestedLevel cs

/-- The selector can be loaded into `%ds` or `%es`: it is null, or one of data. -/
def Tables.LoadsData (t : Tables) (cpl : BitVec 2) (sel : BitVec 16) : Prop :=
  match t.lookup sel with
  | none => cut sel.toNat 2 14 = 0
  | some d => d.Readable ∧ d.present = 1 ∧ cpl ≤ d.dpl ∧ requestedLevel sel ≤ d.dpl

instance (t : Tables) (cpl : BitVec 2) (sel : BitVec 16) : Decidable (t.LoadsData cpl sel) := by
  unfold Tables.LoadsData
  cases t.lookup sel <;> infer_instance

/-- What can be loaded with few privileges can be loaded with more. -/
theorem Tables.LoadsData.of_le {t : Tables} {cpl cpl' : BitVec 2} {sel : BitVec 16}
    (h : t.LoadsData cpl sel) (hle : cpl' ≤ cpl) : t.LoadsData cpl' sel := by
  unfold Tables.LoadsData at h ⊢
  split
  · next hnone => rwa [hnone] at h
  · next d hd =>
    rw [hd] at h
    exact ⟨h.1, h.2.1, BitVec.le_trans hle h.2.2.1, h.2.2.2⟩

/-! ## Ports -/

/-- Where the I/O permission bit map begins in the task state segment. -/
def Tables.ioMapBase (t : Tables) : Nat := (cut t.task (8 * 102) 16).toNat

/-- The `n` ports from `port` on may be used. Without the privilege, a bit for each of them decides;
two bytes of the map are always read. -/
def Tables.IoPermitted (t : Tables) (cpl iopl : BitVec 2) (port n : Nat) : Prop :=
  cpl ≤ iopl ∨ 103 ≤ t.taskLimit ∧ t.ioMapBase + port / 8 + 1 ≤ t.taskLimit ∧
    cut t.task (8 * (t.ioMapBase + port / 8) + port % 8) n = 0

instance (t : Tables) (cpl iopl : BitVec 2) (port n : Nat) :
    Decidable (t.IoPermitted cpl iopl port n) :=
  inferInstanceAs (Decidable (_ ∨ _ ∧ _ ∧ _))

end Infra
