import Mathlib.Tactic

/-!
# The interrupt controllers of a PC

Two 8259A controllers, the slave on line 2 of the master, and the first counter of the 8253 timer,
as far as a program sees them: what it outputs to their ports, which request comes to the
processor next, and what happens when the processor takes it.

The priorities are fixed, with line 0 first; commands that rotate them have no effect here. The
polling mode and the special fully nested mode are left out.
-/

namespace Infra

def testBit (d : UInt8) (i : Nat) : Bool := d.toNat.testBit i

/-- What a controller takes the next byte at its data port for. -/
inductive Expects where
  | mask
  | icw2
  | icw3
  | icw4
  deriving DecidableEq

/-- A controller, with the initialization command words as they have been output. -/
structure Pic where
  expects : Expects
  icw1 : UInt8
  icw2 : UInt8
  icw3 : UInt8
  icw4 : UInt8
  mask : UInt8
  /-- The lines on which there is a request. -/
  requests : Fin 8 → Bool
  /-- The lines whose request has been taken, but whose end has not been reported. -/
  inService : Fin 8 → Bool
  /-- A masked line in service does not hold up others. -/
  specialMask : Bool
  readsInService : Bool

namespace Pic

/-- The requests end by themselves when they are taken. -/
def autoEoi (p : Pic) : Bool := testBit p.icw4 1

/-- The first line in service. -/
def serviced (p : Pic) : Option (Fin 8) := (List.finRange 8).find? p.inService

/-- OCW2. -/
def endOfInterrupt (p : Pic) (d : UInt8) : Pic :=
  if testBit d 5 then
    if testBit d 6 then
      { p with inService := Function.update p.inService (Fin.ofNat 8 d.toNat) false }
    else match p.serviced with
      | some i => { p with inService := Function.update p.inService i false }
      | none => p
  else p

/-- A byte at the command port. ICW1 begins the initialization, whatever went on before. -/
def command (p : Pic) (d : UInt8) : Pic :=
  if testBit d 4 then
    { p with
      expects := .icw2
      icw1 := d
      icw4 := if testBit d 0 then p.icw4 else 0
      mask := 0
      requests := fun _ => false
      inService := fun _ => false
      specialMask := false
      readsInService := false }
  else if testBit d 3 then
    -- OCW3
    { p with
      specialMask := if testBit d 6 then testBit d 5 else p.specialMask
      readsInService := if testBit d 1 then testBit d 0 else p.readsInService }
  else p.endOfInterrupt d

/-- A byte at the data port. -/
def data (p : Pic) (d : UInt8) : Pic :=
  let last := if testBit p.icw1 0 then .icw4 else .mask
  match p.expects with
  | .mask => { p with mask := d }
  | .icw2 => { p with icw2 := d, expects := if testBit p.icw1 1 then last else .icw3 }
  | .icw3 => { p with icw3 := d, expects := last }
  | .icw4 => { p with icw4 := d, expects := .mask }

/-- **Initialization**: an ICW1 that announces an ICW3 and an ICW4 and the other three words leave
nothing of the former state. -/
theorem setUp (p : Pic) {icw1 : UInt8} (h₄ : testBit icw1 4) (h₁ : ¬ testBit icw1 1)
    (h₀ : testBit icw1 0) (icw2 icw3 icw4 : UInt8) :
    (((p.command icw1).data icw2).data icw3).data icw4 = {
      expects := .mask, icw1, icw2, icw3, icw4
      mask := 0
      requests := fun _ => false
      inService := fun _ => false
      specialMask := false
      readsInService := false } := by
  simp [command, data, h₀, h₁, h₄]

/-- A line of equal or higher priority is in service. -/
def HeldUp (p : Pic) (i : Fin 8) : Prop :=
  ∃ j ≤ i, p.inService j ∧ ¬ (p.specialMask ∧ testBit p.mask j)

instance (p : Pic) (i : Fin 8) : Decidable (p.HeldUp i) :=
  inferInstanceAs (Decidable (∃ _, _ ∧ _ ∧ _))

/-- The line whose turn it is. -/
def pending (p : Pic) : Option (Fin 8) :=
  (List.finRange 8).find? fun i => p.requests i ∧ ¬ testBit p.mask i ∧ ¬ p.HeldUp i

def request (p : Pic) (i : Fin 8) : Pic :=
  { p with requests := Function.update p.requests i true }

/-- The processor takes the request on a line. -/
def accept (p : Pic) (i : Fin 8) : Pic :=
  { p with
    requests := Function.update p.requests i false
    inService := Function.update p.inService i (!p.autoEoi) }

/-- The interrupt that is signalled for a line. -/
def vector (p : Pic) (i : Fin 8) : UInt8 := (p.icw2 &&& 0xF8) ||| UInt8.ofNat i

/-- Without a request on an unmasked line there is nothing to take. -/
theorem pending_eq_none {p : Pic} (h : ∀ i, p.requests i → testBit p.mask i) :
    p.pending = none := by
  refine List.find?_eq_none.mpr fun i _ => ?_
  simp only [decide_eq_true_eq, not_and]
  exact fun hi hmask => absurd (h i hi) hmask

/-- With one unmasked line and nothing in service, the request on that line is taken. -/
theorem pending_eq_some {p : Pic} {i : Fin 8} (hrequest : p.requests i)
    (hmask : ¬ testBit p.mask i) (hothers : ∀ j, j ≠ i → testBit p.mask j)
    (hservice : ∀ j, ¬ p.inService j) : p.pending = some i := by
  have hheld : ¬ p.HeldUp i := fun ⟨j, _, hj, _⟩ => hservice j hj
  have hfound : (p.pending).isSome := by
    refine List.find?_isSome.mpr ⟨i, List.mem_finRange i, ?_⟩
    simp only [decide_eq_true_eq]
    exact ⟨hrequest, hmask, hheld⟩
  obtain ⟨j, hj⟩ := Option.isSome_iff_exists.mp hfound
  have hsat := List.find?_some hj
  simp only [decide_eq_true_eq] at hsat
  by_cases hne : j = i
  · rw [hj, hne]
  · exact absurd (hothers j hne) hsat.2.1

end Pic

/-- The first counter of the timer. -/
structure Timer where
  control : UInt8
  /-- The next byte is the upper one. -/
  upper : Bool
  low : UInt8
  high : UInt8

/-- A byte at the mode port, if it is for the first counter. -/
def Timer.setMode (t : Timer) (d : UInt8) : Timer :=
  if testBit d 6 ∨ testBit d 7 then t else { t with control := d, upper := false }

/-- A byte at the port of the counter, which expects two. -/
def Timer.count (t : Timer) (d : UInt8) : Timer :=
  if t.upper then { t with high := d, upper := false } else { t with low := d, upper := true }

/-- The number of cycles in which the counter counts down. -/
def Timer.reload (t : Timer) : Nat := t.low.toNat + 256 * t.high.toNat

/-- The devices. -/
structure Devices where
  master : Pic
  slave : Pic
  timer : Timer

namespace Devices

/-- `outb`. -/
def outb (s : Devices) (port : Nat) (d : UInt8) : Devices :=
  if port = 0x20 then { s with master := s.master.command d }
  else if port = 0x21 then { s with master := s.master.data d }
  else if port = 0xA0 then { s with slave := s.slave.command d }
  else if port = 0xA1 then { s with slave := s.slave.data d }
  else if port = 0x40 then { s with timer := s.timer.count d }
  else if port = 0x43 then { s with timer := s.timer.setMode d }
  else s

def outbs (s : Devices) (outs : List (Nat × UInt8)) : Devices :=
  outs.foldl (fun s out => s.outb out.1 out.2) s

/-- The master, with the request that the slave makes. -/
def cascaded (s : Devices) : Pic :=
  { s.master with
    requests := Function.update s.master.requests 2 s.slave.pending.isSome }

/-- The line of the timer. -/
def timerLine : Fin 16 := 0

/-- There is a request on it. -/
def timerRequests (s : Devices) : Bool := s.master.requests 0

/-- Line `i` of the machine rises. On line 2 there is no device. -/
def raise (s : Devices) (i : Fin 16) : Devices :=
  if h : i.val < 8 then
    if i = 2 then s else { s with master := s.master.request ⟨i, h⟩ }
  else { s with slave := s.slave.request ⟨i - 8, by omega⟩ }

/-- The processor takes an interrupt: its vector, if there is one. -/
def acknowledge (s : Devices) : Option (UInt8 × Devices) :=
  match s.cascaded.pending with
  | none => none
  | some i =>
    let master := s.master.accept i
    if testBit s.master.icw3 i then
      match s.slave.pending with
      | some j => some (s.slave.vector j, { s with master, slave := s.slave.accept j })
      | none => some (s.slave.vector 7, { s with master })
    else some (s.master.vector i, { s with master })

end Devices

end Infra
