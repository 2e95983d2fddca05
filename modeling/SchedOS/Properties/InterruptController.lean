import SchedOS.Kern.InterruptController
import SchedOS.Infra.Run

/-!
# Which devices interrupt the processor

The kernel masks all lines but that of the clock, and never reports the end of an interrupt: the
master is told to do without. So it depends on nothing but the clock's own line whether the clock
interrupts the processor.

* `clock_only` — the only interrupt that ever comes is that of the clock, and each time anew
-/

namespace SchedOS

open Infra

variable {allow : Bool} {s : Devices}

/-! ## What `interrupt_controller_init` leaves -/

theorem outb_pic1_command (s : Devices) (d : UInt8) :
    s.outb ioPic1 d = { s with master := s.master.command d } := rfl

theorem outb_pic1_data (s : Devices) (d : UInt8) :
    s.outb (ioPic1 + 1) d = { s with master := s.master.data d } := rfl

theorem outb_pic2_command (s : Devices) (d : UInt8) :
    s.outb ioPic2 d = { s with slave := s.slave.command d } := rfl

theorem outb_pic2_data (s : Devices) (d : UInt8) :
    s.outb (ioPic2 + 1) d = { s with slave := s.slave.data d } := rfl

/-- ICW1 to ICW4, the two bytes of OCW3 and the mask. The first byte of OCW3 sets the special mask
mode, though the source says that it clears it. -/
theorem controller_init (p : Pic) (icw2 icw3 icw4 mask : UInt8) :
    ((((((p.command 0x11).data icw2).data icw3).data icw4).command 0x68).command 0x0A).data mask = {
      expects := .mask
      icw1 := 0x11
      icw2, icw3, icw4, mask
      requests := fun _ => false
      inService := fun _ => false
      specialMask := true
      readsInService := false } := by
  rw [p.setUp (by decide) (by decide) (by decide)]
  rfl

/-- **The state of the devices afterwards**, whatever it was before. -/
theorem outbs_interruptControllerInit (allow : Bool) (s : Devices) :
    s.outbs (interruptControllerInit allow) = {
      master := ⟨.mask, 0x11, 32, 4, 3, if allow then 0xFE else 0xFF, fun _ => false,
        fun _ => false, true, false⟩
      slave := ⟨.mask, 0x11, 40, 2, 1, 0xFF, fun _ => false, fun _ => false, true, false⟩
      timer := if allow then ⟨0x34, false, 0x8E, 1⟩ else s.timer } := by
  rw [interruptControllerInit, Devices.outbs, List.foldl_append]
  simp only [List.foldl_cons, List.foldl_nil, outb_pic1_command, outb_pic1_data,
    outb_pic2_command, outb_pic2_data, controller_init]
  cases allow
  · rfl
  · rfl

/-! ## Which requests come through -/

/-- The controllers as they are then, with any requests. -/
structure ClockOnly (allow : Bool) (s : Devices) : Prop where
  icw2 : s.master.icw2 = 32
  icw3 : s.master.icw3 = 4
  icw4 : s.master.icw4 = 3
  mask : s.master.mask = if allow then 0xFE else 0xFF
  inService : ∀ i, s.master.inService i = false

theorem testBit_mask (allow : Bool) (i : Fin 8) :
    Infra.testBit (if allow then 0xFE else 0xFF) i ↔ ¬ (allow = true ∧ i = 0) := by
  revert i
  cases allow <;> decide

theorem clockOnly_init (allow : Bool) (s : Devices) :
    ClockOnly allow (s.outbs (interruptControllerInit allow)) := by
  rw [outbs_interruptControllerInit]
  exact ⟨rfl, rfl, rfl, rfl, fun _ => rfl⟩

theorem ClockOnly.raise (h : ClockOnly allow s) (i : Fin 16) : ClockOnly allow (s.raise i) := by
  unfold Devices.raise
  split
  · split
    · exact h
    · exact ⟨h.icw2, h.icw3, h.icw4, h.mask, h.inService⟩
  · exact ⟨h.icw2, h.icw3, h.icw4, h.mask, h.inService⟩

/-- The request of the clock. -/
def Requested (s : Devices) : Prop := s.timerRequests = true

instance (s : Devices) : Decidable (Requested s) := inferInstanceAs (Decidable (_ = true))

theorem not_requested_init (allow : Bool) (s : Devices) :
    ¬ Requested (s.outbs (interruptControllerInit allow)) := by
  rw [outbs_interruptControllerInit]
  exact Bool.false_ne_true

theorem raise_requested (s : Devices) (i : Fin 16) :
    Requested (s.raise i) ↔ i = Devices.timerLine ∨ Requested s := by
  unfold Devices.raise Requested Devices.timerRequests Devices.timerLine
  split
  · next hi =>
    split
    · next h =>
      have hne : i ≠ 0 := by
        rw [h]
        decide
      simp [hne]
    · by_cases h : i = 0
      · subst h
        simp [Pic.request]
      · have hne : (0 : Fin 8) ≠ ⟨i, hi⟩ := fun he => h (Fin.ext (Fin.ext_iff.mp he).symm)
        simp only [Pic.request, Function.update_of_ne hne, h, false_or]
  · next hi =>
    have hne : i ≠ 0 := by
      rintro rfl
      exact hi (by decide)
    simp [hne]

theorem ClockOnly.autoEoi (h : ClockOnly allow s) : s.master.autoEoi = true := by
  rw [Pic.autoEoi, h.icw4]
  decide

/-- Nothing comes of the lines that are masked, be it through the slave. -/
theorem ClockOnly.pending (h : ClockOnly allow s) : s.cascaded.pending =
    if allow = true ∧ Requested s then some 0 else none := by
  have hmask : ∀ i : Fin 8, Infra.testBit s.cascaded.mask i ↔ ¬ (allow = true ∧ i = 0) := by
    intro i
    show Infra.testBit s.master.mask i ↔ _
    rw [h.mask]
    exact testBit_mask allow i
  split
  · next hclock =>
    refine Pic.pending_eq_some hclock.2 ?_ ?_ ?_
    · rw [hmask]
      exact not_not_intro ⟨hclock.1, rfl⟩
    · exact fun j hj => (hmask j).mpr fun he => hj he.2
    · exact fun j => Bool.eq_false_iff.mp (h.inService j)
  · next hclock =>
    refine Pic.pending_eq_none fun i hi => (hmask i).mpr ?_
    rintro ⟨hallow, rfl⟩
    exact hclock ⟨hallow, hi⟩

/-- **The processor gets the interrupt of the clock or none.** -/
theorem ClockOnly.acknowledge (h : ClockOnly allow s) : s.acknowledge =
    if allow = true ∧ Requested s then some (32, { s with master := s.master.accept 0 })
    else none := by
  have hslave : ¬ Infra.testBit s.master.icw3 0 = true := by
    rw [h.icw3]
    decide
  have hvector : s.master.vector 0 = 32 := by
    rw [Pic.vector, h.icw2]
    rfl
  unfold Devices.acknowledge
  rw [h.pending]
  split
  · next hclock =>
    split at hclock
    · cases hclock
    · next hnot => rw [if_neg hnot]
  · next i hclock =>
    split at hclock
    · next hyes =>
      cases hclock
      dsimp only
      rw [if_pos hyes, hvector]
      exact if_neg hslave
    · cases hclock

/-- The controller takes the interrupt as ended at once. -/
theorem ClockOnly.accept (h : ClockOnly allow s) :
    ClockOnly allow { s with master := s.master.accept 0 } where
  icw2 := h.icw2
  icw3 := h.icw3
  icw4 := h.icw4
  mask := h.mask
  inService i := by
    show Function.update s.master.inService 0 (!s.master.autoEoi) i = false
    by_cases hi : i = 0
    · rw [hi, Function.update_self, h.autoEoi]
      rfl
    · rw [Function.update_of_ne hi]
      exact h.inService i

theorem accept_requested (s : Devices) : ¬ Requested { s with master := s.master.accept 0 } := by
  unfold Requested Devices.timerRequests Pic.accept
  simp

/-! ## Runs -/

inductive DeviceEvent where
  | raise (i : Fin 16)
  /-- The processor is ready for an interrupt. -/
  | acknowledge

def deviceStep : DeviceEvent → Devices → Devices
  | .raise i, s => s.raise i
  | .acknowledge, s =>
    match s.acknowledge with
    | some (_, s') => s'
    | none => s

/-- The devices after `interrupt_controller_init` and the first `n` events. -/
def devices (allow_clock_interrupt : Bool) (s₀ : Devices) (events : Nat → DeviceEvent) (n : Nat) :
    Devices :=
  states deviceStep events (s₀.outbs (interruptControllerInit allow_clock_interrupt)) n

theorem ClockOnly.step (h : ClockOnly allow s) (e : DeviceEvent) :
    ClockOnly allow (deviceStep e s) := by
  cases e with
  | raise i => exact h.raise i
  | acknowledge =>
    rw [deviceStep, h.acknowledge]
    split
    · next hs =>
      split at hs
      · cases hs
        exact h.accept
      · cases hs
    · exact h

theorem deviceStep_timer (e : DeviceEvent) (h : ClockOnly allow s) :
    (deviceStep e s).timer = s.timer := by
  cases e with
  | raise i =>
    show (s.raise i).timer = _
    unfold Devices.raise
    split
    · split <;> rfl
    · rfl
  | acknowledge =>
    rw [deviceStep, h.acknowledge]
    split
    · next hs =>
      split at hs
      · cases hs
        rfl
      · cases hs
    · rfl

section Runs

variable (s₀ : Devices) (events : Nat → DeviceEvent)

theorem devices_clockOnly (n : Nat) : ClockOnly allow (devices allow s₀ events n) :=
  states_invariant (I := ClockOnly allow) (fun e _ h => h.step e) (clockOnly_init allow s₀) n

theorem devices_timer (n : Nat) : (devices allow s₀ events n).timer
    = if allow then ⟨0x34, false, 0x8E, 1⟩ else s₀.timer := by
  induction n with
  | zero => rw [devices, states_zero, outbs_interruptControllerInit]
  | succ n ih => rw [← ih]; exact deviceStep_timer (events n) (devices_clockOnly s₀ events n)

/-- The clock has ticked since the processor was ready last. -/
def Ticked (n : Nat) : Prop :=
  ∃ m < n, events m = .raise Devices.timerLine ∧ ∀ j, m < j → j < n → events j ≠ .acknowledge

theorem ticked_succ (n : Nat) : Ticked events (n + 1) ↔
    events n = .raise Devices.timerLine ∨ events n ≠ .acknowledge ∧ Ticked events n := by
  constructor
  · rintro ⟨m, hm, hraise, hsince⟩
    rcases Nat.lt_succ_iff_lt_or_eq.mp hm with hlt | rfl
    · exact .inr ⟨hsince n hlt n.lt_succ_self, m, hlt, hraise,
        fun j hj hjn => hsince j hj (Nat.lt_succ_of_lt hjn)⟩
    · exact .inl hraise
  · rintro (hraise | ⟨hready, m, hm, hraise, hsince⟩)
    · exact ⟨n, n.lt_succ_self, hraise, fun j hj hjn => absurd hjn (Nat.not_lt.mpr hj)⟩
    · refine ⟨m, Nat.lt_succ_of_lt hm, hraise, fun j hj hjn => ?_⟩
      rcases Nat.lt_succ_iff_lt_or_eq.mp hjn with hlt | rfl
      · exact hsince j hj hlt
      · exact hready

/-- Taking the interrupt is what ends the request. -/
theorem ClockOnly.acknowledged_requested (h : ClockOnly true s) :
    ¬ Requested (deviceStep .acknowledge s) := by
  rw [deviceStep, h.acknowledge]
  by_cases hs : Requested s
  · rw [if_pos ⟨rfl, hs⟩]
    exact accept_requested s
  · rw [if_neg fun hboth => hs hboth.2]
    exact hs

theorem devices_requested (n : Nat) : Requested (devices true s₀ events n) ↔ Ticked events n := by
  induction n with
  | zero => exact iff_of_false (not_requested_init true s₀) fun ⟨_, hm, _⟩ => Nat.not_lt_zero _ hm
  | succ n ih =>
    have hclock : ClockOnly true (devices true s₀ events n) := devices_clockOnly s₀ events n
    rw [ticked_succ, ← ih]
    show Requested (deviceStep (events n) (devices true s₀ events n)) ↔ _
    cases events n with
    | raise i =>
      show Requested (Devices.raise _ i) ↔ _
      rw [raise_requested, DeviceEvent.raise.injEq]
      simp
    | acknowledge => simp [hclock.acknowledged_requested]

/-- The period is the closest to `HZ` that there is. -/
theorem reload_close :
    2 * |(timerFreq : Int) - hz * (Timer.reload ⟨0x34, false, 0x8E, 1⟩ : Nat)| ≤ hz := by
  decide

/-- **No device but the clock, and the clock for ever.** Whatever state the devices have been in and
whatever they do, the processor gets the interrupt of the clock if and only if the clock is allowed
and has ticked, though the end of an interrupt is never reported to the controllers; and it gets no
other. The timer counts down in the period that comes closest to `HZ`. -/
theorem clock_only (n : Nat) :
    (∀ v, (devices allow s₀ events n).acknowledge.map Prod.fst = some v ↔
      v = intHardware ∧ allow = true ∧ Ticked events n) ∧
    (allow = true → (devices allow s₀ events n).timer.control = 0x34 ∧
      2 * |(timerFreq : Int) - hz * (devices allow s₀ events n).timer.reload| ≤ hz) := by
  constructor
  · intro v
    rw [(devices_clockOnly s₀ events n).acknowledge]
    cases allow with
    | false => simp
    | true =>
      have hrequested := devices_requested s₀ events n
      by_cases hticked : Ticked events n
      · simp [hrequested, hticked, intHardware, eq_comm]
      · simp [hrequested, hticked]
  · rintro rfl
    rw [devices_timer]
    exact ⟨rfl, reload_close⟩

end Runs

end SchedOS
