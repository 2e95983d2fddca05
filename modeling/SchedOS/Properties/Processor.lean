import SchedOS.Kern.Processor
import SchedOS.Properties.InterruptController
import SchedOS.Properties.Segments

/-!
# What an application can do to the machine

`System` allows for any interrupt. On the processor with its tables and its devices there are only
a few: a process gets into `schedule` by the system calls, and no process can keep the clock out or
pretend to be it.

* `processor_refines_system` — each round of the processor is an interrupt of the system, with a
  number that depends on nothing but what has happened
-/

namespace SchedOS

open Infra

variable {allow : Bool} {alg : Int32} {s : Processor} {r : Round} {setup : Setup} {p : Pid}
  {k : Machine} {cpu : Registers} {c : Context}

/-! ## User mode -/

/-- Application code at level 3, with interrupts on and without access to the ports. -/
structure UserMode (t : Tables) (c : Context) : Prop where
  cs : c.cs = 0x1B
  ss : c.ss = 0x23
  ds : t.LoadsData 3 c.ds.toBitVec
  es : t.LoadsData 3 c.es.toBitVec
  interruptible : c.interruptible = true
  iopl : c.iopl = 0

variable {t : Tables}

theorem UserMode.cpl (h : UserMode t c) : c.cpl = 3 := by
  rw [Context.cpl, h.cs]
  decide

theorem UserMode.keptFlags (h : UserMode t c) : c.keptFlags = 0x3200 := by
  rw [Context.keptFlags, h.cpl, h.iopl]
  decide

/-- The flags that are kept. -/
theorem attempt_eflags_bit (t : Tables) (c new : Context) {j : Nat}
    (hj : c.keptFlags.toBitVec.getLsbD j) :
    (c.attempt t new).eflags.toBitVec.getLsbD j = c.eflags.toBitVec.getLsbD j := by
  simp [Context.attempt, hj]

theorem selectorAfter_eq {old sel : UInt16} {load : Option SegmentRegister} (hold : old = sel)
    (h : ∀ r, load = some r → r.selector = sel.toBitVec) : selectorAfter old load = sel := by
  cases load with
  | none => exact hold
  | some r => exact congrArg UInt16.ofBitVec (h r rfl)

/-- **Nobody gets out of user mode by himself.** -/
theorem UserMode.attempt (h : UserMode setup.tables c) (new : Context) :
    UserMode setup.tables (c.attempt setup.tables new) where
  cs := by
    rw [Context.attempt, h.cpl]
    exact selectorAfter_eq h.cs fun _ => jump_application
  ss := by
    rw [Context.attempt, h.cpl]
    exact selectorAfter_eq h.ss fun _ => loadStack_application
  ds := by
    rw [Context.attempt, h.cpl]
    dsimp only
    split
    · assumption
    · exact h.ds
  es := by
    rw [Context.attempt, h.cpl]
    dsimp only
    split
    · assumption
    · exact h.es
  interruptible := by
    have hj : c.keptFlags.toBitVec.getLsbD 9 := by
      rw [h.keptFlags]
      decide
    exact (attempt_eflags_bit _ c new hj).trans h.interruptible
  iopl := by
    rw [← h.iopl]
    refine BitVec.eq_of_getLsbD_eq fun i hi => ?_
    have hj : c.keptFlags.toBitVec.getLsbD (12 + i) := by
      rw [h.keptFlags]
      revert i
      decide
    rw [Context.iopl, Context.iopl, getLsbD_cut _ _ hi, getLsbD_cut _ _ hi]
    exact attempt_eflags_bit _ c new hj

/-- The registers that `start` builds. -/
theorem userMode_boot (setup : Setup) (i : Pid) (entry : UInt32) :
    UserMode setup.tables (bootRegisters i entry).context where
  cs := rfl
  ss := rfl
  ds := loadsData_application setup.symbols setup.behind
  es := loadsData_application setup.symbols setup.behind
  interruptible := show Nat.testBit 0x200 9 = true by decide
  iopl := show cut 0x200 12 2 = 0 by decide

/-! ## What `interrupt` is called with -/

/-- Through a gate of its own. -/
theorem callInterrupt_gate {i : Interrupt} (c : Context) (pad : Padding) (ret : UInt32) (m : Mem)
    (hgate : interruptDescriptors i.vector ≠ .default) : ∃ original_esp,
      readRegisters (callInterrupt i c pad ret m).2 (callInterrupt i c pad ret m).1
        = frame c pad original_esp (interruptDescriptors i.vector).trapNumber 0 := by
  have hpushes : i.err.toList ++ (interruptDescriptors i.vector).pushes
      = [0, (interruptDescriptors i.vector).trapNumber] := by
    rw [Interrupt.err_eq_none hgate]
    cases h : interruptDescriptors i.vector with
    | clock => rfl
    | sys n => rfl
    | default => exact absurd h hgate
  exact callInterrupt_frame c pad ret m hpushes

/-- The number of a trap comes from the handler, even where the other registers are shifted. -/
theorem callInterrupt_regIntno (i : Interrupt) (c : Context) (pad : Padding) (ret : UInt32)
    (m : Mem) : (readRegisters (callInterrupt i c pad ret m).2
      (callInterrupt i c pad ret m).1).regIntno = (interruptDescriptors i.vector).trapNumber := by
  by_cases hgate : interruptDescriptors i.vector = .default
  · rw [hgate]
    cases herr : i.err with
    | none =>
      obtain ⟨_, hr⟩ := callInterrupt_shifted c pad ret m (show _ = [0] by rw [herr, hgate]; rfl)
      rw [hr]
      rfl
    | some err =>
      obtain ⟨_, hr⟩ := callInterrupt_frame c pad ret m (show _ = [err, 0] by rw [herr, hgate]; rfl)
      rw [hr]
      rfl
  · obtain ⟨_, hr⟩ := callInterrupt_gate c pad ret m hgate
    rw [hr]
    rfl

/-- The numbers that there are. -/
theorem trapNumber_eq (v : UInt8) : (interruptDescriptors v).trapNumber =
    if v = 32 ∨ 48 ≤ v ∧ v ≤ 57 then v.toUInt32 else 0 := by
  have hall : ∀ n : Fin 256, (interruptDescriptors (UInt8.ofFin n)).trapNumber =
      if UInt8.ofFin n = 32 ∨ 48 ≤ UInt8.ofFin n ∧ UInt8.ofFin n ≤ 57 then
        (UInt8.ofFin n).toUInt32 else 0 := by decide +kernel
  exact hall v.toFin

theorem trapNumber_default {v : UInt8} (h : (interruptDescriptors v).trapNumber ≠ 0) :
    interruptDescriptors v ≠ .default := by
  intro hgate
  rw [hgate] at h
  exact h rfl

/-- The number under which a process enters the kernel by itself. -/
def Cause.number : Cause → UInt32
  | .int v => if 48 ≤ v ∧ v ≤ 57 then v.toUInt32 else 0
  | .exception .. => 0

/-! ## A round -/

/-- The lines that rise leave the controllers as they are, up to the requests. -/
theorem raised_clockOnly (h : ClockOnly allow s.devices) (r : Round) :
    ClockOnly allow (s.raised r) := by
  unfold Processor.raised
  induction r.lines generalizing s with
  | nil => exact h
  | cons i lines ih => exact ih (s := ⟨s.config, s.devices.raise i⟩) (h.raise i)

theorem raised_requested (s : Processor) (r : Round) :
    Requested (s.raised r) ↔ 0 ∈ r.lines ∨ Requested s.devices := by
  unfold Processor.raised
  induction r.lines generalizing s with
  | nil => simp
  | cons i lines ih =>
    have h := ih ⟨s.config, s.devices.raise i⟩
    rw [raise_requested] at h
    rw [List.foldl_cons, h, List.mem_cons]
    tauto

/-- What `interrupt` is called with after a round that has ended in `c`. -/
structure Entered (allow : Bool) (c : Context) (r : Round) (t : Trap) : Prop where
  /-- The clock comes first, if it is allowed. -/
  number : t.reg.regIntno = if allow = true ∧ 0 ∈ r.lines then intClock else r.cause.number
  context : t.reg.regIntno ≠ 0 → t.reg.context = c

/-- Between two rounds the clock does not wait for the processor, and all processes that have been
interrupted go on in user mode. -/
structure Processor.Inv (setup : Setup) (alg : Int32) (allow : Bool) (s : Processor) : Prop where
  ok : s.config.Ok alg
  clockOnly : ClockOnly allow s.devices
  quiet : allow = true → s.config.proc? ≠ none → ¬ Requested s.devices
  contexts : s.config.proc? ≠ none → ∀ i, i ≠ 0 →
    UserMode setup.tables (s.config.machine.procArray i).pRegisters.context

theorem trapOf_number (setup : Setup) (c : Context) (r : Round) (t : Taken) :
    (trapOf setup c r t).reg.regIntno = (interruptDescriptors t.vector).trapNumber :=
  callInterrupt_regIntno ..

theorem trapOf_context {t : Taken} (h : (trapOf setup c r t).reg.regIntno ≠ 0) :
    (trapOf setup c r t).reg.context = c := by
  rw [trapOf_number] at h
  obtain ⟨_, hr⟩ := @callInterrupt_gate ⟨t.vector, t.err, t.exception⟩ c r.pad setup.ret r.ram
    (trapNumber_default h)
  exact congrArg Registers.context hr

/-- What the processor makes of an interrupt in user mode. -/
theorem entered (setup : Setup) (hc : UserMode setup.tables c) (o : Origin) (i : Interrupt) : ∃ t,
    setup.tables.take c.cpl o i.vector i.err i.exception = some t ∧
      (trapOf setup c r t).reg.regIntno = (if o = .software ∧ (i.vector < 48 ∨ 57 < i.vector) then 0
        else (interruptDescriptors i.vector).trapNumber) ∧
      ∃ h, t.entry = kernelEntry (setup.symbols.handler h) := by
  refine ⟨_, by rw [hc.cpl]; exact interrupts_enter_kernel .., ?_, ?_⟩
  · rw [trapOf_number]
    split
    · show (interruptDescriptors 13).trapNumber = 0
      rw [interruptDescriptors_exception (by decide)]
      rfl
    · rfl
  · split
    · exact ⟨_, rfl⟩
    · exact ⟨_, rfl⟩

/-- What it makes of a process that enters the kernel by itself. -/
theorem cause_number (cause : Cause) :
    (if cause.origin = .software ∧ (cause.interrupt.vector < 48 ∨ 57 < cause.interrupt.vector)
      then 0 else (interruptDescriptors cause.interrupt.vector).trapNumber) = cause.number := by
  cases cause with
  | int v =>
    show (if Origin.software = .software ∧ (v < 48 ∨ 57 < v) then 0
      else (interruptDescriptors v).trapNumber) = if 48 ≤ v ∧ v ≤ 57 then v.toUInt32 else 0
    rw [trapNumber_eq]
    by_cases hv : 48 ≤ v ∧ v ≤ 57
    · have hnot : ¬ (v < 48 ∨ 57 < v) :=
        not_or.mpr ⟨UInt8.not_lt.mpr hv.1, UInt8.not_lt.mpr hv.2⟩
      rw [if_neg fun he => hnot he.2, if_pos (Or.inr hv), if_pos hv]
    · have hout : v < 48 ∨ 57 < v := by
        by_contra hin
        rw [not_or, UInt8.not_lt, UInt8.not_lt] at hin
        exact hv hin
      rw [if_pos ⟨rfl, hout⟩, if_neg hv]
  | exception v err hv =>
    have horigin : (Cause.exception v err hv).origin ≠ .software := nofun
    rw [if_neg fun he => horigin he.1, Cause.interrupt, interruptDescriptors_exception hv]
    rfl

section Take

variable (h : s.Inv setup alg allow) (hlive : s.config.proc? ≠ none) (hc : UserMode setup.tables c)
include h hlive hc

omit hlive in
/-- The clock comes first … -/
theorem interrupt_clock (hclock : allow = true ∧ 0 ∈ r.lines) : ∃ exception,
    s.interrupt c r = (.external, ⟨32, none, exception⟩,
      { s.raised r with master := (s.raised r).master.accept 0 }) := by
  have hrequested : Requested (s.raised r) := (raised_requested s r).mpr (Or.inl hclock.2)
  unfold Processor.interrupt
  rw [if_pos hc.interruptible, (raised_clockOnly h.clockOnly r).acknowledge,
    if_pos ⟨hclock.1, hrequested⟩]
  exact ⟨_, rfl⟩

/-- … and no other device comes at all. -/
theorem interrupt_cause (hclock : ¬ (allow = true ∧ 0 ∈ r.lines)) :
    s.interrupt c r = (r.cause.origin, r.cause.interrupt, s.raised r) := by
  have hnot : ¬ (allow = true ∧ Requested (s.raised r)) := by
    rintro ⟨hallow, hrequested⟩
    rcases (raised_requested s r).mp hrequested with hline | hwaiting
    · exact hclock ⟨hallow, hline⟩
    · exact h.quiet hallow hlive hwaiting
  unfold Processor.interrupt
  rw [if_pos hc.interruptible, (raised_clockOnly h.clockOnly r).acknowledge, if_neg hnot]

/-- **How a round ends.** -/
theorem take_spec (r : Round) : ∃ t, (s.take setup c r).1 = some t ∧
    (∃ h, t.entry = kernelEntry (setup.symbols.handler h)) ∧
    Entered allow c r (trapOf setup c r t) ∧ ClockOnly allow (s.take setup c r).2 ∧
    (allow = true → ¬ Requested (s.take setup c r).2) := by
  by_cases hclock : allow = true ∧ 0 ∈ r.lines
  · obtain ⟨exception, hinterrupt⟩ := interrupt_clock h hc hclock
    obtain ⟨t, htake, hnumber, hentry⟩ :=
      @entered r c setup hc .external ⟨32, none, exception⟩
    unfold Processor.take
    rw [hinterrupt]
    refine ⟨t, htake, hentry, ⟨?_, trapOf_context⟩, (raised_clockOnly h.clockOnly r).accept,
      fun _ => accept_requested _⟩
    rw [hnumber, if_pos hclock, if_neg (by simp), trapNumber_eq]
    rfl
  · obtain ⟨t, htake, hnumber, hentry⟩ := @entered r c setup hc r.cause.origin r.cause.interrupt
    have hinterrupt := interrupt_cause h hlive hc hclock
    unfold Processor.take
    rw [hinterrupt]
    refine ⟨t, htake, hentry, ⟨?_, trapOf_context⟩, raised_clockOnly h.clockOnly r,
      fun hallow hrequested => ?_⟩
    · rw [hnumber, if_neg hclock, cause_number]
    · rcases (raised_requested s r).mp hrequested with hline | hwaiting
      · exact hclock ⟨hallow, hline⟩
      · exact h.quiet hallow hlive hwaiting

end Take

/-! ## Runs -/

/-- The trap with which a round of a process ends. -/
def Processor.trap (setup : Setup) (r : Round) (s : Processor) : Option Trap :=
  match s.config with
  | .spinning _ => none
  | .user _ _ cpu =>
    let c := cpu.context.attempt setup.tables r.context
    (s.take setup c r).1.map (trapOf setup c r)

/-- A trap that lets processes go on has served its process. -/
theorem served_of_live {t : Trap} (h : ((Config.user p k cpu).trap t).proc? ≠ none) :
    Served t.reg.regIntno := by
  by_contra hnot
  rw [trap_of_not_served hnot] at h
  exact h rfl

theorem Served.ne_zero {intno : UInt32} (h : Served intno) : intno ≠ 0 := by
  rintro rfl
  revert h
  decide

/-- The saved contexts after a trap. -/
theorem trap_contexts {t : Trap} (hcurrent : k.current = p)
    (hcontexts : ∀ i, i ≠ 0 → UserMode setup.tables (k.procArray i).pRegisters.context)
    (ht : UserMode setup.tables t.reg.context) (i : Pid) (hi : i ≠ 0) :
    UserMode setup.tables
      (((Config.user p k cpu).trap t).machine.procArray i).pRegisters.context := by
  rw [trap_field t p k cpu Process.pRegisters fun _ => rfl]
  by_cases hip : i = p
  · rw [hip, ← hcurrent, Trap.call_self]
    exact ht
  · rw [Trap.call_of_ne (hcurrent ▸ hip)]
    exact hcontexts i hi

section Step

variable (h : s.Inv setup alg allow)
include h

theorem Processor.Inv.running (hw : s.config = .user p k cpu) : Running alg p k cpu := by
  have hok := h.ok
  rwa [hw] at hok

theorem Processor.Inv.userMode (hw : s.config = .user p k cpu) :
    UserMode setup.tables cpu.context := by
  have hr := h.running hw
  have hcontext := h.contexts (by simp [hw, Config.proc?]) p hr.ne_zero
  rw [hw] at hcontext
  rw [hr.cpu]
  exact hcontext

variable (r : Round)

/-- **A round is an interrupt of the system.** -/
theorem step_spec (hw : s.config = .user p k cpu) : ∃ t devices,
    Entered allow (cpu.context.attempt setup.tables r.context) r t ∧ s.trap setup r = some t ∧
      s.step setup r = ⟨(Config.user p k cpu).trap t, devices⟩ ∧
      ClockOnly allow devices ∧ (allow = true → ¬ Requested devices) := by
  have hmode := (h.userMode hw).attempt r.context
  obtain ⟨t, htake, -, hentered, hclock, hquiet⟩ :=
    take_spec h (by simp [hw, Config.proc?]) hmode r
  refine ⟨_, _, hentered, ?_, ?_, hclock, hquiet⟩
  · rw [Processor.trap, hw]
    dsimp only
    rw [htake]
    rfl
  · rw [Processor.step, hw]
    dsimp only
    generalize s.take setup (cpu.context.attempt setup.tables r.context) r = taken at htake ⊢
    obtain ⟨o, devices⟩ := taken
    cases htake
    rfl

omit h in
theorem step_spinning {k' : Machine} (hw : s.config = .spinning k') :
    s.step setup r = { s with devices := s.raised r } := by
  rw [Processor.step, hw]

theorem Processor.Inv.step : (s.step setup r).Inv setup alg allow := by
  cases hw : s.config with
  | spinning k' =>
    have hnone : s.config.proc? = none := by
      rw [hw]
      rfl
    rw [step_spinning r hw]
    exact {
      ok := h.ok
      clockOnly := raised_clockOnly h.clockOnly r
      quiet := fun _ hlive => absurd hnone hlive
      contexts := fun hlive => absurd hnone hlive }
  | user p k cpu =>
    have hmode := (h.userMode hw).attempt r.context
    have hcontexts := h.contexts (by simp [hw, Config.proc?])
    rw [hw] at hcontexts
    obtain ⟨t, devices, hentered, -, hstep, hclock, hquiet⟩ := step_spec h r hw
    rw [hstep]
    exact {
      ok := ok_trap t (.user p k cpu) (h.running hw)
      clockOnly := hclock
      quiet := fun hallow _ => hquiet hallow
      contexts := by
        intro hlive
        have hserved := @served_of_live p k cpu t hlive
        refine @trap_contexts setup p k cpu t (h.running hw).current hcontexts ?_
        rw [hentered.context hserved.ne_zero]
        exact hmode }

end Step

section Runs

variable (setup : Setup) (allow : Bool) (devices : Devices) (ramimages : Fin 4 → Ramimage)
  (alg : Int32) (k₀ : Machine) (rounds : Nat → Round)

theorem start_contexts (hlive : (start ramimages alg k₀).proc? ≠ none) (i : Pid) (hi : i ≠ 0) :
    UserMode setup.tables ((start ramimages alg k₀).machine.procArray i).pRegisters.context := by
  obtain ⟨k, hk, hb⟩ := start_booted hlive
  obtain ⟨entry, hproc⟩ := hb.proc
  rw [hk]
  show UserMode setup.tables (k.procArray i).pRegisters.context
  rw [hproc i hi]
  exact userMode_boot setup i (entry i)

theorem processor_inv (n : Nat) :
    (processor setup allow devices ramimages alg k₀ rounds n).Inv setup alg allow := by
  refine states_invariant (I := Processor.Inv setup alg allow) (fun r s h => h.step r) ?_ n
  have hclock := clockOnly_init allow devices
  have hquiet := not_requested_init allow devices
  generalize devices.outbs (interruptControllerInit allow) = s at hclock hquiet ⊢
  exact ⟨ok_start ramimages alg k₀, hclock, fun _ _ => hquiet,
    start_contexts setup ramimages alg k₀⟩

/-- The traps of a run. -/
def processorTraps (n : Nat) : Trap :=
  ((processor setup allow devices ramimages alg k₀ rounds n).trap setup (rounds n)).getD
    ⟨.zero, fun _ => 0, fun _ => 0, 0⟩

theorem processor_config (n : Nat) :
    (processor setup allow devices ramimages alg k₀ rounds n).config
      = system ramimages alg k₀ (processorTraps setup allow devices ramimages alg k₀ rounds) n := by
  induction n with
  | zero => rfl
  | succ n ih =>
    have h := processor_inv setup allow devices ramimages alg k₀ rounds n
    have htraps : processorTraps setup allow devices ramimages alg k₀ rounds n
      = ((processor setup allow devices ramimages alg k₀ rounds n).trap setup (rounds n)).getD
        ⟨.zero, fun _ => 0, fun _ => 0, 0⟩ := rfl
    rw [system_succ, ← ih]
    show (Processor.step setup (rounds n)
      (processor setup allow devices ramimages alg k₀ rounds n)).config = _
    generalize processor setup allow devices ramimages alg k₀ rounds n = s at h htraps ⊢
    cases hw : s.config with
    | spinning k' =>
      rw [step_spinning (rounds n) hw]
      exact hw
    | user p k cpu =>
      obtain ⟨t, devices', -, htrap, hstep, -⟩ := step_spec h (rounds n) hw
      rw [htraps, htrap, hstep]
      rfl

variable {setup allow devices ramimages alg k₀ rounds}

theorem processorTraps_entered {n : Nat}
    (hw : (processor setup allow devices ramimages alg k₀ rounds n).config = .user p k cpu) :
    Entered allow (cpu.context.attempt setup.tables (rounds n).context) (rounds n)
      (processorTraps setup allow devices ramimages alg k₀ rounds n) := by
  have h := processor_inv setup allow devices ramimages alg k₀ rounds n
  obtain ⟨t, -, hentered, htrap, -⟩ := step_spec h (rounds n) hw
  rw [processorTraps, htrap]
  exact hentered

/-- Where processes go on running, the interrupts before have been served. -/
theorem served_of_system {traps : Nat → Trap} {m n : Nat} (hmn : m < n)
    (hm : system ramimages alg k₀ traps m = .user p k cpu)
    (hn : (system ramimages alg k₀ traps n).proc? ≠ none) : Served (traps m).reg.regIntno := by
  refine @served_of_live p k cpu _ fun hnone => ?_
  have hstep : system ramimages alg k₀ traps (m + 1) = (Config.user p k cpu).trap (traps m) := by
    rw [system_succ, hm]
  cases hc : (Config.user p k cpu).trap (traps m) with
  | user q k' cpu' =>
    rw [hc] at hnone
    cases hnone
  | spinning k' =>
    rw [system_spinning hmn (hstep.trans hc)] at hn
    exact hn rfl

variable (setup allow devices ramimages alg k₀ rounds)

/-- What holds in round `n` of the run `run`, if a process runs; the round ends with the trap
`t`. -/
structure Protected (run : Nat → Processor) (n : Nat) (t : Trap) : Prop where
  userMode : ∀ p k cpu, (run n).config = .user p k cpu → UserMode setup.tables cpu.context
  /-- The kernel is entered with its own privileges, on its own stack and with interrupts off. -/
  entry : ∀ p k cpu, (run n).config = .user p k cpu → ∃ taken h,
    ((run n).take setup (cpu.context.attempt setup.tables (rounds n).context) (rounds n)).1
      = some taken ∧ taken.entry = kernelEntry (setup.symbols.handler h)
  entered : ∀ p k cpu, (run n).config = .user p k cpu →
    Entered allow (cpu.context.attempt setup.tables (rounds n).context) (rounds n) t
  /-- `run` gets back to the process without a fault … -/
  returns : ∀ p k cpu, (run n).config = .user p k cpu →
    setup.tables.Returns 0 cpu.regCs.toBitVec cpu.regSs.toBitVec ∧
      setup.tables.LoadsData 0 cpu.regDs.toBitVec ∧ setup.tables.LoadsData 0 cpu.regEs.toBitVec
  /-- … and where it was interrupted last. -/
  resumed : ∀ m p k cpu k' cpu', m < n → (run m).config = .user p k cpu →
    (∀ j, m < j → j < n → (run j).config.proc? ≠ some p) → (run n).config = .user p k' cpu' →
    cpu'.context = cpu.context.attempt setup.tables (rounds m).context

/-- **The processor refines the system**, whatever the applications try and the devices do: each
round of a process is an interrupt of the system. It has the number of a system call only if the
process has executed that `int`, and the number of the clock if and only if the clock is allowed and
its line has risen. -/
theorem processor_refines_system : ∃ traps : Nat → Trap, ∀ n,
    (processor setup allow devices ramimages alg k₀ rounds n).config
      = system ramimages alg k₀ traps n ∧
    Protected setup allow rounds (processor setup allow devices ramimages alg k₀ rounds) n
      (traps n) := by
  refine ⟨processorTraps setup allow devices ramimages alg k₀ rounds, fun n =>
    ⟨processor_config .., ?_⟩⟩
  have hinv := processor_inv setup allow devices ramimages alg k₀ rounds
  exact {
    userMode := fun p k cpu hw => (hinv n).userMode hw
    entry := by
      intro p k cpu hw
      have hmode := ((hinv n).userMode hw).attempt (rounds n).context
      obtain ⟨taken, htake, ⟨h, hentry⟩, -⟩ :=
        take_spec (hinv n) (by simp [hw, Config.proc?]) hmode (rounds n)
      exact ⟨taken, h, htake, hentry⟩
    entered := fun p k cpu hw => processorTraps_entered hw
    returns := by
      intro p k cpu hw
      have hmode := (hinv n).userMode hw
      have hcs : cpu.regCs = 0x1B := hmode.cs
      have hss : cpu.regSs = 0x23 := hmode.ss
      rw [hcs, hss]
      exact ⟨returns_to_application .., hmode.ds.of_le (by decide), hmode.es.of_le (by decide)⟩
    resumed := by
      intro m p k cpu k' cpu' hmn hm hbetween hn
      have hm' : (system ramimages alg k₀
          (processorTraps setup allow devices ramimages alg k₀ rounds) m).proc? = some p := by
        rw [← processor_config, hm]
        rfl
      have hresume := system_resume hmn hm' (by rw [← processor_config, hn]) fun j hmj hjn => by
        rw [← processor_config]
        exact hbetween j hmj hjn
      rw [hresume]
      have hserved := served_of_system hmn (by rw [← processor_config, hm])
        (by rw [← processor_config, hn]; simp [Config.proc?])
      exact (processorTraps_entered hm).context hserved.ne_zero }

end Runs

end SchedOS
