import SchedOS.Kern.InterruptController
import SchedOS.Kern.Segments
import SchedOS.Kern.System

/-!
# The processor under the kernel

`System` leaves open what an interrupt is and which one comes. Here the machine is put together
from its parts: a process tries what it likes with its registers, lines of the interrupt
controllers rise, and in the end the processor takes an interrupt, through the tables that
`segments_init` has set up and by way of the kernel's stack.

The tables are taken to stay as they are, and the controllers to hear of nobody but the kernel,
though an application could overwrite the tables, and could reach the controllers as well.
-/

namespace SchedOS

open Infra

/-! ## Privileges -/

/-- The level at which a process runs. -/
def Context.cpl (c : Context) : BitVec 2 := requestedLevel c.cs.toBitVec

/-- `EFLAGS_IOPL_MASK`. -/
def Context.iopl (c : Context) : BitVec 2 := cut c.eflags.toNat 12 2

/-- `EFLAGS_IF`. -/
def Context.interruptible (c : Context) : Bool := c.eflags.toNat.testBit 9

/-- The flags that a process cannot change: `EFLAGS_IOPL_MASK` and, if its level is not good enough
for the ports either, `EFLAGS_IF`. -/
def Context.keptFlags (c : Context) : UInt32 :=
  (if c.cpl = 0 then 0 else 0x3000) ||| (if c.cpl ≤ c.iopl then 0 else 0x200)

/-- What is in a segment register that held `old` after a load, which may have been refused. -/
def selectorAfter (old : UInt16) : Option SegmentRegister → UInt16
  | some r => .ofBitVec r.selector
  | none => old

/-- What comes of a process's attempt to change its registers to `new`. It gets to other code by a
far jump: a far return does not get further, and there are no call gates. -/
def Context.attempt (t : Tables) (c new : Context) : Context :=
  { new with
    cs := selectorAfter c.cs (t.jump c.cpl new.cs.toBitVec)
    ss := selectorAfter c.ss (t.loadStack c.cpl new.ss.toBitVec)
    ds := if t.LoadsData c.cpl new.ds.toBitVec then new.ds else c.ds
    es := if t.LoadsData c.cpl new.es.toBitVec then new.es else c.es
    eflags := (new.eflags &&& ~~~c.keptFlags) ||| (c.eflags &&& c.keptFlags) }

/-! ## Interrupts -/

/-- With what a process would enter the kernel by itself. -/
inductive Cause where
  /-- The instruction `int`. -/
  | int (v : UInt8)
  /-- An exception, which may have an error code. -/
  | exception (v : UInt8) (err : Option UInt32) (h : v < 32)

def Cause.origin : Cause → Origin
  | .int _ => .software
  | .exception .. => .external

def Cause.interrupt : Cause → Interrupt
  | .int v => ⟨v, none, fun h => by cases h⟩
  | .exception v err h => ⟨v, err, fun _ => h⟩

/-- What happens from one interrupt to the next. -/
structure Round where
  /-- The registers as the process would have them. -/
  context : Context
  ram : Mem
  /-- The lines of the interrupt controllers that rise. -/
  lines : List (Fin 16)
  cause : Cause
  pad : Padding
  tsc : Nat → UInt64
  fuel : Nat

/-- The addresses on which the kernel depends. -/
structure Setup where
  symbols : Symbols
  behind : Nat
  /-- The address behind the `call interrupt`. -/
  ret : UInt32

def Setup.tables (setup : Setup) : Tables := segmentsInit setup.symbols setup.behind

/-- The kernel and the devices. -/
structure Processor where
  config : Config
  devices : Devices

def Processor.raised (s : Processor) (r : Round) : Devices := r.lines.foldl Devices.raise s.devices

/-- The interrupt with which a round ends, and the devices then. The controllers come first, if the
process is interruptible. -/
def Processor.interrupt (s : Processor) (c : Context) (r : Round) :
    Origin × Interrupt × Devices :=
  match (if c.interruptible then (s.raised r).acknowledge else none) with
  | some (v, devices) => (.external, ⟨v, none, fun h => by cases h⟩, devices)
  | none => (r.cause.origin, r.cause.interrupt, s.raised r)

/-- How the processor takes it, and the devices then. -/
def Processor.take (setup : Setup) (s : Processor) (c : Context) (r : Round) :
    Option Taken × Devices :=
  let (o, i, devices) := s.interrupt c r
  (setup.tables.take c.cpl o i.vector i.err i.exception, devices)

/-- The handler calls `interrupt` with what is on the stack then. -/
def trapOf (setup : Setup) (c : Context) (r : Round) (t : Taken) : Trap :=
  let called := callInterrupt ⟨t.vector, t.err, t.exception⟩ c r.pad setup.ret r.ram
  { reg := readRegisters called.2 called.1, ram := called.2, tsc := r.tsc, fuel := r.fuel }

/-- One round. A kernel that spins does so with interrupts off; a processor that has shut down
counts as one. -/
def Processor.step (setup : Setup) (r : Round) (s : Processor) : Processor :=
  match s.config with
  | .spinning _ => { s with devices := s.raised r }
  | .user p k cpu =>
    let c := cpu.context.attempt setup.tables r.context
    match s.take setup c r with
    | (none, devices) => { config := .spinning k, devices }
    | (some t, devices) => { config := (Config.user p k cpu).trap (trapOf setup c r t), devices }

/-- The machine from `start` on, after the first `n` rounds. `start` initializes the interrupt
controllers, with 0 for `allow_clock_interrupt` in the source; here the value is a parameter. -/
def processor (setup : Setup) (allow_clock_interrupt : Bool) (devices : Devices)
    (ramimages : Fin 4 → Ramimage) (scheduling_algorithm : Int32) (k₀ : Machine)
    (rounds : Nat → Round) (n : Nat) : Processor :=
  states (Processor.step setup) rounds
    { config := start ramimages scheduling_algorithm k₀
      devices := devices.outbs (interruptControllerInit allow_clock_interrupt) } n

end SchedOS
