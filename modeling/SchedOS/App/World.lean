import SchedOS.App.Program
import SchedOS.Kern.System

/-!
# The applications on top of the kernel

One step of the world is one instruction of the process that runs, or a clock interrupt in its
place. An `int` and a clock interrupt enter the kernel through `Config.trap`, as in
`Kern.System`; what `Kern.System` leaves open, namely the registers and the memory that the
kernel finds, is here the work of the programs.

The world keeps a record of what the applications have done. Nothing reads it.
-/

namespace SchedOS

open Infra

/-- The registers with which process `p` goes on: those of the processor if it runs, else those
in its descriptor. -/
def Config.regs : Config → Pid → Registers
  | .user q k cpu, p => if p = q then cpu else (k.procArray p).pRegisters
  | .spinning k, p => (k.procArray p).pRegisters

/-- What the environment decides in a step. -/
structure Tick where
  /-- A clock interrupt comes before the next instruction. -/
  clock : Bool
  /-- The readings of the cycle counter, if the kernel is entered. -/
  tsc : Nat → UInt64
  /-- The number of passes through the scheduling loop, if the kernel is entered. -/
  fuel : Nat

structure World where
  config : Config
  /-- The cells that the applications have written, and who has written them, in order. -/
  written : List (Pid × UInt32)
  /-- How often each process has released the lock after printing. -/
  completed : Pid → Nat
  /-- The processes that the kernel has dispatched, in order. -/
  dispatched : List Pid

/-- The world when the kernel has just been started. -/
def World.boot (config : Config) : World := ⟨config, [], fun _ => 0, config.proc?.toList⟩

@[simp] theorem World.boot_config (config : Config) : (World.boot config).config = config := rfl

/-- The record of an instruction. -/
def World.record (w : World) (p : Pid) (cpu : Registers) : Pc → World
  | .storeCell => { w with written := w.written ++ [(p, cpu.regEcx)] }
  | .releaseSwap =>
    { w with completed := Function.update w.completed p (w.completed p + 1) }
  | _ => w

/-- The kernel is entered. -/
def World.trap (w : World) (t : Trap) : World :=
  let config := w.config.trap t
  { w with config, dispatched := w.dispatched ++ config.proc?.toList }

/-- An instruction of process `p` ends as `e`. -/
def World.finish (w : World) (apps : Apps) (t : Tick) (p : Pid) (k : Machine) (e : Exec) : World :=
  let cpu := apps.resume p e
  match e.int with
  | some _ => w.trap ⟨cpu, e.ram, t.tsc, t.fuel⟩
  | none => { w with config := .user p { k with ram := e.ram } cpu }

/-- One step. A process that has left its program would be stuck; `Tracks` excludes that. -/
def World.step (apps : Apps) (t : Tick) (w : World) : World :=
  match w.config with
  | .spinning _ => w
  | .user p k cpu =>
    match apps.decode p cpu with
    | none => w
    | some pc =>
      if t.clock then w.finish apps t p k ⟨pc, cpu, k.ram, some intClock⟩
      else (w.record p cpu pc).finish apps t p k
        ((apps.program p).exec apps.runcount cpu k.ram pc)

/-- The applications at the entry points that `start` has stored in the table. -/
def Apps.load (program : Pid → Program) (runcount : Nat) (config : Config) : Apps :=
  ⟨program, fun p => (config.machine.procArray p).pRegisters.regEip, runcount⟩

/-- The world after `n` steps from the configuration `config`, in which `start` has ended. -/
def world (program : Pid → Program) (runcount : Nat) (config : Config) (ticks : Nat → Tick)
    (n : Nat) : World :=
  states (World.step (.load program runcount config)) ticks (.boot config) n

theorem world_succ (program : Pid → Program) (runcount : Nat) (config : Config)
    (ticks : Nat → Tick) (n : Nat) : world program runcount config ticks (n + 1)
      = (world program runcount config ticks n).step (.load program runcount config) (ticks n) :=
  rfl

/-- Process `p` is between the `atomic_swap` with which it has acquired the lock and the one
that releases it. -/
def Apps.Inside (apps : Apps) (p : Pid) (cpu : Registers) : Prop :=
  apps.decode p cpu = some .testLock ∧ cpu.regEax = 0 ∨
    apps.decode p cpu = some .loadCursorpos ∨ apps.decode p cpu = some .storeCell ∨
    apps.decode p cpu = some .storeCursorpos ∨ apps.decode p cpu = some .releaseSwap

end SchedOS
