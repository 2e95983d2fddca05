import SchedOS.Kern.Interrupt
import SchedOS.Kern.Start
import SchedOS.Infra.Run

/-!
# The running system

After `start` the processor alternates between a process and the kernel. What a process does
until it is interrupted is not the kernel's business: a `Trap` says only what the kernel finds
then, namely the registers (with the interrupt number) and the memory, either of which can be
anything. The readings of the cycle counter are arbitrary too, and so is the number of passes
of the scheduling loop after which we look.
-/

namespace SchedOS

open Infra

/-- An interrupt of the running process. -/
structure Trap where
  /-- The register set that `interrupt` receives. -/
  reg : Registers
  /-- The memory as the process has left it. -/
  ram : Mem
  /-- The readings of the cycle counter during the call of `schedule`. -/
  tsc : Nat → UInt64
  /-- The number of passes through the scheduling loop. -/
  fuel : Nat

/-- What becomes of a call into the kernel. That it comes back is never the case: see
`interrupt_never_returns`. -/
def Config.ofKernel : Except Config Machine → Config
  | .error c => c
  | .ok k => .spinning k

/-- What the kernel makes of an interrupt. Interrupts are off in the kernel, so a kernel that
spins is not interrupted. -/
def Config.trap (t : Trap) : Config → Config
  | .user _ k _ => .ofKernel (interrupt t.fuel t.tsc t.reg { k with ram := t.ram })
  | .spinning k => .spinning k

/-- The system from `start` on, after the first `n` of the interrupts `traps`. -/
def system (ramimages : Fin 4 → Ramimage) (scheduling_algorithm : Int32) (k₀ : Machine)
    (traps : Nat → Trap) (n : Nat) : Config :=
  states Config.trap traps (start ramimages scheduling_algorithm k₀) n

section System

variable (ramimages : Fin 4 → Ramimage) (scheduling_algorithm : Int32) (k₀ : Machine)
  (traps : Nat → Trap)

theorem system_zero :
    system ramimages scheduling_algorithm k₀ traps 0 = start ramimages scheduling_algorithm k₀ :=
  rfl

theorem system_succ (n : Nat) : system ramimages scheduling_algorithm k₀ traps (n + 1)
    = (system ramimages scheduling_algorithm k₀ traps n).trap (traps n) :=
  rfl

end System

end SchedOS
