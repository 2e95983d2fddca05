import SchedOS.App.World
import SchedOS.Infra.Interleaving

/-!
# Applications that make system calls only

Built without `__PRINT_METHOD_LOCK__`, an application has nothing to do with the shared variables:
its system calls are all that it does to others. So it is taken here for the list of its calls. What
it does to its registers in between is its own business.
-/

namespace SchedOS

open Infra

/-- The functions of `schedos-app.h`. -/
inductive SysCall where
  | sysYield
  | sysExit (status : Int32)
  | sysSetPriority (priority : Int32)
  | sysSetShare (share : Int32)
  | sysAtomicPrint (c : UInt32)
  | sysSetLotteryTickets (n : Int32)
  deriving DecidableEq

/-- The number of the `int`. -/
def SysCall.intno : SysCall → UInt32
  | .sysYield => intSysYield
  | .sysExit _ => intSysExit
  | .sysSetPriority _ => intSysUser1
  | .sysSetShare _ => intSysUser2
  | .sysAtomicPrint _ => intSysAtomicPrint
  | .sysSetLotteryTickets _ => intSysSetLottery

/-- What is loaded into `%eax`. -/
def SysCall.eax : SysCall → Option UInt32
  | .sysYield => none
  | .sysExit status => some status.toUInt32
  | .sysSetPriority priority => some priority.toUInt32
  | .sysSetShare share => some share.toUInt32
  | .sysAtomicPrint c => some c
  | .sysSetLotteryTickets n => some n.toUInt32

/-- The calls of `start` in `schedos-1.c`. -/
def Defines.calls (d : Defines) (runcount : Nat) : List SysCall :=
  [.sysSetPriority d.priority, .sysSetShare d.share, .sysSetLotteryTickets d.lotteryTickets]
    ++ (List.replicate runcount [.sysAtomicPrint d.printchar.toUInt32, .sysYield]).flatten
    ++ [.sysExit 0]

/-- What the environment and the process itself decide in a step. -/
structure Beat extends Tick where
  /-- The registers of the process, but for those that a call sets. -/
  reg : Registers

def SysCall.trap (call : SysCall) (t : Beat) (ram : Mem) : Trap where
  reg := { t.reg with regEax := call.eax.getD t.reg.regEax, regIntno := call.intno }
  ram := ram
  tsc := t.tsc
  fuel := t.fuel

def clockTrap (t : Beat) (ram : Mem) : Trap where
  reg := { t.reg with regIntno := intClock }
  ram := ram
  tsc := t.tsc
  fuel := t.fuel

/-- The applications on top of the kernel. -/
structure Scripted where
  config : Config
  /-- The calls that have been made. -/
  log : List (Pid × SysCall)

/-- One step: the process that runs makes its next call, or a clock interrupt comes before. Behind
its last call there is nothing in a script. -/
def Scripted.step (scripts : Pid → List SysCall) (t : Beat) (s : Scripted) : Scripted :=
  match s.config with
  | .spinning _ => s
  | .user p k _ =>
    if t.clock then { s with config := s.config.trap (clockTrap t k.ram) }
    else
      match Follows.next? scripts s.log p with
      | none => s
      | some call => ⟨s.config.trap (call.trap t k.ram), s.log ++ [(p, call)]⟩

/-- The run from the configuration `config`, in which `start` has ended. -/
def scripted (scripts : Pid → List SysCall) (config : Config) (beats : Nat → Beat) (n : Nat) :
    Scripted :=
  states (Scripted.step scripts) beats ⟨config, []⟩ n

end SchedOS
