import SchedOS.Infra.Memory

/-!
# Processes and the state of the machine

`registers_t` and `process_t` of the kernel, and what the kernel keeps: the process table,
`current`, `scheduling_algorithm` and the memory.

The table has `NPROCS` entries and is indexed by `Pid`, so that an index out of range cannot
be written down; `p_pid` is such an index too, but nothing here says that an entry's `p_pid`
is its own index. The kernel's own variables are kept apart from `ram`: the source does not
say at which addresses they lie. `cursorpos` and `lock` are words of `ram`, at the addresses
that `schedos-symbols.ld` gives them.

So it is assumed here that the kernel's code and variables, which are linked from `0x100000` on,
are out of reach: neither the stores of the processes get there nor those of `sys_atomic_print`,
which run on behind the console if nobody takes `cursorpos` back. In the runs of the applications
(`World`, `Scripted`) `ram` is the memory without the stacks, the kernel's below
`KERNEL_STACK_TOP` as well as those of the processes: what is pushed does not show in it.
-/

namespace SchedOS

open Infra

/-- `NPROCS`. -/
abbrev nprocs : Nat := 5

instance : NeZero nprocs := ⟨by decide⟩

/-- An index into `proc_array`. -/
abbrev Pid := Fin nprocs

/-- `registers_t`. -/
structure Registers where
  regEdi : UInt32
  regEsi : UInt32
  regEbp : UInt32
  regOriginalEsp : UInt32
  regEbx : UInt32
  regEdx : UInt32
  regEcx : UInt32
  regEax : UInt32
  regEs : UInt16
  regPadding1 : UInt16
  regDs : UInt16
  regPadding2 : UInt16
  regIntno : UInt32
  regErr : UInt32
  regEip : UInt32
  regCs : UInt16
  regPadding3 : UInt16
  regEflags : UInt32
  regEsp : UInt32
  regSs : UInt16
  regPadding4 : UInt16
  deriving DecidableEq

/-- A register set of zeros, as `memset` leaves it. -/
def Registers.zero : Registers :=
  ⟨0, 0, 0, 0, 0, 0, 0, 0, 0, 0, 0, 0, 0, 0, 0, 0, 0, 0, 0, 0, 0⟩

/-- `procstate_t`. -/
inductive ProcState where
  | pEmpty
  | pRunnable
  | pBlocked
  | pZombie
  deriving DecidableEq

/-- `process_t`. -/
structure Process where
  pPid : Pid
  pRegisters : Registers
  pState : ProcState
  pExitStatus : Int32
  pPriority : Int32
  pShare : Int32
  pNumTimes : Int32
  pNumTickets : Int32
  deriving DecidableEq

/-- An entry of zeros; `P_EMPTY` is 0. -/
def Process.zero : Process := ⟨0, .zero, .pEmpty, 0, 0, 0, 0, 0⟩

/-- The kernel's variables and the memory. -/
structure Machine where
  procArray : Pid → Process
  /-- The entry that `current` points to. -/
  current : Pid
  schedulingAlgorithm : Int32
  ram : Mem

/-- `P_RUNNABLE` is the state of the entry. -/
def Machine.Runnable (k : Machine) (pid : Pid) : Prop := (k.procArray pid).pState = .pRunnable

instance (k : Machine) : DecidablePred k.Runnable :=
  fun pid => inferInstanceAs (Decidable ((k.procArray pid).pState = .pRunnable))

/-- An assignment to fields of `proc_array[pid]`. -/
def Machine.setProc (k : Machine) (pid : Pid) (f : Process → Process) : Machine :=
  { k with procArray := Function.update k.procArray pid (f (k.procArray pid)) }

/-- An assignment to fields of `*current`. -/
def Machine.setCurrent (k : Machine) (f : Process → Process) : Machine := k.setProc k.current f

section SetProc

variable (k : Machine) (pid : Pid) (f : Process → Process)

@[simp] theorem Machine.setProc_ram : (k.setProc pid f).ram = k.ram := rfl

@[simp] theorem Machine.setProc_self : (k.setProc pid f).procArray pid = f (k.procArray pid) :=
  Function.update_self ..

theorem Machine.setProc_of_ne {i : Pid} (h : i ≠ pid) :
    (k.setProc pid f).procArray i = k.procArray i :=
  Function.update_of_ne h ..

/-- A field that the assignment keeps is kept in the whole table. -/
theorem Machine.setProc_field {β : Type*} (g : Process → β)
    (h : g (f (k.procArray pid)) = g (k.procArray pid)) (i : Pid) :
    g ((k.setProc pid f).procArray i) = g (k.procArray i) := by
  by_cases hi : i = pid
  · rw [hi, Machine.setProc_self, h]
  · rw [Machine.setProc_of_ne k pid f hi]

end SetProc

/-! ## Shared variables -/

/-- The address of `cursorpos`. -/
def cursorposAddr : UInt32 := 0x198000

/-- The address of `lock`. -/
def lockAddr : UInt32 := 0x198004

def Machine.cursorpos (k : Machine) : UInt32 := readU32 k.ram cursorposAddr

def Machine.lock (k : Machine) : UInt32 := readU32 k.ram lockAddr

/-! ## Leaving the kernel -/

/-- Where the machine is while no kernel code is about to return to its caller. -/
inductive Config where
  /-- `run(&proc_array[proc])` has left the kernel: the process runs with the registers `cpu`. -/
  | user (proc : Pid) (k : Machine) (cpu : Registers)
  /-- The kernel is in a loop that it has not left so far. -/
  | spinning (k : Machine)

/-- The machine of a configuration. -/
def Config.machine : Config → Machine
  | .user _ k _ => k
  | .spinning k => k

/-- The process that runs, if one does. -/
def Config.proc? : Config → Option Pid
  | .user proc _ _ => some proc
  | .spinning _ => none

@[simp] theorem Config.machine_user (proc : Pid) (k : Machine) (cpu : Registers) :
    (Config.user proc k cpu).machine = k := rfl

@[simp] theorem Config.proc?_user (proc : Pid) (k : Machine) (cpu : Registers) :
    (Config.user proc k cpu).proc? = some proc := rfl

theorem Config.proc?_eq_some {c : Config} {p : Pid} (h : c.proc? = some p) :
    ∃ k cpu, c = .user p k cpu := by
  cases c with
  | user proc k cpu => exact ⟨k, cpu, by rw [Option.some.inj h]⟩
  | spinning k => cases h

/-- `run(&proc_array[proc])`: `current` is set, and the `popal` … `iret` sequence restores the
registers that the entry holds. -/
def run (proc : Pid) (k : Machine) : Config :=
  .user proc { k with current := proc } (k.procArray proc).pRegisters

end SchedOS
