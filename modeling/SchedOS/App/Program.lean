import SchedOS.Kern.Interrupt

/-!
# The applications

`schedos-1.c`, which the other three applications include after their `#define`s, built with
`__PRINT_METHOD_LOCK__`. `start` is cut into instructions so that each reads or writes at most
one shared variable; the loading of an argument into `%eax` counts as part of the `int` or
`xchg` that uses it. `i` is kept in `%ebx` and the value of `cursorpos` that
`*cursorpos++ = PRINTCHAR` works on in `%ecx`: the kernel saves and restores them like all the
other registers.

Where the compiler puts the instructions is not under our control. A `Layout` says no more than
that no two of them are at the same place and that the program is entered at the first.
-/

namespace SchedOS

open Infra

/-- `RUNCOUNT`. -/
def shippedRuncount : Nat := 320

/-- The instructions of `start` in `schedos-1.c`. -/
inductive Pc where
  | sysSetPriority
  | sysSetShare
  | sysSetLotteryTickets
  /-- `i = 0` -/
  | initI
  /-- `i < RUNCOUNT` -/
  | testI
  /-- `atomic_swap(&lock, 1)` -/
  | acquireSwap
  /-- `while (… != 0) continue` -/
  | testLock
  | loadCursorpos
  /-- the cell becomes `PRINTCHAR` -/
  | storeCell
  | storeCursorpos
  /-- `atomic_swap(&lock, 0)` -/
  | releaseSwap
  | sysYield
  /-- `i++` -/
  | incI
  | sysExit
  /-- `loop: goto loop` in `sys_exit` -/
  | hang
  deriving DecidableEq

def Pc.all : List Pc :=
  [.sysSetPriority, .sysSetShare, .sysSetLotteryTickets, .initI, .testI, .acquireSwap, .testLock,
    .loadCursorpos, .storeCell, .storeCursorpos, .releaseSwap, .sysYield, .incI, .sysExit, .hang]

theorem Pc.mem_all (pc : Pc) : pc ∈ Pc.all := by
  cases pc <;> decide

/-- What an application `#define`s before it includes `schedos-1.c`. -/
structure Defines where
  printchar : UInt16
  priority : Int32
  share : Int32
  lotteryTickets : Int32

def schedos1 : Defines := ⟨0x31 ||| 0x0C00, 1, 2, 4⟩

def schedos2 : Defines := ⟨0x32 ||| 0x0A00, 2, 4, 4⟩

def schedos3 : Defines := ⟨0x33 ||| 0x0900, 1, 8, 4⟩

def schedos4 : Defines := ⟨0x34 ||| 0x0E00, 4, 4, 4⟩

/-- The four applications that are shipped; entry 0 of the table runs none. -/
def shippedDefines (p : Pid) : Defines :=
  if p = 1 then schedos1 else if p = 2 then schedos2 else if p = 3 then schedos3 else schedos4

/-- Where the instructions are, relative to the entry point. -/
structure Layout where
  offset : Pc → UInt32
  injective : Function.Injective offset
  entry : offset .sysSetPriority = 0

/-- An application as it has been compiled. -/
structure Program extends Defines, Layout

theorem Pc.all_idxOf (pc : Pc) : Pc.all[(UInt32.ofNat (Pc.all.idxOf pc)).toNat]? = some pc := by
  cases pc <;> rfl

/-- One instruction after the other, each at an address of its own. -/
def plainLayout : Layout where
  offset pc := UInt32.ofNat (Pc.all.idxOf pc)
  injective pc pc' h := by
    have hpc := Pc.all_idxOf pc
    have hoffset : UInt32.ofNat (Pc.all.idxOf pc) = UInt32.ofNat (Pc.all.idxOf pc') := h
    rw [hoffset, Pc.all_idxOf pc'] at hpc
    exact (Option.some.inj hpc).symm
  entry := rfl

/-- The shipped applications with that layout. -/
def shippedProgram (p : Pid) : Program := ⟨shippedDefines p, plainLayout⟩

/-! ## Executing an instruction -/

/-- `atomic_swap(addr, val)`: the old value, and the memory with the new one. -/
def atomicSwap (addr val : UInt32) (ram : Mem) : UInt32 × Mem :=
  (readU32 ram addr, writeU32 ram addr val)

/-- Where an instruction leaves the processor. -/
structure Exec where
  /-- The instruction with which the process goes on. -/
  pc : Pc
  cpu : Registers
  ram : Mem
  /-- The interrupt, if the instruction is an `int`. -/
  int : Option UInt32

/-- One instruction of the application. -/
def Program.exec (program : Program) (runcount : Nat) (cpu : Registers) (ram : Mem) : Pc → Exec
  | .sysSetPriority => ⟨.sysSetShare,
      { cpu with regEax := program.priority.toUInt32 }, ram, some intSysUser1⟩
  | .sysSetShare => ⟨.sysSetLotteryTickets,
      { cpu with regEax := program.share.toUInt32 }, ram, some intSysUser2⟩
  | .sysSetLotteryTickets => ⟨.initI,
      { cpu with regEax := program.lotteryTickets.toUInt32 }, ram, some intSysSetLottery⟩
  | .initI => ⟨.testI, { cpu with regEbx := 0 }, ram, none⟩
  | .testI =>
    ⟨if cpu.regEbx.toInt32 < Int32.ofNat runcount then .acquireSwap else .sysExit, cpu, ram, none⟩
  | .acquireSwap =>
    let (val, ram) := atomicSwap lockAddr 1 ram
    ⟨.testLock, { cpu with regEax := val }, ram, none⟩
  | .testLock => ⟨if cpu.regEax ≠ 0 then .acquireSwap else .loadCursorpos, cpu, ram, none⟩
  | .loadCursorpos => ⟨.storeCell, { cpu with regEcx := readU32 ram cursorposAddr }, ram, none⟩
  | .storeCell => ⟨.storeCursorpos, cpu, writeU16 ram cpu.regEcx program.printchar, none⟩
  | .storeCursorpos => ⟨.releaseSwap, cpu, writeU32 ram cursorposAddr (cpu.regEcx + 2), none⟩
  | .releaseSwap =>
    let (val, ram) := atomicSwap lockAddr 0 ram
    ⟨.sysYield, { cpu with regEax := val }, ram, none⟩
  | .sysYield => ⟨.incI, cpu, ram, some intSysYield⟩
  | .incI => ⟨.testI, { cpu with regEbx := cpu.regEbx + 1 }, ram, none⟩
  | .sysExit => ⟨.hang, { cpu with regEax := 0 }, ram, some intSysExit⟩
  | .hang => ⟨.hang, cpu, ram, none⟩

/-! ## Four applications -/

/-- The programs that run, and where `program_loader` has put them. -/
structure Apps where
  program : Pid → Program
  entry : Pid → UInt32
  /-- `RUNCOUNT`. -/
  runcount : Nat

namespace Apps

variable (apps : Apps) (p : Pid)

/-- `cpu` with the instruction pointer of process `p` at `pc`. -/
def goto (pc : Pc) (cpu : Registers) : Registers :=
  { cpu with regEip := apps.entry p + (apps.program p).offset pc }

/-- The registers after an instruction; an interrupt adds its number. -/
def resume (e : Exec) : Registers :=
  { apps.goto p e.pc e.cpu with regIntno := e.int.getD e.cpu.regIntno }

/-- The instruction that `cpu` is at. -/
def decode (cpu : Registers) : Option Pc :=
  Pc.all.find? fun pc => decide (cpu.regEip = apps.entry p + (apps.program p).offset pc)

variable {apps p}

theorem decode_eq_some {cpu : Registers} {pc : Pc}
    (h : cpu.regEip = apps.entry p + (apps.program p).offset pc) :
    apps.decode p cpu = some pc := by
  unfold decode
  cases hf : Pc.all.find? fun pc =>
      decide (cpu.regEip = apps.entry p + (apps.program p).offset pc) with
  | none =>
    rw [List.find?_eq_none] at hf
    exact absurd h (by simpa using hf pc (Pc.mem_all pc))
  | some pc' =>
    have hpc' : cpu.regEip = apps.entry p + (apps.program p).offset pc' := by
      simpa using List.find?_some hf
    have hoffset : (apps.program p).offset pc' = (apps.program p).offset pc := by
      rw [h] at hpc'
      grind
    rw [(apps.program p).injective hoffset]

@[simp] theorem decode_resume (e : Exec) : apps.decode p (apps.resume p e) = some e.pc :=
  decode_eq_some rfl

@[simp] theorem resume_regEbx (e : Exec) : (apps.resume p e).regEbx = e.cpu.regEbx := rfl

end Apps

end SchedOS
