import SchedOS.Kern.Schedule
import SchedOS.Infra.Switch

/-!
# `interrupt`

The handler saves the registers of the process that was interrupted and enters its `switch`
at the interrupt number. No `case` ends with a `break`: each relies on `schedule` not coming
back. The model keeps the arms in source order and lets control run on (`Infra.switch`).
-/

namespace SchedOS

open Infra

/-- `INT_SYS_YIELD`. -/
def intSysYield : UInt32 := 48

/-- `INT_SYS_EXIT`. -/
def intSysExit : UInt32 := 49

/-- `INT_SYS_USER1`, used by `sys_set_priority`. -/
def intSysUser1 : UInt32 := 50

/-- `INT_SYS_USER2`, used by `sys_set_share`. -/
def intSysUser2 : UInt32 := 51

/-- `INT_SYS_ATOMIC_PRINT`. -/
def intSysAtomicPrint : UInt32 := 52

/-- `INT_SYS_SET_LOTTERY`. -/
def intSysSetLottery : UInt32 := 53

/-- `INT_CLOCK`. -/
def intClock : UInt32 := 32

/-- `*cursorpos++ = (char) c`: the `char` is signed and widened to the 16 bits of the cell. -/
def Machine.atomicPrint (k : Machine) (c : UInt32) : Machine :=
  let cell := k.cursorpos
  let ram := writeU16 k.ram cell c.toUInt8.toInt8.toInt16.toUInt16
  { k with ram := writeU32 ram cursorposAddr (cell + 2) }

/-- The arms of the `switch`, each up to the next `case`. -/
def interruptArms (fuel : Nat) (tsc : Nat → UInt64) (reg : Registers) :
    List (UInt32 × (Machine → Except Config Machine)) :=
  [(intSysYield, fun k => schedule fuel tsc k),
   (intSysExit, fun k =>
      let k := k.setCurrent fun p => { p with pState := .pZombie }
      let k := k.setCurrent fun p => { p with pExitStatus := reg.regEax.toInt32 }
      schedule fuel tsc k),
   (intSysUser1, fun k =>
      let k := k.setCurrent fun p => { p with pPriority := reg.regEax.toInt32 }
      schedule fuel tsc k),
   (intSysUser2, fun k =>
      let k := k.setCurrent fun p => { p with pShare := reg.regEax.toInt32 }
      let k := k.setCurrent fun p => { p with pNumTimes := 0 }
      schedule fuel tsc k),
   (intClock, fun k => schedule fuel tsc k),
   (intSysAtomicPrint, fun k => schedule fuel tsc (k.atomicPrint reg.regEax)),
   (intSysSetLottery, fun k =>
      let k := k.setCurrent fun p => { p with pNumTickets := reg.regEax.toInt32 }
      schedule fuel tsc k)]

/-- `interrupt(reg)`. The `default:` arm is `while (1) /* do nothing */;`. -/
def interrupt (fuel : Nat) (tsc : Nat → UInt64) (reg : Registers) (k : Machine) :
    Except Config Machine :=
  let k := k.setCurrent fun p => { p with pRegisters := reg }
  switch reg.regIntno (interruptArms fuel tsc reg) (fun k => .error (.spinning k)) k

end SchedOS
