import SchedOS.Kern.Interrupt
import SchedOS.Infra.Pic

/-!
# `interrupt_controller_init`

The bytes that the kernel outputs to the interrupt controllers and to the timer, each with its
port. `start` passes 0, which keeps the clock off.
-/

namespace SchedOS

open Infra

/-- `INT_HARDWARE`. -/
def intHardware : UInt8 := 32

/-- `IO_PIC1` and `IO_PIC2`. -/
def ioPic1 : Nat := 0x20
def ioPic2 : Nat := 0xA0

/-- `IRQ_SLAVE`. -/
def irqSlave : UInt8 := 2

/-- `IO_TIMER1` and `TIMER_MODE`. -/
def ioTimer1 : Nat := 0x40
def timerMode : Nat := ioTimer1 + 3

/-- `TIMER_SEL0`, `TIMER_RATEGEN` and `TIMER_16BIT`. -/
def timerSel0 : UInt8 := 0x00
def timerRategen : UInt8 := 0x04
def timer16bit : UInt8 := 0x30

/-- `TIMER_FREQ`. -/
def timerFreq : Nat := 1193182

/-- `TIMER_DIV(x)`. -/
def timerDiv (x : Nat) : Nat := (timerFreq + x / 2) / x

/-- `HZ`. -/
def hz : Nat := 3000

/-- `interrupt_controller_init(allow_clock_interrupt)`. -/
def interruptControllerInit (allow_clock_interrupt : Bool) : List (Nat × UInt8) :=
  [(ioPic1 + 1, 0xFF), (ioPic2 + 1, 0xFF),
    -- the master: ICW1 to ICW4
    (ioPic1, 0x11), (ioPic1 + 1, intHardware), (ioPic1 + 1, 1 <<< irqSlave), (ioPic1 + 1, 0x3),
    -- the slave
    (ioPic2, 0x11), (ioPic2 + 1, intHardware + 8), (ioPic2 + 1, irqSlave), (ioPic2 + 1, 0x01),
    -- OCW3
    (ioPic1, 0x68), (ioPic1, 0x0A), (ioPic2, 0x68), (ioPic2, 0x0A),
    (ioPic1 + 1, if allow_clock_interrupt then 0xFE else 0xFF), (ioPic2 + 1, 0xFF)] ++
  if allow_clock_interrupt then
    [(timerMode, timerSel0 ||| timerRategen ||| timer16bit),
      (ioTimer1, UInt8.ofNat (timerDiv hz % 256)), (ioTimer1, UInt8.ofNat (timerDiv hz / 256))]
  else []

end SchedOS
