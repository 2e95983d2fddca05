import SchedOS.Kern.Segments
import SchedOS.Infra.KeyboardController
import SchedOS.Infra.Run
import SchedOS.Infra.SegmentRegisters

/-!
# `bootstart.S`

What runs before `bootmain`: the processor is in real mode and address line 20 is held low, and
`bootmain` wants neither. The line is let through by the keyboard controller, which works at its own
pace beside the processor: before every instruction it may take the byte that waits for it, or not.

Everything here lies below the first megabyte, where address line 20 does not matter.
-/

namespace SchedOS

open Infra

/-! ## The tables -/

/-- `SEG_NULL` as it is assembled. -/
def segNullBytes : List UInt8 := leBytes 2 0 ++ leBytes 2 0 ++ [0, 0, 0, 0]

/-- `SEG(type, base, lim)` as it is assembled. -/
def segBytes (type base lim : UInt32) : List UInt8 :=
  leBytes 2 ((lim >>> 12) &&& 0xFFFF).toNat ++ leBytes 2 (base &&& 0xFFFF).toNat
    ++ [((base >>> 16) &&& 0xFF).toUInt8, ((0x90 : UInt32) ||| type).toUInt8,
      ((0xC0 : UInt32) ||| ((lim >>> 28) &&& 0xF)).toUInt8, ((base >>> 24) &&& 0xFF).toUInt8]

/-- `gdt`. -/
def bootGdt : List UInt8 :=
  segNullBytes ++ segBytes (staX ||| staR) 0 0xFFFFFFFF ++ segBytes staW 0 0xFFFFFFFF

/-- `gdtdesc`. -/
def bootGdtdesc (gdt : UInt32) : List UInt8 := leBytes 2 0x17 ++ leBytes 4 gdt.toNat

/-- Where the tables are in the boot sector. -/
structure BootSymbols where
  gdt : UInt32
  gdtdesc : UInt16

/-! ## The processor -/

/-- The instructions, in their order. -/
inductive BootPc where
  | cli
  | cld
  | xorwAx
  | movwDs
  | movwEs
  | movwSs
  | movwSp
  /-- `seta20.1: inb $0x64,%al` -/
  | inStatus1
  /-- `testb $0x2,%al` and `jnz seta20.1` -/
  | testBusy1
  | movCommand
  | outCommand
  /-- `seta20.2` -/
  | inStatus2
  | testBusy2
  | movEnable
  | outEnable
  /-- `real_to_prot: cli` -/
  | realToProt
  | lgdt
  | movCr0
  | orl
  | setCr0
  | ljmp
  /-- `protcseg: movw $SEGSEL_BOOT_DATA, %ax` -/
  | protcseg
  | protDs
  | protEs
  | protFs
  | protGs
  | protSs
  | callBootmain
  deriving DecidableEq

/-- `SEGSEL_BOOT_CODE`, `SEGSEL_BOOT_DATA` and `CR0_PE_ON`. -/
def segselBootCode : BitVec 16 := 0x8
def segselBootData : UInt16 := 0x10
def cr0PeOn : UInt32 := 1

/-- `start`, where the BIOS jumps to. -/
def startAddr : UInt16 := 0x7C00

/-- The registers that matter. -/
structure BootCpu where
  pc : BootPc
  eax : UInt32
  esp : UInt32
  cr0 : UInt32
  /-- `EFLAGS_IF` and `EFLAGS_DF`. -/
  interruptFlag : Bool
  directionFlag : Bool
  cs : SegmentRegister
  ds : SegmentRegister
  es : SegmentRegister
  fs : SegmentRegister
  gs : SegmentRegister
  ss : SegmentRegister
  tables : Tables

/-- A word register keeps its upper half. -/
def setLow16 (r : UInt32) (v : UInt16) : UInt32 := (r &&& 0xFFFF0000) ||| v.toUInt32

def setLow8 (r : UInt32) (v : UInt8) : UInt32 := (r &&& 0xFFFFFF00) ||| v.toUInt32

namespace BootCpu

/-- `movw %ax` to a data segment register. -/
def loadData (s : BootCpu) (r : SegmentRegister) : Option SegmentRegister :=
  let ax := s.eax.toUInt16.toBitVec
  if s.cr0 &&& cr0PeOn = 0 then some (r.loadReal ax) else r.loadData s.tables 0 ax

/-- `movw %ax, %ss`. -/
def loadStack (s : BootCpu) : Option SegmentRegister :=
  let ax := s.eax.toUInt16.toBitVec
  if s.cr0 &&& cr0PeOn = 0 then some (s.ss.loadReal ax) else s.tables.loadStack 0 ax

/-- An instruction that uses no port; `none` is a fault, for which there is no handler. -/
def exec (m : Mem) (symbols : BootSymbols) (s : BootCpu) : Option BootCpu :=
  match s.pc with
  | .cli => some { s with pc := .cld, interruptFlag := false }
  | .cld => some { s with pc := .xorwAx, directionFlag := false }
  | .xorwAx => some { s with pc := .movwDs, eax := setLow16 s.eax 0 }
  | .movwDs => do some { s with pc := .movwEs, ds := ← s.loadData s.ds }
  | .movwEs => do some { s with pc := .movwSs, es := ← s.loadData s.es }
  | .movwSs => do some { s with pc := .movwSp, ss := ← s.loadStack }
  | .movwSp => some { s with pc := .inStatus1, esp := setLow16 s.esp startAddr }
  | .testBusy1 =>
    some { s with pc := if s.eax.toUInt8 &&& 2 ≠ 0 then .inStatus1 else .movCommand }
  | .movCommand => some { s with pc := .outCommand, eax := setLow8 s.eax 0xD1 }
  | .testBusy2 =>
    some { s with pc := if s.eax.toUInt8 &&& 2 ≠ 0 then .inStatus2 else .movEnable }
  | .movEnable => some { s with pc := .outEnable, eax := setLow8 s.eax 0xDF }
  | .realToProt => some { s with pc := .lgdt, interruptFlag := false }
  | .lgdt =>
    let gdtdesc := UInt32.ofBitVec s.ds.view.base + symbols.gdtdesc.toUInt32
    some { s with pc := .movCr0, tables := s.tables.lgdt m gdtdesc }
  | .movCr0 => some { s with pc := .orl, eax := s.cr0 }
  | .orl => some { s with pc := .setCr0, eax := s.eax ||| cr0PeOn }
  | .setCr0 => some { s with pc := .ljmp, cr0 := s.eax }
  | .ljmp => do some { s with pc := .protcseg, cs := ← s.tables.jump 0 segselBootCode }
  | .protcseg => some { s with pc := .protDs, eax := setLow16 s.eax segselBootData }
  | .protDs => do some { s with pc := .protEs, ds := ← s.loadData s.ds }
  | .protEs => do some { s with pc := .protFs, es := ← s.loadData s.es }
  | .protFs => do some { s with pc := .protGs, fs := ← s.loadData s.fs }
  | .protGs => do some { s with pc := .protSs, gs := ← s.loadData s.gs }
  | .protSs => do some { s with pc := .callBootmain, ss := ← s.loadStack }
  -- `bootmain` has taken over
  | .callBootmain => some s
  | .inStatus1 | .outCommand | .inStatus2 | .outEnable => none

end BootCpu

/-! ## The two together -/

structure Bootstart where
  cpu : BootCpu
  controller : KeyboardController

/-- What the controller does in a step. -/
structure BootBeat where
  /-- It takes the byte that waits for it, if any. -/
  take : Bool
  /-- The bits of its status register that nobody looks at. -/
  others : UInt8

/-- One instruction. -/
def Bootstart.step (m : Mem) (symbols : BootSymbols) (t : BootBeat) (s : Bootstart) :
    Option Bootstart :=
  let c := if t.take then s.controller.take else s.controller
  let status := c.status t.others
  match s.cpu.pc with
  | .inStatus1 => some ⟨{ s.cpu with pc := .testBusy1, eax := setLow8 s.cpu.eax status }, c⟩
  | .outCommand => some ⟨{ s.cpu with pc := .inStatus2 }, c.outb true s.cpu.eax.toUInt8⟩
  | .inStatus2 => some ⟨{ s.cpu with pc := .testBusy2, eax := setLow8 s.cpu.eax status }, c⟩
  | .outEnable => some ⟨{ s.cpu with pc := .realToProt }, c.outb false s.cpu.eax.toUInt8⟩
  | _ => (s.cpu.exec m symbols).map (⟨·, c⟩)

/-- From `start` on, with the boot sector in the memory `m`. -/
def bootstart (m : Mem) (symbols : BootSymbols) (s : Bootstart) (beats : Nat → BootBeat)
    (n : Nat) : Option Bootstart :=
  states (fun t s => s.bind (Bootstart.step m symbols t)) beats (some s) n

end SchedOS
