import SchedOS.Kern.Trapframe
import SchedOS.Infra.SegmentRegisters

/-!
# `segments_init`

The tables that tell the processor where the kernel, the applications and the interrupt handlers
are. `kernel_task_descriptor` and the descriptors are records that the compiler lays out in memory;
the addresses of functions and variables are the linker's (`Symbols`).
-/

namespace SchedOS

open Infra

/-! ## Descriptors -/

/-- `gatedescriptor_t`. -/
structure Gatedescriptor where
  gdOff15_0 : BitVec 16
  gdSs : BitVec 16
  gdArgs : BitVec 5
  gdRsv1 : BitVec 3
  gdType : BitVec 4
  gdS : BitVec 1
  gdDpl : BitVec 2
  gdP : BitVec 1
  gdOff31_16 : BitVec 16

/-- The fields in the order of the declaration. -/
def Gatedescriptor.fields (g : Gatedescriptor) : List Bitfield :=
  [⟨g.gdOff15_0⟩, ⟨g.gdSs⟩, ⟨g.gdArgs⟩, ⟨g.gdRsv1⟩, ⟨g.gdType⟩, ⟨g.gdS⟩, ⟨g.gdDpl⟩, ⟨g.gdP⟩,
    ⟨g.gdOff31_16⟩]

/-- `segmentdescriptor_t`. -/
structure Segmentdescriptor where
  sdLim15_0 : BitVec 16
  sdBase15_0 : BitVec 16
  sdBase23_16 : BitVec 8
  sdType : BitVec 4
  sdS : BitVec 1
  sdDpl : BitVec 2
  sdP : BitVec 1
  sdLim19_16 : BitVec 4
  sdAvl : BitVec 1
  sdRsv1 : BitVec 1
  sdDb : BitVec 1
  sdG : BitVec 1
  sdBase31_24 : BitVec 8

def Segmentdescriptor.fields (d : Segmentdescriptor) : List Bitfield :=
  [⟨d.sdLim15_0⟩, ⟨d.sdBase15_0⟩, ⟨d.sdBase23_16⟩, ⟨d.sdType⟩, ⟨d.sdS⟩, ⟨d.sdDpl⟩, ⟨d.sdP⟩,
    ⟨d.sdLim19_16⟩, ⟨d.sdAvl⟩, ⟨d.sdRsv1⟩, ⟨d.sdDb⟩, ⟨d.sdG⟩, ⟨d.sdBase31_24⟩]

/-- What a bit-field of width `w` keeps of an assigned value. -/
def assigned (w : Nat) (x : UInt32) : BitVec w := x.toBitVec.setWidth w

/-- `STS_IG32` and `STS_TG32`. -/
def stsIg32 : UInt32 := 0xE
def stsTg32 : UInt32 := 0xF

/-- `SETGATE(gate, istrap, sel, off, dpl)`. -/
def setgate (istrap : Bool) (sel off dpl : UInt32) : Gatedescriptor where
  gdOff15_0 := assigned 16 (off &&& 0xFFFF)
  gdSs := assigned 16 sel
  gdArgs := 0
  gdRsv1 := 0
  gdType := assigned 4 (if istrap then stsTg32 else stsIg32)
  gdS := 0
  gdDpl := assigned 2 dpl
  gdP := 1
  gdOff31_16 := assigned 16 (off >>> 16)

/-- `STA_X`, `STA_W`, `STA_R` and `STS_T32A`. -/
def staX : UInt32 := 0x8
def staW : UInt32 := 0x2
def staR : UInt32 := 0x2
def stsT32a : UInt32 := 0x9

/-- `SEG_NULL`. -/
def segNull : Segmentdescriptor := ⟨0, 0, 0, 0, 0, 0, 0, 0, 0, 0, 0, 0, 0⟩

/-- `SEG(type, base, lim, dpl)`. -/
def seg (type base lim dpl : UInt32) : Segmentdescriptor where
  sdLim15_0 := assigned 16 ((lim >>> 12) &&& 0xFFFF)
  sdBase15_0 := assigned 16 (base &&& 0xFFFF)
  sdBase23_16 := assigned 8 ((base >>> 16) &&& 0xFF)
  sdType := assigned 4 type
  sdS := 1
  sdDpl := assigned 2 dpl
  sdP := 1
  sdLim19_16 := assigned 4 ((lim >>> 28) &&& 0xF)
  sdAvl := 0
  sdRsv1 := 0
  sdDb := 1
  sdG := 1
  sdBase31_24 := assigned 8 ((base >>> 24) &&& 0xFF)

/-- `SEG16(type, base, lim, dpl)`. -/
def seg16 (type base lim dpl : UInt32) : Segmentdescriptor where
  sdLim15_0 := assigned 16 (lim &&& 0xFFFF)
  sdBase15_0 := assigned 16 (base &&& 0xFFFF)
  sdBase23_16 := assigned 8 ((base >>> 16) &&& 0xFF)
  sdType := assigned 4 type
  sdS := 1
  sdDpl := assigned 2 dpl
  sdP := 1
  sdLim19_16 := assigned 4 ((lim >>> 16) &&& 0xF)
  sdAvl := 0
  sdRsv1 := 0
  sdDb := 1
  sdG := 0
  sdBase31_24 := assigned 8 ((base >>> 24) &&& 0xFF)

/-! ## The task state -/

/-- `taskstate_t`. A static variable of this type begins with zeros. -/
structure Taskstate where
  tsLink : UInt32 := 0
  tsEsp0 : UInt32 := 0
  tsSs0 : UInt16 := 0
  tsPadding1 : UInt16 := 0
  tsEsp1 : UInt32 := 0
  tsSs1 : UInt16 := 0
  tsPadding2 : UInt16 := 0
  tsEsp2 : UInt32 := 0
  tsSs2 : UInt16 := 0
  tsPadding3 : UInt16 := 0
  tsCr3 : UInt32 := 0
  tsEip : UInt32 := 0
  tsEflags : UInt32 := 0
  tsEax : UInt32 := 0
  tsEcx : UInt32 := 0
  tsEdx : UInt32 := 0
  tsEbx : UInt32 := 0
  tsEsp : UInt32 := 0
  tsEbp : UInt32 := 0
  tsEsi : UInt32 := 0
  tsEdi : UInt32 := 0
  tsEs : UInt16 := 0
  tsPadding4 : UInt16 := 0
  tsCs : UInt16 := 0
  tsPadding5 : UInt16 := 0
  tsSs : UInt16 := 0
  tsPadding6 : UInt16 := 0
  tsDs : UInt16 := 0
  tsPadding7 : UInt16 := 0
  tsFs : UInt16 := 0
  tsPadding8 : UInt16 := 0
  tsGs : UInt16 := 0
  tsPadding9 : UInt16 := 0
  tsLdt : UInt16 := 0
  tsPadding10 : UInt16 := 0
  tsT : UInt16 := 0
  tsIomb : UInt16 := 0

/-- Its members are records of one field each here: the layout has no gaps. -/
def Taskstate.fields (t : Taskstate) : List Bitfield :=
  let long := fun x : UInt32 => (⟨x.toBitVec⟩ : Bitfield)
  let short := fun x : UInt16 => (⟨x.toBitVec⟩ : Bitfield)
  [long t.tsLink, long t.tsEsp0, short t.tsSs0, short t.tsPadding1, long t.tsEsp1, short t.tsSs1,
    short t.tsPadding2, long t.tsEsp2, short t.tsSs2, short t.tsPadding3, long t.tsCr3,
    long t.tsEip, long t.tsEflags, long t.tsEax, long t.tsEcx, long t.tsEdx, long t.tsEbx,
    long t.tsEsp, long t.tsEbp, long t.tsEsi, long t.tsEdi, short t.tsEs, short t.tsPadding4,
    short t.tsCs, short t.tsPadding5, short t.tsSs, short t.tsPadding6, short t.tsDs,
    short t.tsPadding7, short t.tsFs, short t.tsPadding8, short t.tsGs, short t.tsPadding9,
    short t.tsLdt, short t.tsPadding10, short t.tsT, short t.tsIomb]

/-- `sizeof(taskstate_t)`. -/
def sizeofTaskstate : UInt32 := 104

/-! ## `segments_init` -/

/-- The addresses that it uses. -/
structure Symbols where
  kernelTaskDescriptor : UInt32
  handler : Handler → UInt32

/-- `SEGSEL_KERN_CODE`, `SEGSEL_KERN_DATA` and `SEGSEL_TASKSTATE`. -/
def segselKernCode : UInt32 := 0x8
def segselKernData : UInt32 := 0x10
def segselTaskstate : UInt32 := 0x28

/-- The initial value of `segments`. -/
def initialSegments : Fin 6 → Segmentdescriptor :=
  ![segNull, seg (staX ||| staR) 0 0xFFFFFFFF 0, seg staW 0 0xFFFFFFFF 0,
    seg (staX ||| staR) 0 0xFFFFFFFF 3, seg staW 0 0xFFFFFFFF 3, segNull]

/-- `segments` afterwards. -/
def segments (s : Symbols) : Fin 6 → Segmentdescriptor :=
  Function.update initialSegments 5
    { seg16 stsT32a s.kernelTaskDescriptor sizeofTaskstate 0 with sdS := 0 }

/-- `kernel_task_descriptor` afterwards. -/
def kernelTaskDescriptor : Taskstate :=
  { tsEsp0 := kernelStackTop, tsSs0 := segselKernData.toUInt16 }

/-- `interrupt_descriptors` afterwards. The loop over all of them, the assignment for the clock, and
the loop over the system calls. -/
def interruptGates (s : Symbols) : UInt8 → Gatedescriptor :=
  let gates := fun _ => setgate false segselKernCode (s.handler .default) 0
  let gates := Function.update gates intClock.toUInt8
    (setgate false segselKernCode (s.handler .clock) 0)
  (List.finRange 10).foldl (fun gates i =>
    Function.update gates (sysVector i) (setgate false segselKernCode (s.handler (.sys i)) 3)) gates

/-- What `lgdt` and `lidt` load. Behind `kernel_task_descriptor` lies `behind`. -/
def descriptorTables (s : Symbols) (behind : Nat) : Tables where
  gdt i := if h : i < 6 then pack (segments s ⟨i, h⟩).fields else 0
  gdtLimit := 6 * 8 - 1
  idt v := pack (interruptGates s (UInt8.ofNat v)).fields
  idtLimit := 256 * 8 - 1
  tr := 0
  task := pack kernelTaskDescriptor.fields + 2 ^ 832 * behind

/-- `segments_init()`. The `ltr` is not refused (`ltr_descriptorTables`). -/
def segmentsInit (s : Symbols) (behind : Nat) : Tables :=
  ((descriptorTables s behind).ltr (assigned 16 segselTaskstate)).getD (descriptorTables s behind)

end SchedOS
