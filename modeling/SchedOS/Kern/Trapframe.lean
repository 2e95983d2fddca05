import SchedOS.Kern.Interrupt
import SchedOS.Infra.Stack

/-!
# From a process to `interrupt` and back

What happens between the moment when a process is interrupted and the call of `interrupt`: the
processor puts the registers that it needs itself on the kernel stack, the handler to which the
gate of the interrupt leads adds a number, and `_generic_int_handler` the other registers. What
is on the stack then is to be a `registers_t`, with which `run` takes up the process again.

A segment register fills half a word. What the other half is when it is pushed, nobody says.
-/

namespace SchedOS

open Infra

/-- The registers of a process. -/
structure Context where
  edi : UInt32
  esi : UInt32
  ebp : UInt32
  ebx : UInt32
  edx : UInt32
  ecx : UInt32
  eax : UInt32
  es : UInt16
  ds : UInt16
  eip : UInt32
  cs : UInt16
  eflags : UInt32
  esp : UInt32
  ss : UInt16
  deriving DecidableEq

/-- A process does not run with the privileges of the kernel. -/
structure UserContext extends Context where
  user : cs &&& 3 = 3

/-- The other halves of the words with the segment registers. -/
structure Padding where
  es : UInt16
  ds : UInt16
  cs : UInt16
  ss : UInt16

/-! ## Gates -/

/-- Where a gate leads. -/
inductive Handler where
  /-- `clock_int_handler`. -/
  | clock
  /-- `sys_int_handlers[i]`, that is `sys_int48_handler` to `sys_int57_handler`. -/
  | sys (i : Fin 10)
  /-- `default_int_handler`. -/
  | default
  deriving DecidableEq

/-- What a handler pushes before it jumps to `_generic_int_handler`. -/
def Handler.pushes : Handler → List UInt32
  | .clock => [0, 32]
  | .sys i => [0, 48 + UInt32.ofNat i]
  | .default => [0]

/-- The number of the trap that it pushes. -/
def Handler.trapNumber : Handler → UInt32
  | .clock => 32
  | .sys i => 48 + UInt32.ofNat i
  | .default => 0

/-- The vector of system call `i`, counted from `INT_SYS_YIELD` on. -/
def sysVector (i : Fin 10) : UInt8 := intSysYield.toUInt8 + UInt8.ofNat i

/-- `interrupt_descriptors` as `segments_init` sets it up. -/
def interruptDescriptors : UInt8 → Handler :=
  let gates := fun _ => .default
  let gates := Function.update gates intClock.toUInt8 .clock
  (List.finRange 10).foldl (fun gates i => Function.update gates (sysVector i) (.sys i)) gates

/-! ## On to the stack -/

/-- An interrupt: its vector, and the error code that the processor supplies for some of the
exceptions, which are the vectors below 32. -/
structure Interrupt where
  vector : UInt8
  err : Option UInt32
  exception : err.isSome → vector < 32

/-- What the processor pushes. -/
def Interrupt.pushes (i : Interrupt) (c : Context) (pad : Padding) : List UInt32 :=
  [word pad.ss c.ss, c.esp, c.eflags, word pad.cs c.cs, c.eip] ++ i.err.toList

/-- `KERNEL_STACK_TOP`. -/
def kernelStackTop : UInt32 := 0x180000

/-- `_generic_int_handler`, until it has pushed the general registers. -/
def genericIntHandler (c : Context) (pad : Padding) (s : Stack) : Stack :=
  let s := s.push (word pad.ds c.ds)
  let s := s.push (word pad.es c.es)
  -- `pushal`
  s.pushAll [c.eax, c.ecx, c.edx, c.ebx, s.esp, c.ebp, c.esi, c.edi]

/-- The interrupt `i`, taken in the context `c` with the memory `m`: the argument with which
`interrupt` is called, and the memory then. `ret` is the address to which it would return. -/
def callInterrupt (i : Interrupt) (c : Context) (pad : Padding) (ret : UInt32) (m : Mem) :
    UInt32 × Mem :=
  let s : Stack := ⟨m, kernelStackTop⟩
  let s := s.pushAll (i.pushes c pad)
  let s := s.pushAll (interruptDescriptors i.vector).pushes
  let s := genericIntHandler c pad s
  let reg := s.esp
  -- `pushl %esp`, `call interrupt`
  let s := (s.push reg).push ret
  (reg, s.mem)

/-! ## `registers_t` in memory -/

/-- `*reg`, as C lays out a `registers_t`. -/
def readRegisters (m : Mem) (reg : UInt32) : Registers where
  regEdi := readU32 m reg
  regEsi := readU32 m (reg + 4)
  regEbp := readU32 m (reg + 8)
  regOriginalEsp := readU32 m (reg + 12)
  regEbx := readU32 m (reg + 16)
  regEdx := readU32 m (reg + 20)
  regEcx := readU32 m (reg + 24)
  regEax := readU32 m (reg + 28)
  regEs := readU16 m (reg + 32)
  regPadding1 := readU16 m (reg + 34)
  regDs := readU16 m (reg + 36)
  regPadding2 := readU16 m (reg + 38)
  regIntno := readU32 m (reg + 40)
  regErr := readU32 m (reg + 44)
  regEip := readU32 m (reg + 48)
  regCs := readU16 m (reg + 52)
  regPadding3 := readU16 m (reg + 54)
  regEflags := readU32 m (reg + 56)
  regEsp := readU32 m (reg + 60)
  regSs := readU16 m (reg + 64)
  regPadding4 := readU16 m (reg + 66)

/-- `sizeof(registers_t)`. -/
def sizeofRegisters : Nat := 68

/-- The registers of the process in the fields with their names. -/
def Registers.context (r : Registers) : Context where
  edi := r.regEdi
  esi := r.regEsi
  ebp := r.regEbp
  ebx := r.regEbx
  edx := r.regEdx
  ecx := r.regEcx
  eax := r.regEax
  es := r.regEs
  ds := r.regDs
  eip := r.regEip
  cs := r.regCs
  eflags := r.regEflags
  esp := r.regEsp
  ss := r.regSs

/-! ## Back to the process -/

/-- The instructions of `run`, with `p_registers` at `reg`: the registers after `iret`. -/
def resume (m : Mem) (reg : UInt32) : Context :=
  let s : Stack := ⟨m, reg⟩
  -- `popal`, which passes over the stack pointer
  let (edi, s) := s.pop
  let (esi, s) := s.pop
  let (ebp, s) := s.pop
  let (_, s) := s.pop
  let (ebx, s) := s.pop
  let (edx, s) := s.pop
  let (ecx, s) := s.pop
  let (eax, s) := s.pop
  -- `popl %es`, `popl %ds`
  let (es, s) := s.pop
  let (ds, s) := s.pop
  -- `addl $8, %esp`
  let s : Stack := ⟨s.mem, s.esp + 8⟩
  -- `iret`, which goes on to the stack if it leads to a lower level of privilege
  let (eip, s) := s.pop
  let (cs, s) := s.pop
  let (eflags, s) := s.pop
  let (esp, ss) :=
    if cs.toUInt16 &&& 3 ≠ 0 then (s.pop.1, s.pop.2.pop.1.toUInt16) else (s.esp, 0x10)
  { edi, esi, ebp, ebx, edx, ecx, eax, es := es.toUInt16, ds := ds.toUInt16, eip
    cs := cs.toUInt16, eflags, esp, ss }

end SchedOS
