import SchedOS.Kern.Loader
import SchedOS.Infra.Blocks

/-!
# `bootmain`

The boot loader reads the kernel from the first disk into memory and jumps to it. The disk is a
drive that delivers the sector that the bytes at its ports address; it is ready sooner or later,
so that `waitdisk` has no counterpart here. The result is `none` where a loop does not end.

The headers are read where `readseg` has put them, again for every segment, and the flags and the
type of a header are ignored.
-/

namespace SchedOS

open Infra

/-- `SECTORSIZE`. -/
def sectorsize : UInt32 := 512

/-- `ELFHDR`. -/
def elfhdr : UInt32 := 0x10000

/-- The bytes that have been output to the ports `0x1F2` to `0x1F7`. -/
structure IdePorts where
  count : UInt8
  lba0 : UInt8
  lba1 : UInt8
  lba2 : UInt8
  drive : UInt8
  command : UInt8

/-- The sector that a drive is asked for: the upper half of the port `0x1F6` selects the drive and
the kind of address. -/
def IdePorts.sector (p : IdePorts) : Nat :=
  p.lba0.toNat + 2 ^ 8 * p.lba1.toNat + 2 ^ 16 * p.lba2.toNat + 2 ^ 24 * (p.drive.toNat % 16)

/-- What `readsect` outputs. -/
def readsectPorts (sect : UInt32) : IdePorts where
  count := 1
  lba0 := sect.toUInt8
  lba1 := (sect >>> 8).toUInt8
  lba2 := (sect >>> 16).toUInt8
  drive := ((sect >>> 24) ||| 0xE0).toUInt8
  command := 0x20

/-- `readsect(dst, sect)`: the `insl` stores the bytes of the sector one after the other. -/
def readsect (disk : Nat → UInt8) (dst sect : UInt32) (m : Mem) : Mem :=
  writeBytes m dst (block disk 512 (readsectPorts sect).sector)

/-- `while (va < end_va)`, for less than `fuel` rounds. -/
def readSectors (disk : Nat → UInt8) (end_va : UInt32) : Nat → UInt32 → UInt32 → Mem → Option Mem
  | 0, _, _, _ => none
  | fuel + 1, va, sect, m =>
    if va < end_va then
      readSectors disk end_va fuel (va + sectorsize) (sect + 1) (readsect disk va sect m)
    else some m

/-- The number of sectors that fit into the address space. After as many rounds the loop of
`readseg` is back where it began. -/
def sectorsInMemory : Nat := 2 ^ 23

/-- `readseg(va, filesz, memsz, sect)`. -/
def readseg (disk : Nat → UInt8) (va filesz memsz sect : UInt32) (m : Mem) : Option Mem := do
  let end_va := va + filesz
  let memsz := memsz + va
  let va := va &&& ~~~(sectorsize - 1) -- round down to sector boundary
  let m ← readSectors disk end_va (sectorsInMemory + 1) va sect m
  -- `while (end_va < memsz) *((uint8_t*) end_va++) = 0;`
  some (clearLoop (memsz.toNat - end_va.toNat) end_va m)

/-- `for (; ph < eph; ph++)`, for at most `n` headers. -/
def readSegments (disk : Nat → UInt8) (eph : UInt32) : Nat → UInt32 → Mem → Option Mem
  | 0, _, m => some m
  | n + 1, ph, m =>
    if ph < eph then do
      let h := readProghdr m ph
      let m ← readseg disk h.pVa h.pFilesz h.pMemsz (1 + h.pOffset / sectorsize) m
      readSegments disk eph n (ph + sizeofProghdr) m
    else some m

/-- How `bootmain` is left. -/
inductive BootResult where
  /-- By `return`: there is no ELF file. -/
  | returned (m : Mem)
  /-- By the `ret` that takes `e_entry` from the stack. -/
  | jumped (entry : UInt32) (m : Mem)

/-- `bootmain()`. -/
def bootmain (disk : Nat → UInt8) (m : Mem) : Option BootResult := do
  let m ← readseg disk elfhdr pagesize pagesize 1 m
  let elf := readElf m elfhdr
  if elf.eMagic ≠ elfMagic then some (.returned m)
  else
    let ph := elfhdr + elf.ePhoff
    let eph := ph + elf.ePhnum.toUInt32 * sizeofProghdr
    let m ← readSegments disk eph elf.ePhnum.toNat ph m
    some (.jumped (readU32 m (elfhdr + 24)) m)

end SchedOS
