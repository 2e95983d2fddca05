import SchedOS.Lib.Memory

/-!
# `program_loader`

Loads an application from the ELF image that is linked into the kernel. The loader reads the
headers where they lie in memory, again for every segment, so that a segment copied over
them would be noticed.
-/

namespace SchedOS

open Infra

/-- `PAGESIZE`. -/
def pagesize : UInt32 := 4096

/-- `ELF_MAGIC`. -/
def elfMagic : UInt32 := 0x464C457F

/-- `ELF_PROG_LOAD`. -/
def elfProgLoad : UInt32 := 1

/-- The fields of `struct Elf` that the loader reads. -/
structure Elf where
  eMagic : UInt32
  eEntry : UInt32
  ePhoff : UInt32
  ePhnum : UInt16
  deriving DecidableEq

/-- The ELF header at `a`. -/
def readElf (m : Mem) (a : UInt32) : Elf where
  eMagic := readU32 m a
  eEntry := readU32 m (a + 24)
  ePhoff := readU32 m (a + 28)
  ePhnum := readU16 m (a + 44)

/-- The fields of `struct Proghdr` that the loader reads. -/
structure Proghdr where
  pType : UInt32
  pOffset : UInt32
  pVa : UInt32
  pFilesz : UInt32
  pMemsz : UInt32
  deriving DecidableEq

/-- `sizeof(struct Proghdr)`. -/
def sizeofProghdr : UInt32 := 32

/-- The program header at `a`. -/
def readProghdr (m : Mem) (a : UInt32) : Proghdr where
  pType := readU32 m a
  pOffset := readU32 m (a + 4)
  pVa := readU32 m (a + 8)
  pFilesz := readU32 m (a + 16)
  pMemsz := readU32 m (a + 20)

/-- An entry of `ramimages`: where the image lies in memory. -/
structure Ramimage where
  begin : UInt32
  «end» : UInt32

/-- `copyseg`. -/
def copyseg (dst src filesz memsz : UInt32) (m : Mem) : Mem :=
  let va := dst
  let end_va := va + filesz
  let memsz := memsz + va
  let va := va &&& ~~~(pagesize - 1) -- round to page boundary
  let m := memcpy va src (end_va - va) m
  -- `while (end_va < memsz) *end_va++ = 0;`
  clearLoop (memsz.toNat - end_va.toNat) end_va m

/-- The body of the loop over the program headers. -/
def loadSegment (elf_header ph : UInt32) (m : Mem) : Mem :=
  let h := readProghdr m ph
  if h.pType = elfProgLoad then copyseg h.pVa (elf_header + h.pOffset) h.pFilesz h.pMemsz m
  else m

/-- `for (; ph < eph; ph++)`, for at most `n` headers. -/
def loadSegments (elf_header eph : UInt32) : Nat → UInt32 → Mem → Mem
  | 0, _, m => m
  | n + 1, ph, m =>
    if ph < eph then
      loadSegments elf_header eph n (ph + sizeofProghdr) (loadSegment elf_header ph m)
    else m

/-- `loader_panic` before its endless loop. -/
def loaderPanic (m : Mem) : Mem := writeU16 m 0xB8000 (0x21 ||| 0x700)

/-- `program_id` as an index into `ramimages`. -/
def imageIndex {program_id : Int32} (h : 0 ≤ program_id.toInt ∧ program_id.toInt < 4) : Fin 4 :=
  ⟨program_id.toInt.toNat, by omega⟩

/-- `program_loader(program_id, entry_point)`: the memory afterwards and `*entry_point`, or the
memory with which the loader hangs. -/
def programLoader (ramimages : Fin 4 → Ramimage) (program_id : Int32) (m : Mem) :
    Except Mem (Mem × UInt32) :=
  if h : 0 ≤ program_id.toInt ∧ program_id.toInt < 4 then
    let elf_header := (ramimages (imageIndex h)).begin
    let elf := readElf m elf_header
    if elf.eMagic ≠ elfMagic then .error (loaderPanic m)
    else
      let ph := elf_header + elf.ePhoff
      let eph := ph + elf.ePhnum.toUInt32 * sizeofProghdr
      let m := loadSegments elf_header eph elf.ePhnum.toNat ph m
      .ok (m, readU32 m (elf_header + 24))
  else .error (loaderPanic m)

end SchedOS
