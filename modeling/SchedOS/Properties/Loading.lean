import SchedOS.Kern.Loader
import SchedOS.Infra.Blocks

/-!
# What `program_loader` loads

`copyseg` rounds the destination down to a page boundary and lengthens the copy accordingly,
but takes the bytes from where they lie in the image (`copyseg_file`). So for a segment that is
not aligned, byte `k` of the segment comes from byte `k + p_va % PAGESIZE` of its contents, and
the rest of the page before it, which may belong to another segment, is written as well. The end
of a segment that reaches to the end of the address space wraps to 0, and `copyseg` then clears
nothing (`writtenSize`).

* `program_loader_iff` — the loader does its work exactly if neither makes a difference
* `program_loader_aligned` — in particular it does for segments that begin on a page boundary and
  end before the end of the address space
-/

namespace SchedOS

open Infra

/-! ## Rounding -/

/-- The offset of an address in its page. -/
def pageOffset (va : UInt32) : Nat := va.toNat % 4096

/-- The beginning of its page, as `copyseg` computes it. -/
def pageStart (va : UInt32) : UInt32 := va &&& ~~~(pagesize - 1)

theorem pageStart_toNat (va : UInt32) : (pageStart va).toNat + pageOffset va = va.toNat := by
  have hand : (pageStart va).toNat = alignDown 4096 va.toNat :=
    (UInt32.toNat_and ..).trans (and_mask (n := 12) (by decide) va.toNat_lt)
  rw [hand, pageOffset, alignDown_add_mod]

theorem pageStart_add (va : UInt32) : pageStart va + UInt32.ofNat (pageOffset va) = va := by
  have h := pageStart_toNat va
  have hva := va.toNat_lt
  refine UInt32.toNat_inj.mp ?_
  rw [UInt32.toNat_add, UInt32.toNat_ofNat']
  omega

/-! ## `copyseg` -/

/-- How many bytes of a segment `copyseg` writes. Where the segment reaches to the end of the
address space, the sum that it compares with is 0, and it clears nothing. -/
def writtenSize (dst filesz memsz : UInt32) : Nat :=
  if dst.toNat + memsz.toNat < 2 ^ 32 then memsz.toNat else filesz.toNat

section Copyseg

variable {dst src filesz memsz : UInt32} {m : Mem}

theorem toNat_add_filesz (hle : filesz.toNat ≤ memsz.toNat)
    (hwrap : dst.toNat + memsz.toNat < 2 ^ 32) :
    (dst + filesz).toNat = dst.toNat + filesz.toNat := by
  rw [UInt32.toNat_add]
  omega

theorem writtenSize_of_lt (h : dst.toNat + memsz.toNat < 2 ^ 32) :
    writtenSize dst filesz memsz = memsz.toNat := if_pos h

theorem writtenSize_of_not_lt (h : ¬ dst.toNat + memsz.toNat < 2 ^ 32) :
    writtenSize dst filesz memsz = filesz.toNat := if_neg h

theorem filesz_le_writtenSize (dst : UInt32) (hle : filesz.toNat ≤ memsz.toNat) :
    filesz.toNat ≤ writtenSize dst filesz memsz := by
  unfold writtenSize
  split
  · exact hle
  · exact Nat.le_refl _

theorem writtenSize_le (dst : UInt32) (hle : filesz.toNat ≤ memsz.toNat) :
    writtenSize dst filesz memsz ≤ memsz.toNat := by
  unfold writtenSize
  split
  · exact Nat.le_refl _
  · exact hle

variable (hle : filesz.toNat ≤ memsz.toNat) (hwrap : dst.toNat + memsz.toNat ≤ 2 ^ 32)
include hle hwrap

/-- The loop that clears the rest of the segment. -/
theorem clear_count : (memsz + dst).toNat - (dst + filesz).toNat
    = writtenSize dst filesz memsz - filesz.toNat := by
  rw [UInt32.toNat_add, UInt32.toNat_add]
  by_cases h : dst.toNat + memsz.toNat < 2 ^ 32
  · rw [writtenSize_of_lt h]
    omega
  · rw [writtenSize_of_not_lt h]
    omega

variable (hcopied : pageOffset dst + filesz.toNat < 2 ^ 32)
include hcopied

theorem copyseg_eq : copyseg dst src filesz memsz m
    = clearLoop (writtenSize dst filesz memsz - filesz.toNat) (dst + filesz)
        (memcpyLoop (pageOffset dst + filesz.toNat) (pageStart dst) src m) := by
  have hstart := pageStart_add dst
  have hpage : (UInt32.ofNat (pageOffset dst)).toNat = pageOffset dst := by
    rw [UInt32.toNat_ofNat']
    omega
  have hcopy : (dst + filesz - pageStart dst).toNat = pageOffset dst + filesz.toNat := by
    rw [show dst + filesz - pageStart dst = UInt32.ofNat (pageOffset dst) + filesz by grind,
      UInt32.toNat_add, hpage]
    omega
  unfold copyseg memcpy
  dsimp only
  rw [clear_count hle hwrap]
  show clearLoop _ _ (memcpyLoop (dst + filesz - pageStart dst).toNat (pageStart dst) src m) = _
  rw [hcopy]

/-- Nothing changes outside what is written of the segment and the part of its first page
before it. -/
theorem copyseg_frame {x : UInt32}
    (hx : ¬ InSpan (pageStart dst) (pageOffset dst + writtenSize dst filesz memsz) x) :
    copyseg dst src filesz memsz m x = m x := by
  have hpage := pageStart_toNat dst
  have hfile := filesz_le_writtenSize dst hle
  have hmem := writtenSize_le dst hle
  rw [inSpan_iff (by omega)] at hx
  rw [copyseg_eq hle hwrap hcopied, clearLoop_eq_writeBytes, writeBytes_of_not_inSpan]
  · refine memcpyLoop_of_not_inSpan _ _ _ _ (by omega) ?_
    rw [inSpan_iff (by omega)]
    omega
  · rw [List.length_replicate]
    omega
  · rw [List.length_replicate]
    by_cases h : dst.toNat + memsz.toNat < 2 ^ 32
    · have hend := toNat_add_filesz hle h
      rw [inSpan_iff (by omega)]
      omega
    · rw [writtenSize_of_not_lt h, Nat.sub_self]
      exact Nat.not_lt_zero _

/-- Nothing is cleared behind the contents of a segment that ends with the address space. -/
theorem copyseg_not_cleared (hend : dst.toNat + memsz.toNat = 2 ^ 32) {x : UInt32}
    (hx : ¬ InSpan (pageStart dst) (pageOffset dst + filesz.toNat) x) :
    copyseg dst src filesz memsz m x = m x := by
  refine copyseg_frame hle hwrap hcopied ?_
  rwa [writtenSize_of_not_lt (by omega)]

/-- The rest of the segment is cleared, as far as it is written. -/
theorem copyseg_zero {x : UInt32}
    (hx : InSpan (pageStart dst) (pageOffset dst + writtenSize dst filesz memsz) x)
    (hx' : ¬ InSpan (pageStart dst) (pageOffset dst + filesz.toNat) x) :
    copyseg dst src filesz memsz m x = 0 := by
  have hpage := pageStart_toNat dst
  by_cases h : dst.toNat + memsz.toNat < 2 ^ 32
  · rw [writtenSize_of_lt h, inSpan_iff (by omega)] at hx
    rw [inSpan_iff (by omega)] at hx'
    have hend := toNat_add_filesz hle h
    have hd : (x - (dst + filesz)).toNat = x.toNat - (dst.toNat + filesz.toNat) := by
      rw [toNat_sub_eq, hend, if_pos (by omega)]
    rw [copyseg_eq hle hwrap hcopied, writtenSize_of_lt h, clearLoop_eq_writeBytes,
      writeBytes_apply _ _ _ _ (by rw [List.length_replicate]; omega), hd,
      List.getElem?_replicate, if_pos (by omega)]
    rfl
  · rw [writtenSize_of_not_lt h] at hx
    exact absurd hx hx'

/-- **What `copyseg` copies.** The bytes from the page boundary to the end of the segment's
contents are taken from `src` on. -/
theorem copyseg_file (hap : Apart (pageStart dst) (pageOffset dst + filesz.toNat) src
    (pageOffset dst + filesz.toNat)) {x : UInt32}
    (hx : InSpan (pageStart dst) (pageOffset dst + filesz.toNat) x) :
    copyseg dst src filesz memsz m x = m (src + (x - pageStart dst)) := by
  have hpage := pageStart_toNat dst
  have hcopy := memcpyLoop_apply m (by omega) hap hx
  rw [UInt32.ofNat_toNat, show pageStart dst + (x - pageStart dst) = x by grind] at hcopy
  rw [copyseg_eq hle hwrap hcopied, clearLoop_eq_writeBytes, writeBytes_of_not_inSpan]
  · exact hcopy
  · have hmem := writtenSize_le dst hle
    rw [List.length_replicate]
    omega
  · rw [inSpan_iff (by omega)] at hx
    rw [List.length_replicate]
    by_cases h : dst.toNat + memsz.toNat < 2 ^ 32
    · have hend := toNat_add_filesz hle h
      rw [writtenSize_of_lt h, inSpan_iff (by omega)]
      omega
    · rw [writtenSize_of_not_lt h, Nat.sub_self]
      exact Nat.not_lt_zero _

end Copyseg

/-! ## Images -/

/-- The address of program header `i` of the image at `E`. -/
def headerAddr (m : Mem) (E : UInt32) (i : Nat) : UInt32 :=
  E + (readElf m E).ePhoff + UInt32.ofNat i * sizeofProghdr

/-- Program header `i` of the image at `E`. -/
def progHeader (m : Mem) (E : UInt32) (i : Nat) : Proghdr := readProghdr m (headerAddr m E i)

/-! ## The header table -/

section Table

theorem headerAddr_succ (m : Mem) (E : UInt32) (i : Nat) :
    headerAddr m E i + sizeofProghdr = headerAddr m E (i + 1) := by
  unfold headerAddr
  rw [UInt32.ofNat_add, show UInt32.ofNat 1 = 1 from rfl]
  grind

/-- `ph` before the loop over the headers … -/
theorem headerAddr_zero (m : Mem) (E : UInt32) : headerAddr m E 0 = E + (readElf m E).ePhoff := by
  show E + (readElf m E).ePhoff + 0 * sizeofProghdr = _
  grind

/-- … and `eph`. -/
theorem headerAddr_ePhnum (m : Mem) (E : UInt32) : headerAddr m E (readElf m E).ePhnum.toNat
    = E + (readElf m E).ePhoff + (readElf m E).ePhnum.toUInt32 * sizeofProghdr := by
  have hnum : UInt32.ofNat (readElf m E).ePhnum.toNat = (readElf m E).ePhnum.toUInt32 := by
    refine UInt32.toNat_inj.mp ?_
    have hlt := (readElf m E).ePhnum.toNat_lt
    rw [UInt32.toNat_ofNat', UInt16.toNat_toUInt32]
    omega
  rw [headerAddr, hnum]

variable {m : Mem} {E : UInt32} {L : Nat} (hfits : E.toNat + L < 2 ^ 32)
  (htable : (readElf m E).ePhoff.toNat + 32 * (readElf m E).ePhnum.toNat ≤ L)
include hfits htable

/-- The distance of header `i` from the beginning of the image. -/
theorem headerOffset_toNat {i : Nat} (hi : i ≤ (readElf m E).ePhnum.toNat) :
    ((readElf m E).ePhoff + UInt32.ofNat i * sizeofProghdr).toNat
      = (readElf m E).ePhoff.toNat + 32 * i := by
  rw [UInt32.toNat_add, UInt32.toNat_mul, UInt32.toNat_ofNat',
    show sizeofProghdr.toNat = 32 from rfl]
  omega

theorem headerAddr_lt {i : Nat} (hi : i < (readElf m E).ePhnum.toNat) :
    headerAddr m E i < headerAddr m E (readElf m E).ePhnum.toNat := by
  have h₁ := headerOffset_toNat hfits htable (Nat.le_of_lt hi)
  have h₂ := headerOffset_toNat hfits htable (Nat.le_refl _)
  rw [UInt32.lt_iff_toNat_lt, headerAddr, headerAddr, UInt32.add_assoc, UInt32.add_assoc,
    UInt32.toNat_add E, h₁, UInt32.toNat_add E, h₂]
  omega

/-- The headers lie in the image. -/
theorem headerAddr_inSpan {i : Nat} (hi : i < (readElf m E).ePhnum.toNat) {x : UInt32}
    (hx : InSpan (headerAddr m E i) 32 x) : InSpan E L x := by
  have hd := headerOffset_toNat hfits htable (Nat.le_of_lt hi)
  unfold headerAddr at hx
  rw [UInt32.add_assoc] at hx
  exact inSpan_of_add (by omega) hx

end Table

/-- Header `i` describes a segment to be loaded. -/
def IsLoad (m : Mem) (E : UInt32) (i : Nat) : Prop :=
  i < (readElf m E).ePhnum.toNat ∧ (progHeader m E i).pType = elfProgLoad

/-- How many bytes of segment `i` are written. -/
def written (m : Mem) (E : UInt32) (i : Nat) : Nat :=
  writtenSize (progHeader m E i).pVa (progHeader m E i).pFilesz (progHeader m E i).pMemsz

/-- The memory holds an image of `L` bytes at `E` that can be loaded: its headers and the
contents of its segments lie in the image, and its segments overlap neither each other nor the
image. A segment may end with the address space. -/
structure ValidImage (m : Mem) (E : UInt32) (L : Nat) : Prop where
  fits : E.toNat + L < 2 ^ 32
  magic : (readElf m E).eMagic = elfMagic
  header : 52 ≤ L
  table : (readElf m E).ePhoff.toNat + 32 * (readElf m E).ePhnum.toNat ≤ L
  filesz_le : ∀ i, IsLoad m E i →
    (progHeader m E i).pFilesz.toNat ≤ (progHeader m E i).pMemsz.toNat
  no_wrap : ∀ i, IsLoad m E i →
    (progHeader m E i).pVa.toNat + (progHeader m E i).pMemsz.toNat ≤ 2 ^ 32
  inside : ∀ i, IsLoad m E i →
    (progHeader m E i).pOffset.toNat + (progHeader m E i).pFilesz.toNat ≤ L
  apart : ∀ i j, IsLoad m E i → IsLoad m E j → i ≠ j →
    Apart (progHeader m E i).pVa (progHeader m E i).pMemsz.toNat (progHeader m E j).pVa
      (progHeader m E j).pMemsz.toNat
  apart_image : ∀ i, IsLoad m E i →
    Apart (progHeader m E i).pVa (progHeader m E i).pMemsz.toNat E L

/-- The part of it that the loader needs to find its way: the headers lie in the image, and
neither the segments nor the lengths of the copies wrap. -/
structure Loadable (m : Mem) (E : UInt32) (L : Nat) : Prop where
  fits : E.toNat + L < 2 ^ 32
  magic : (readElf m E).eMagic = elfMagic
  header : 52 ≤ L
  table : (readElf m E).ePhoff.toNat + 32 * (readElf m E).ePhnum.toNat ≤ L
  filesz_le : ∀ i, IsLoad m E i →
    (progHeader m E i).pFilesz.toNat ≤ (progHeader m E i).pMemsz.toNat
  no_wrap : ∀ i, IsLoad m E i →
    (progHeader m E i).pVa.toNat + (progHeader m E i).pMemsz.toNat ≤ 2 ^ 32
  copied : ∀ i, IsLoad m E i →
    pageOffset (progHeader m E i).pVa + (progHeader m E i).pFilesz.toNat < 2 ^ 32

/-- A copy as long as the address space would leave no room for the image. -/
theorem ValidImage.copied {m : Mem} {E : UInt32} {L : Nat} (hv : ValidImage m E L) {i : Nat}
    (hi : IsLoad m E i) :
    pageOffset (progHeader m E i).pVa + (progHeader m E i).pFilesz.toNat < 2 ^ 32 := by
  have hfits := hv.fits
  have hheader := hv.header
  have hle := hv.filesz_le i hi
  have hwrap := hv.no_wrap i hi
  have hinside := hv.inside i hi
  have hpage := pageStart_toNat (progHeader m E i).pVa
  have hoffset : pageOffset (progHeader m E i).pVa < 4096 := Nat.mod_lt _ (by decide)
  by_contra hlong
  -- the last byte of the image would lie in the segment
  have hlast : (E + UInt32.ofNat (L - 1)).toNat = E.toNat + (L - 1) := by
    rw [UInt32.toNat_add, UInt32.toNat_ofNat']
    omega
  refine hv.apart_image i hi (E + UInt32.ofNat (L - 1)) ?_ (inSpan_add (by omega) (by omega))
  rw [inSpan_iff hwrap]
  omega

theorem ValidImage.loadable {m : Mem} {E : UInt32} {L : Nat} (hv : ValidImage m E L) :
    Loadable m E L :=
  ⟨hv.fits, hv.magic, hv.header, hv.table, hv.filesz_le, hv.no_wrap, fun _ => hv.copied⟩

/-- The byte that belongs at byte `k` of segment `i`. -/
def segmentByte (m : Mem) (E : UInt32) (i k : Nat) : UInt8 :=
  if k < (progHeader m E i).pFilesz.toNat then
    m (E + (progHeader m E i).pOffset + UInt32.ofNat k)
  else 0

/-- What loading the image found in `m` is to achieve: the segments are in place in `m'`, and
`entry` is the entry point. -/
structure Loaded (m : Mem) (E : UInt32) (m' : Mem) (entry : UInt32) : Prop where
  file : ∀ i, IsLoad m E i → ∀ k, k < (progHeader m E i).pFilesz.toNat →
    m' ((progHeader m E i).pVa + UInt32.ofNat k)
      = m (E + (progHeader m E i).pOffset + UInt32.ofNat k)
  zero : ∀ i, IsLoad m E i → ∀ k, (progHeader m E i).pFilesz.toNat ≤ k →
    k < (progHeader m E i).pMemsz.toNat → m' ((progHeader m E i).pVa + UInt32.ofNat k) = 0
  entry : entry = (readElf m E).eEntry

/-! ## What is read and written for a segment -/

/-- What is written of segment `i`, extended down to the page boundary. -/
def Writes (m : Mem) (E : UInt32) (i : Nat) (x : UInt32) : Prop :=
  IsLoad m E i ∧ InSpan (pageStart (progHeader m E i).pVa)
    (pageOffset (progHeader m E i).pVa + written m E i) x

/-- The contents of segment `i` in the image, and as many bytes behind them as there are from the
page boundary to the segment. -/
def Reads (m : Mem) (E : UInt32) (i : Nat) (x : UInt32) : Prop :=
  IsLoad m E i ∧ InSpan (E + (progHeader m E i).pOffset)
    (pageOffset (progHeader m E i).pVa + (progHeader m E i).pFilesz.toNat) x

/-- Segment `j` is the last one, in the order of the headers, that is written over `x`. -/
structure LastWriter (m : Mem) (E : UInt32) (j : Nat) (x : UInt32) : Prop where
  writes : Writes m E j x
  last : ∀ i, j < i → ¬ Writes m E i x

/-- The byte that segment `j` puts at `x`: the contents are laid down from the page boundary on,
not from `p_va` on. -/
def shiftedByte (m : Mem) (E : UInt32) (j : Nat) (x : UInt32) : UInt8 :=
  if InSpan (pageStart (progHeader m E j).pVa)
      (pageOffset (progHeader m E j).pVa + (progHeader m E j).pFilesz.toNat) x then
    m (E + (progHeader m E j).pOffset + (x - pageStart (progHeader m E j).pVa))
  else 0

/-- The loader reads nothing that it has written before. -/
structure ReadsFresh (m : Mem) (E : UInt32) : Prop where
  headers : ∀ i j x, j < i → i < (readElf m E).ePhnum.toNat → InSpan (headerAddr m E i) 32 x →
    ¬ Writes m E j x
  contents : ∀ i j x, j ≤ i → Reads m E i x → ¬ Writes m E j x
  entry : ∀ j x, InSpan (E + 24) 4 x → ¬ Writes m E j x

section Loader

variable {m : Mem} {E : UInt32} {L : Nat}

/-- `e_entry` lies in the image. -/
theorem Loadable.entry_inSpan (hv : Loadable m E L) {x : UInt32} (hx : InSpan (E + 24) 4 x) :
    InSpan E L x := by
  have hheader := hv.header
  refine inSpan_of_add ?_ hx
  rw [show (24 : UInt32).toNat = 24 from rfl]
  omega

theorem Loadable.filesz_le_written (hv : Loadable m E L) {i : Nat} (hi : IsLoad m E i) :
    (progHeader m E i).pFilesz.toNat ≤ written m E i :=
  filesz_le_writtenSize _ (hv.filesz_le i hi)

theorem Loadable.written_le (hv : Loadable m E L) {i : Nat} (hi : IsLoad m E i) :
    written m E i ≤ (progHeader m E i).pMemsz.toNat :=
  writtenSize_le _ (hv.filesz_le i hi)

theorem Loadable.writes_of_segment (hv : Loadable m E L) {i k : Nat} (hi : IsLoad m E i)
    (hk : k < written m E i) : Writes m E i ((progHeader m E i).pVa + UInt32.ofNat k) := by
  have hwrap := hv.no_wrap i hi
  have hwritten := hv.written_le hi
  have hstart := pageStart_add (progHeader m E i).pVa
  have hpage := pageStart_toNat (progHeader m E i).pVa
  have haddr : (progHeader m E i).pVa + UInt32.ofNat k
      = pageStart (progHeader m E i).pVa
        + UInt32.ofNat (pageOffset (progHeader m E i).pVa + k) := by
    rw [UInt32.ofNat_add]
    grind
  rw [haddr]
  exact ⟨hi, inSpan_add (Nat.add_lt_add_left hk _) (by omega)⟩

/-- There are finitely many headers, so one of those that write an address is the last. -/
theorem exists_lastWriter {i : Nat} {x : UInt32} (h : Writes m E i x) :
    ∃ j, LastWriter m E j x := by
  classical
  have hbound : ∀ j, Writes m E j x → j ≤ (readElf m E).ePhnum.toNat :=
    fun j hj => Nat.le_of_lt hj.1.1
  refine ⟨Nat.findGreatest (fun j => Writes m E j x) (readElf m E).ePhnum.toNat, ?_,
    fun j hj hw => ?_⟩
  · exact Nat.findGreatest_spec (P := fun j => Writes m E j x) (hbound i h) h
  · exact Nat.findGreatest_is_greatest hj (hbound j hw) hw

/-! ## The loop over the program headers -/

/-- What the loader has done after the headers before `n`. -/
structure LoadedUpTo (m : Mem) (E : UInt32) (n : Nat) (m' : Mem) : Prop where
  fresh : ∀ x, (∀ i, i < n → ¬ Writes m E i x) → m' x = m x
  last : ∀ i x, i < n → Writes m E i x → (∀ j, i < j → j < n → ¬ Writes m E j x) →
    m' x = shiftedByte m E i x

/-- A word at the distance `d` from the beginning of a span that is the same. -/
theorem readU32_add_congr {m m' : Mem} {a d : UInt32} {n : Nat} (hd : d.toNat + 4 ≤ n)
    (h : ∀ x, InSpan a n x → m' x = m x) : readU32 m' (a + d) = readU32 m (a + d) :=
  readU32_congr fun x hx => h x (inSpan_of_add hd hx)

theorem readProghdr_congr {m' : Mem} {a : UInt32} (h : ∀ x, InSpan a 32 x → m' x = m x) :
    readProghdr m' a = readProghdr m a := by
  have h0 : readU32 m' a = readU32 m a :=
    readU32_congr fun x hx => h x (Nat.lt_of_lt_of_le hx (by decide))
  unfold readProghdr
  rw [h0, readU32_add_congr (d := 4) (by decide) h, readU32_add_congr (d := 8) (by decide) h,
    readU32_add_congr (d := 16) (by decide) h, readU32_add_congr (d := 20) (by decide) h]

/-- The segment that header `n` describes, once it has been copied. -/
theorem LoadedUpTo.segment (hv : Loadable m E L) (hf : ReadsFresh m E) {n : Nat} {m' : Mem}
    (hload : IsLoad m E n) (h : LoadedUpTo m E n m') {g : Proghdr} (hg : progHeader m E n = g) :
    LoadedUpTo m E (n + 1) (copyseg g.pVa (E + g.pOffset) g.pFilesz g.pMemsz m') := by
  have hle := hv.filesz_le n hload
  have hwrap := hv.no_wrap n hload
  have hcopied := hv.copied n hload
  have hwrites : ∀ x, Writes m E n x ↔ InSpan (pageStart g.pVa)
      (pageOffset g.pVa + writtenSize g.pVa g.pFilesz g.pMemsz) x := by
    intro x
    rw [Writes, written, hg, and_iff_right hload]
  have hreads : ∀ x, InSpan (E + g.pOffset) (pageOffset g.pVa + g.pFilesz.toNat) x →
      ∀ j, j ≤ n → ¬ Writes m E j x := by
    intro x hx j hj
    exact hf.contents n j x hj ⟨hload, by rw [hg]; exact hx⟩
  rw [hg] at hle hwrap hcopied
  have hframe : ∀ x, ¬ Writes m E n x →
      copyseg g.pVa (E + g.pOffset) g.pFilesz g.pMemsz m' x = m' x := fun x hx =>
    copyseg_frame hle hwrap hcopied fun hs => hx ((hwrites x).mpr hs)
  constructor
  · intro x hx
    rw [hframe x (hx n (Nat.lt_succ_self n))]
    exact h.fresh x fun i hi => hx i (Nat.lt_succ_of_lt hi)
  · intro i x hi hw hlater
    rcases Nat.eq_or_lt_of_le (Nat.le_of_lt_succ hi) with rfl | hlt
    · rw [hwrites] at hw
      unfold shiftedByte
      rw [hg]
      split
      · next hfile =>
        -- the copy does not run into its own source, and what it reads is still the original
        have hap : Apart (pageStart g.pVa) (pageOffset g.pVa + g.pFilesz.toNat) (E + g.pOffset)
            (pageOffset g.pVa + g.pFilesz.toNat) := by
          intro y hy hy'
          refine hreads y hy' i (Nat.le_refl i) ((hwrites y).mpr ?_)
          exact Nat.lt_of_lt_of_le hy (Nat.add_le_add_left (filesz_le_writtenSize _ hle) _)
        rw [copyseg_file hle hwrap hcopied hap hfile]
        refine h.fresh _ fun j hj => hreads _ ?_ j (Nat.le_of_lt hj)
        unfold InSpan at hfile ⊢
        rwa [show E + g.pOffset + (x - pageStart g.pVa) - (E + g.pOffset) = x - pageStart g.pVa by
          grind]
      · next hfile => exact copyseg_zero hle hwrap hcopied hw hfile
    · -- an earlier segment had the last word on `x`, and still has
      rw [hframe x (hlater n hlt (Nat.lt_succ_self n))]
      exact h.last i x hlt hw fun j hij hj => hlater j hij (Nat.lt_succ_of_lt hj)

/-- A segment changes nothing outside its own bytes and the part of its first page before them. -/
theorem Loadable.loadSegment_frame (hv : Loadable m E L) {n : Nat} {m' : Mem}
    (hn : n < (readElf m E).ePhnum.toNat)
    (hhdr : readProghdr m' (headerAddr m E n) = progHeader m E n) {x : UInt32}
    (hx : ¬ Writes m E n x) : loadSegment E (headerAddr m E n) m' x = m' x := by
  unfold loadSegment
  rw [hhdr]
  split
  · next htype =>
    have hload : IsLoad m E n := ⟨hn, htype⟩
    exact copyseg_frame (hv.filesz_le n hload) (hv.no_wrap n hload) (hv.copied n hload)
      fun hs => hx ⟨hload, hs⟩
  · rfl

/-- One round of the loop. -/
theorem loadSegment_step (hv : Loadable m E L) (hf : ReadsFresh m E) {n : Nat} {m' : Mem}
    (hn : n < (readElf m E).ePhnum.toNat) (h : LoadedUpTo m E n m') :
    LoadedUpTo m E (n + 1) (loadSegment E (headerAddr m E n) m') := by
  have hhdr : readProghdr m' (headerAddr m E n) = progHeader m E n :=
    readProghdr_congr fun x hx => h.fresh x fun j hj => hf.headers n j x hj hn hx
  unfold loadSegment
  dsimp only
  rw [hhdr]
  by_cases htype : (progHeader m E n).pType = elfProgLoad
  · rw [if_pos htype]
    exact h.segment hv hf ⟨hn, htype⟩ rfl
  · rw [if_neg htype]
    constructor
    · exact fun x hx => h.fresh x fun i hi => hx i (Nat.lt_succ_of_lt hi)
    · intro i x hi hw hlater
      have hne : i ≠ n := fun he => htype (he ▸ hw.1.2)
      exact h.last i x (Nat.lt_of_le_of_ne (Nat.le_of_lt_succ hi) hne) hw
        fun j hij hj => hlater j hij (Nat.lt_succ_of_lt hj)

/-- **The rule for the loop over the headers.** -/
theorem loadSegments_rule (hv : Loadable m E L) {P : Nat → Mem → Prop}
    (hstep : ∀ n m', n < (readElf m E).ePhnum.toNat → P n m' →
      P (n + 1) (loadSegment E (headerAddr m E n) m')) :
    ∀ (r i : Nat) {m' : Mem}, i + r = (readElf m E).ePhnum.toNat → P i m' →
      P (readElf m E).ePhnum.toNat
        (loadSegments E (headerAddr m E (readElf m E).ePhnum.toNat) r (headerAddr m E i) m')
  | 0, i, m', hi, h => by
    rw [← hi]
    exact h
  | r + 1, i, m', hi, h => by
    rw [loadSegments, if_pos (headerAddr_lt hv.fits hv.table (by omega)), headerAddr_succ]
    exact loadSegments_rule hv hstep r (i + 1) (by omega) (hstep i m' (by omega) h)

/-- **The rule for `program_loader`**: what each segment keeps holds in the end, if it also keeps
`e_entry`, which is read from the image after everything has been loaded. -/
theorem programLoader_rule {ramimages : Fin 4 → Ramimage} {program_id : Int32}
    (hid : 0 ≤ program_id.toInt ∧ program_id.toInt < 4)
    (hE : (ramimages (imageIndex hid)).begin = E) (hv : Loadable m E L) {P : Nat → Mem → Prop}
    (hzero : P 0 m) (hstep : ∀ n m', n < (readElf m E).ePhnum.toNat → P n m' →
      P (n + 1) (loadSegment E (headerAddr m E n) m'))
    (hentry : ∀ m', P (readElf m E).ePhnum.toNat m' → ∀ x, InSpan (E + 24) 4 x → m' x = m x) :
    ∃ m', programLoader ramimages program_id m = .ok (m', (readElf m E).eEntry) ∧
      P (readElf m E).ePhnum.toNat m' := by
  have hloop := loadSegments_rule hv hstep (readElf m E).ePhnum.toNat 0 (Nat.zero_add _) hzero
  rw [headerAddr_zero, headerAddr_ePhnum] at hloop
  refine ⟨_, ?_, hloop⟩
  have hread := readU32_congr (hentry _ hloop)
  unfold programLoader
  rw [dif_pos hid, hE]
  dsimp only
  rw [if_neg (not_not_intro hv.magic), hread]
  rfl

/-- What the loader makes of an image. -/
theorem programLoader_spec {ramimages : Fin 4 → Ramimage} {program_id : Int32}
    (hid : 0 ≤ program_id.toInt ∧ program_id.toInt < 4)
    (hE : (ramimages (imageIndex hid)).begin = E) (hv : Loadable m E L)
    (hf : ReadsFresh m E) :
    ∃ m', programLoader ramimages program_id m = .ok (m', (readElf m E).eEntry) ∧
      LoadedUpTo m E (readElf m E).ePhnum.toNat m' :=
  programLoader_rule hid hE hv ⟨fun _ _ => rfl, fun _ _ h => absurd h (Nat.not_lt_zero _)⟩
    (fun _ _ hn h => loadSegment_step hv hf hn h)
    fun _ h x hx => h.fresh x fun j _ => hf.entry j x hx

/-- A byte of a segment, once everything has been loaded. -/
theorem LoadedUpTo.byte {m' : Mem} (h : LoadedUpTo m E (readElf m E).ePhnum.toNat m') {j : Nat}
    {x : UInt32} (hj : LastWriter m E j x) : m' x = shiftedByte m E j x :=
  h.last j x hj.writes.1.1 hj.writes fun i hi _ => hj.last i hi

theorem Loaded.byte {m' : Mem} {entry : UInt32} (h : Loaded m E m' entry) {i k : Nat}
    (hi : IsLoad m E i) (hk : k < (progHeader m E i).pMemsz.toNat) :
    m' ((progHeader m E i).pVa + UInt32.ofNat k) = segmentByte m E i k := by
  unfold segmentByte
  split
  · next hfile => exact h.file i hi k hfile
  · next hfile => exact h.zero i hi k (Nat.le_of_not_lt hfile) hk

theorem loaded_of_byte (hv : ValidImage m E L) {m' : Mem}
    (h : ∀ i k, IsLoad m E i → k < (progHeader m E i).pMemsz.toNat →
      m' ((progHeader m E i).pVa + UInt32.ofNat k) = segmentByte m E i k) :
    Loaded m E m' (readElf m E).eEntry where
  file i hi k hk := by
    rw [h i k hi (Nat.lt_of_lt_of_le hk (hv.filesz_le i hi)), segmentByte, if_pos hk]
  zero i hi k hk hk' := by
    rw [h i k hi hk', segmentByte, if_neg (Nat.not_lt_of_le hk)]
  entry := rfl

/-! ## Images in memory that agrees on them -/

section Congr

variable {m' : Mem}

/-- The two memories hold the same image. -/
def SameImage (E : UInt32) (L : Nat) (m m' : Mem) : Prop := ∀ x, InSpan E L x → m' x = m x

variable (hv : Loadable m E L) (h : SameImage E L m m')
include hv h

theorem SameImage.readElf_eq : readElf m' E = readElf m E := by
  have hheader := hv.header
  have hword : ∀ d : UInt32, d.toNat + 4 ≤ 52 → readU32 m' (E + d) = readU32 m (E + d) :=
    fun d hd => readU32_add_congr (n := L) (by omega) h
  have hmagic : readU32 m' E = readU32 m E :=
    readU32_congr fun x hx => h x (Nat.lt_of_lt_of_le hx (by omega))
  have hnum : readU16 m' (E + 44) = readU16 m (E + 44) :=
    readU16_congr fun x hx => h x (inSpan_of_add (m := 2)
      (by rw [show (44 : UInt32).toNat = 44 from rfl]; omega) hx)
  unfold readElf
  rw [hmagic, hword 24 (by decide), hword 28 (by decide), hnum]

theorem SameImage.headerAddr_eq (i : Nat) : headerAddr m' E i = headerAddr m E i := by
  rw [headerAddr, headerAddr, h.readElf_eq hv]

theorem SameImage.progHeader_eq {i : Nat} (hi : i < (readElf m E).ePhnum.toNat) :
    progHeader m' E i = progHeader m E i := by
  rw [progHeader, progHeader, h.headerAddr_eq hv]
  exact readProghdr_congr fun x hx => h x (headerAddr_inSpan hv.fits hv.table hi hx)

theorem SameImage.isLoad_iff (i : Nat) : IsLoad m' E i ↔ IsLoad m E i := by
  unfold IsLoad
  rw [h.readElf_eq hv]
  refine and_congr_right fun hi => ?_
  rw [h.progHeader_eq hv hi]

theorem SameImage.writes_iff (i : Nat) (x : UInt32) : Writes m' E i x ↔ Writes m E i x := by
  unfold Writes written
  rw [h.isLoad_iff hv]
  refine and_congr_right fun hi => ?_
  rw [h.progHeader_eq hv hi.1]

theorem SameImage.reads_iff (i : Nat) (x : UInt32) : Reads m' E i x ↔ Reads m E i x := by
  unfold Reads
  rw [h.isLoad_iff hv]
  refine and_congr_right fun hi => ?_
  rw [h.progHeader_eq hv hi.1]

/-- What holds of the headers of all segments. -/
theorem SameImage.forall_isLoad {P : Nat → Proghdr → Prop}
    (hP : ∀ i, IsLoad m E i → P i (progHeader m E i)) :
    ∀ i, IsLoad m' E i → P i (progHeader m' E i) := by
  intro i hi
  have hi' := (h.isLoad_iff hv i).mp hi
  rw [h.progHeader_eq hv hi'.1]
  exact hP i hi'

theorem SameImage.loadable : Loadable m' E L where
  fits := hv.fits
  magic := by
    rw [h.readElf_eq hv]
    exact hv.magic
  header := hv.header
  table := by
    rw [h.readElf_eq hv]
    exact hv.table
  filesz_le := h.forall_isLoad hv (P := fun _ g => g.pFilesz.toNat ≤ g.pMemsz.toNat) hv.filesz_le
  no_wrap := h.forall_isLoad hv (P := fun _ g => g.pVa.toNat + g.pMemsz.toNat ≤ 2 ^ 32) hv.no_wrap
  copied := h.forall_isLoad hv
    (P := fun _ g => pageOffset g.pVa + g.pFilesz.toNat < 2 ^ 32) hv.copied

end Congr

/-! ## Images that are not written over -/

/-- It is enough that nothing is read outside the image and nothing written inside. -/
theorem Loadable.readsFresh (hv : Loadable m E L)
    (hreads : ∀ i x, Reads m E i x → InSpan E L x)
    (hwrites : ∀ j x, Writes m E j x → ¬ InSpan E L x) : ReadsFresh m E where
  headers _ j x _ hi hx hw := hwrites j x hw (headerAddr_inSpan hv.fits hv.table hi hx)
  contents i j x _ hx hw := hwrites j x hw (hreads i x hx)
  entry j x hx hw := hwrites j x hw (hv.entry_inSpan hx)

/-- What a segment puts at its own addresses. -/
theorem ValidImage.shiftedByte_self (hv : ValidImage m E L) {i k : Nat} (hi : IsLoad m E i)
    (hk : k < (progHeader m E i).pMemsz.toNat) :
    shiftedByte m E i ((progHeader m E i).pVa + UInt32.ofNat k)
      = if k < (progHeader m E i).pFilesz.toNat then
          m (E + (progHeader m E i).pOffset
            + UInt32.ofNat (pageOffset (progHeader m E i).pVa + k))
        else 0 := by
  have hwrap := hv.no_wrap i hi
  have hpage := pageStart_toNat (progHeader m E i).pVa
  have hdist : (progHeader m E i).pVa + UInt32.ofNat k - pageStart (progHeader m E i).pVa
      = UInt32.ofNat (pageOffset (progHeader m E i).pVa + k) := by
    have hstart := pageStart_add (progHeader m E i).pVa
    rw [UInt32.ofNat_add]
    grind
  have hspan : InSpan (pageStart (progHeader m E i).pVa)
      (pageOffset (progHeader m E i).pVa + (progHeader m E i).pFilesz.toNat)
      ((progHeader m E i).pVa + UInt32.ofNat k) ↔ k < (progHeader m E i).pFilesz.toNat := by
    unfold InSpan
    rw [hdist, UInt32.toNat_ofNat']
    omega
  unfold shiftedByte
  rw [hdist]
  exact if_congr hspan rfl rfl

/-! ## Aligned segments -/

section Aligned

variable (h : ∀ i, IsLoad m E i → pageOffset (progHeader m E i).pVa = 0)
include h

/-- A segment that begins on a page boundary is not extended. -/
theorem Loadable.inSpan_of_writes (hv : Loadable m E L) {i : Nat} {x : UInt32}
    (hx : Writes m E i x) : InSpan (progHeader m E i).pVa (progHeader m E i).pMemsz.toNat x := by
  obtain ⟨hi, hx⟩ := hx
  have hstart := pageStart_add (progHeader m E i).pVa
  rw [h i hi, show UInt32.ofNat 0 = 0 from rfl, UInt32.add_zero] at hstart
  rw [h i hi, hstart, Nat.zero_add] at hx
  exact Nat.lt_of_lt_of_le hx (hv.written_le hi)

theorem ValidImage.readsFresh_of_aligned (hv : ValidImage m E L) : ReadsFresh m E := by
  refine hv.loadable.readsFresh (fun i x hx => ?_) fun j x hx => ?_
  · obtain ⟨hi, hx⟩ := hx
    have hinside := hv.inside i hi
    rw [h i hi, Nat.zero_add] at hx
    exact inSpan_of_add hinside hx
  · exact hv.apart_image j hx.1 x (hv.loadable.inSpan_of_writes h hx)

/-- Each byte is then written once at most, and by the right segment. -/
theorem ValidImage.shiftedByte_of_aligned (hv : ValidImage m E L) {i j k : Nat}
    (hi : IsLoad m E i) (hk : k < (progHeader m E i).pMemsz.toNat)
    (hj : LastWriter m E j ((progHeader m E i).pVa + UInt32.ofNat k)) :
    shiftedByte m E j ((progHeader m E i).pVa + UInt32.ofNat k) = segmentByte m E i k := by
  have hwrap := hv.no_wrap i hi
  have hw := hv.loadable.inSpan_of_writes h hj.writes
  have hspan : InSpan (progHeader m E i).pVa (progHeader m E i).pMemsz.toNat
      ((progHeader m E i).pVa + UInt32.ofNat k) := inSpan_add hk (by omega)
  obtain rfl : i = j := by
    by_contra hne
    exact hv.apart i j hi hj.writes.1 hne _ hspan hw
  rw [hv.shiftedByte_self hi hk, h i hi, Nat.zero_add]
  rfl

/-- **Aligned segments are loaded as they should be**, if they end before the address space
does. -/
theorem program_loader_aligned {ramimages : Fin 4 → Ramimage} {program_id : Int32}
    (hid : 0 ≤ program_id.toInt ∧ program_id.toInt < 4)
    (hE : (ramimages (imageIndex hid)).begin = E) (hv : ValidImage m E L)
    (hend : ∀ i, IsLoad m E i →
      (progHeader m E i).pVa.toNat + (progHeader m E i).pMemsz.toNat < 2 ^ 32) :
    ∃ m' entry, programLoader ramimages program_id m = .ok (m', entry) ∧
      Loaded m E m' entry := by
  obtain ⟨m', hok, hspec⟩ := programLoader_spec hid hE hv.loadable (hv.readsFresh_of_aligned h)
  refine ⟨m', _, hok, loaded_of_byte hv fun i k hi hk => ?_⟩
  obtain ⟨j, hj⟩ := exists_lastWriter
    (hv.loadable.writes_of_segment hi (hk.trans_eq (writtenSize_of_lt (hend i hi)).symm))
  rw [hspec.byte hj]
  exact hv.shiftedByte_of_aligned h hi hk hj

end Aligned

/-- Only bytes that are to be 0 are left out. -/
theorem Loadable.segmentByte_of_not_writes (hv : Loadable m E L) {i k : Nat} (hi : IsLoad m E i)
    (hnot : ¬ Writes m E i ((progHeader m E i).pVa + UInt32.ofNat k)) :
    segmentByte m E i k = 0 :=
  if_neg fun hk => hnot (hv.writes_of_segment hi (Nat.lt_of_lt_of_le hk (hv.filesz_le_written hi)))

end Loader

/-- **When the loader does its work.** For a valid image: exactly when every byte of a segment is
the one that the last segment written over it puts there, and the bytes that no segment is written
over, which there are behind the contents of one that ends with the address space, are 0 already. -/
theorem program_loader_iff {ramimages : Fin 4 → Ramimage} {program_id : Int32} {m : Mem}
    {L : Nat} (hid : 0 ≤ program_id.toInt ∧ program_id.toInt < 4) {E : UInt32}
    (hE : (ramimages (imageIndex hid)).begin = E) (hv : ValidImage m E L) (hf : ReadsFresh m E) :
    (∃ m' entry, programLoader ramimages program_id m = .ok (m', entry) ∧ Loaded m E m' entry) ↔
      ∀ i k, IsLoad m E i → k < (progHeader m E i).pMemsz.toNat →
        (∀ j, LastWriter m E j ((progHeader m E i).pVa + UInt32.ofNat k) →
          shiftedByte m E j ((progHeader m E i).pVa + UInt32.ofNat k) = segmentByte m E i k) ∧
        ((∀ j, ¬ Writes m E j ((progHeader m E i).pVa + UInt32.ofNat k)) →
          m ((progHeader m E i).pVa + UInt32.ofNat k) = 0) := by
  obtain ⟨m₁, hok, hspec⟩ := programLoader_spec hid hE hv.loadable hf
  constructor
  · rintro ⟨m', entry, hok', hloaded⟩ i k hi hk
    rw [hok] at hok'
    cases hok'
    have hbyte := hloaded.byte hi hk
    constructor
    · intro j hj
      rw [← hspec.byte hj]
      exact hbyte
    · intro hnot
      rw [← hspec.fresh _ fun j _ => hnot j, hbyte]
      exact hv.loadable.segmentByte_of_not_writes hi (hnot i)
  · intro h
    refine ⟨m₁, _, hok, loaded_of_byte hv fun i k hi hk => ?_⟩
    obtain ⟨hlast, hclear⟩ := h i k hi hk
    by_cases hwritten : ∃ j, Writes m E j ((progHeader m E i).pVa + UInt32.ofNat k)
    · obtain ⟨j, hw⟩ := hwritten
      obtain ⟨j, hj⟩ := exists_lastWriter hw
      rw [hspec.byte hj]
      exact hlast j hj
    · have hnot := not_exists.mp hwritten
      rw [hspec.fresh _ fun j _ => hnot j, hclear hnot]
      exact (hv.loadable.segmentByte_of_not_writes hi (hnot i)).symm

/-! ## An image with one segment -/

/-- An image at `0x110000` with one segment of one byte, which lies at offset 84 in the file and
belongs at `va`. -/
def oneSegment (va : UInt32) : Mem :=
  let m : Mem := fun _ => 0
  let m := writeU32 m 0x110000 elfMagic
  let m := writeU32 m 0x11001C 52
  let m := writeU16 m 0x11002C 1
  let m := writeU32 m 0x110034 elfProgLoad
  let m := writeU32 m 0x110038 84
  let m := writeU32 m 0x11003C va
  let m := writeU32 m 0x110044 1
  let m := writeU32 m 0x110048 1
  m.write 0x110054 0xAA

/-- The headers of that image. -/
structure OneSegment (va : UInt32) : Prop where
  elf : readElf (oneSegment va) 0x110000 = ⟨elfMagic, 0, 52, 1⟩
  segment : progHeader (oneSegment va) 0x110000 0 = ⟨elfProgLoad, 84, va, 1, 1⟩

section OneSegment

variable {va : UInt32}

theorem OneSegment.isLoad (h : OneSegment va) {i : Nat} (hi : IsLoad (oneSegment va) 0x110000 i) :
    i = 0 := by
  have hlt := hi.1
  rw [h.elf] at hlt
  exact Nat.lt_one_iff.mp hlt

theorem OneSegment.written_eq (h : OneSegment va) : written (oneSegment va) 0x110000 0 = 1 := by
  rw [written, h.segment]
  exact ite_self _

theorem OneSegment.valid (h : OneSegment va) (hlow : 0x111000 ≤ va.toNat)
    (hhigh : va.toNat < 0xF0000000) : ValidImage (oneSegment va) 0x110000 256 where
  fits := by decide
  magic := by rw [h.elf]
  header := by decide
  table := by
    rw [h.elf]
    decide
  filesz_le i hi := by rw [h.isLoad hi, h.segment]
  no_wrap i hi := by
    rw [h.isLoad hi, h.segment]
    show va.toNat + 1 ≤ 2 ^ 32
    omega
  inside i hi := by
    rw [h.isLoad hi, h.segment]
    show 84 + 1 ≤ 256
    omega
  apart i j hi hj hij := absurd ((h.isLoad hi).trans (h.isLoad hj).symm) hij
  apart_image i hi := by
    rw [h.isLoad hi, h.segment]
    refine (apart_of_le ?_ ?_).symm
    · show 0x110000 + 256 ≤ va.toNat
      omega
    · show va.toNat + 1 ≤ 2 ^ 32
      omega

end OneSegment

theorem oneSegment_aligned : OneSegment 0x200000 := ⟨by decide, by decide⟩

theorem oneSegment_unaligned : OneSegment 0x200054 := ⟨by decide, by decide⟩

theorem oneSegment_bytes : oneSegment 0x200054 (0x110000 + 84 + UInt32.ofNat (84 + 0))
    ≠ oneSegment 0x200054 (0x110000 + 84 + UInt32.ofNat 0) := by decide

/-- Where the image lies. -/
def oneSegmentImages : Fin 4 → Ramimage := fun _ => ⟨0x110000, 0x110100⟩

theorem oneSegmentImages_begin (i : Fin 4) : (oneSegmentImages i).begin = 0x110000 := rfl

attribute [irreducible] oneSegment oneSegmentImages

/-- On a page boundary the segment is loaded. -/
theorem program_loader_iff_aligned : ∃ m' entry,
    programLoader oneSegmentImages 0 (oneSegment 0x200000) = .ok (m', entry) ∧
      Loaded (oneSegment 0x200000) 0x110000 m' entry := by
  have hv := oneSegment_aligned.valid (by decide) (by decide)
  have haligned : ∀ i, IsLoad (oneSegment 0x200000) 0x110000 i →
      pageOffset (progHeader (oneSegment 0x200000) 0x110000 i).pVa = 0 := by
    intro i hi
    rw [oneSegment_aligned.isLoad hi, oneSegment_aligned.segment]
    rfl
  refine (program_loader_iff (by decide) (oneSegmentImages_begin _) hv
    (hv.readsFresh_of_aligned haligned)).mpr fun i k hi hk =>
      ⟨fun j hj => hv.shiftedByte_of_aligned haligned hi hk hj, fun hnot => ?_⟩
  obtain rfl := oneSegment_aligned.isLoad hi
  rw [oneSegment_aligned.segment] at hk
  exact absurd (hv.loadable.writes_of_segment hi (hk.trans_eq oneSegment_aligned.written_eq.symm))
    (hnot 0)

theorem oneSegment_readsFresh : ReadsFresh (oneSegment 0x200054) 0x110000 := by
  refine (oneSegment_unaligned.valid (by decide) (by decide)).loadable.readsFresh (fun i x hx => ?_)
    fun j x hx => ?_
  · obtain ⟨hi, hx⟩ := hx
    rw [oneSegment_unaligned.isLoad hi, oneSegment_unaligned.segment] at hx
    exact inSpan_of_add (by decide) hx
  · obtain ⟨hj, hx⟩ := hx
    rw [oneSegment_unaligned.isLoad hj, oneSegment_unaligned.written_eq,
      oneSegment_unaligned.segment] at hx
    exact (apart_of_le (by decide) (by decide)).symm x hx

/-- At `0x200054` it is not: the byte of the segment is 0xAA, but what is found there is the
byte 84 further on in the file, which is 0. -/
theorem program_loader_unaligned :
    (∀ i, (oneSegmentImages i).begin = 0x110000) ∧
      ValidImage (oneSegment 0x200054) 0x110000 256 ∧
      ¬ ∃ m' entry, programLoader oneSegmentImages 0 (oneSegment 0x200054) = .ok (m', entry) ∧
        Loaded (oneSegment 0x200054) 0x110000 m' entry := by
  have hv := oneSegment_unaligned.valid (by decide) (by decide)
  refine ⟨oneSegmentImages_begin, hv, ?_⟩
  rintro ⟨m', entry, hok, hloaded⟩
  obtain ⟨m₁, hok₁, hspec⟩ := @programLoader_spec _ _ _ oneSegmentImages 0 (by decide)
    (oneSegmentImages_begin _) hv.loadable oneSegment_readsFresh
  rw [hok₁] at hok
  cases hok
  have hi : IsLoad (oneSegment 0x200054) 0x110000 0 := by
    refine ⟨?_, ?_⟩
    · rw [oneSegment_unaligned.elf]
      decide
    · rw [oneSegment_unaligned.segment]
  have hk : 0 < (progHeader (oneSegment 0x200054) 0x110000 0).pMemsz.toNat := by
    rw [oneSegment_unaligned.segment]
    decide
  have hlast : LastWriter (oneSegment 0x200054) 0x110000 0
      ((progHeader (oneSegment 0x200054) 0x110000 0).pVa + UInt32.ofNat 0) :=
    ⟨hv.loadable.writes_of_segment hi (by rw [oneSegment_unaligned.written_eq]; decide),
      fun j hj hw => absurd (oneSegment_unaligned.isLoad hw.1) (Nat.ne_of_gt hj)⟩
  have hbyte := (hspec.byte hlast).symm.trans (hloaded.byte hi hk)
  rw [hv.shiftedByte_self hi hk, segmentByte, oneSegment_unaligned.segment, if_pos (by decide),
    if_pos (by decide)] at hbyte
  exact oneSegment_bytes hbyte

end SchedOS
