import SchedOS.Properties.Boot
import SchedOS.Properties.Bootmain
import SchedOS.Properties.Slots

/-!
# From the files to the processes

The applications are linked into the kernel, and `mkbootdisk` puts the kernel on the disk. There
`bootmain` finds it, and in it `start` finds the applications. Each of the programs moves them
somewhere else; what holds of the files is carried along by `Holds`.

* `boot_chain` — every process begins with the segments and at the entry point of its file, or the
  kernel says with a `!` that a file is not an ELF file
-/

namespace SchedOS

open Infra

/-! ## Files in memory -/

section Files

variable {m : Mem} {E : UInt32} {file : List UInt8}

theorem holds_fileAt (hlen : file.length ≤ 2 ^ 32) : Holds (fileAt file) elfhdr file := by
  intro k hk
  have hdist : (elfhdr + UInt32.ofNat k - elfhdr).toNat = k := by
    rw [show elfhdr + UInt32.ofNat k - elfhdr = UInt32.ofNat k by grind, UInt32.toNat_ofNat']
    omega
  rw [fileAt, hdist]
  simp [hk]

variable (h : Holds m E file) (hlen : file.length ≤ 2 ^ 32)
include h hlen

/-- A file has the same ELF header wherever it lies. -/
theorem readElf_of_holds (hheader : 52 ≤ file.length) : readElf m E = elfOf file := by
  have hfile := holds_fileAt hlen
  have hmagic := h.readU32_eq hfile (d := 0) (Nat.le_trans (by decide) hheader)
  rw [UInt32.add_zero, UInt32.add_zero] at hmagic
  unfold elfOf readElf
  rw [hmagic, h.readU32_eq hfile (d := 24) (Nat.le_trans (by decide) hheader),
    h.readU32_eq hfile (d := 28) (Nat.le_trans (by decide) hheader),
    h.readU16_eq hfile (d := 44) (Nat.le_trans (by decide) hheader)]

theorem readProghdr_of_holds {d : UInt32} (hd : d.toNat + 32 ≤ file.length) :
    readProghdr m (E + d) = readProghdr (fileAt file) (elfhdr + d) := by
  have hfile := holds_fileAt hlen
  have hfield : ∀ c : UInt32, c.toNat ≤ 28 →
      readU32 m (E + d + c) = readU32 (fileAt file) (elfhdr + d + c) := by
    intro c hc
    have hsum : (d + c).toNat ≤ d.toNat + c.toNat := by
      rw [UInt32.toNat_add]
      omega
    rw [UInt32.add_assoc, UInt32.add_assoc]
    exact h.readU32_eq hfile (by omega)
  have htype := hfield 0 (by decide)
  rw [UInt32.add_zero, UInt32.add_zero] at htype
  unfold readProghdr
  rw [htype, hfield 4 (by decide), hfield 8 (by decide), hfield 16 (by decide),
    hfield 20 (by decide)]

/-- And the same program headers. -/
theorem progHeader_of_holds (hheader : 52 ≤ file.length)
    (htable : (elfOf file).ePhoff.toNat + 32 * (elfOf file).ePhnum.toNat ≤ file.length)
    (hfits : E.toNat + file.length < 2 ^ 32) {n : Nat} (hn : n < (elfOf file).ePhnum.toNat) :
    progHeader m E n = proghdrOf file n := by
  have helf := readElf_of_holds h hlen hheader
  have hoffset := headerOffset_toNat (m := m) hfits (by rwa [helf]) (i := n)
    (by rw [helf]; exact Nat.le_of_lt hn)
  rw [helf] at hoffset
  have hread := readProghdr_of_holds h hlen
    (d := (elfOf file).ePhoff + UInt32.ofNat n * sizeofProghdr) (by omega)
  rw [← UInt32.add_assoc, ← UInt32.add_assoc] at hread
  unfold progHeader proghdrOf progHeader headerAddr
  rw [helf]
  exact hread

end Files

/-! ## Applications -/

/-- Program header `n` of the file describes a segment to be loaded. -/
def IsSegment (file : List UInt8) (n : Nat) : Prop := IsLoad (fileAt file) elfhdr n

/-- A file for program `i`, as the linker makes it: the segments lie in the slot of the program,
apart from each other, and begin on page boundaries. -/
structure ValidApp (file : List UInt8) (i : Fin 4) : Prop where
  header : 52 ≤ file.length
  table : (elfOf file).ePhoff.toNat + 32 * (elfOf file).ePhnum.toNat ≤ file.length
  aligned : ∀ n, IsSegment file n → pageOffset (proghdrOf file n).pVa = 0
  filesz_le : ∀ n, IsSegment file n →
    (proghdrOf file n).pFilesz.toNat ≤ (proghdrOf file n).pMemsz.toNat
  in_slot : ∀ n, IsSegment file n → (slotBase i).toNat ≤ (proghdrOf file n).pVa.toNat ∧
    (proghdrOf file n).pVa.toNat + (proghdrOf file n).pMemsz.toNat
      ≤ (slotBase i).toNat + procSize.toNat
  inside : ∀ n, IsSegment file n →
    (proghdrOf file n).pOffset.toNat + (proghdrOf file n).pFilesz.toNat ≤ file.length
  apart : ∀ n l, IsSegment file n → IsSegment file l → n ≠ l →
    Apart (proghdrOf file n).pVa (proghdrOf file n).pMemsz.toNat (proghdrOf file l).pVa
      (proghdrOf file l).pMemsz.toNat

/-- The segments of the file are in memory. -/
structure AppLoaded (file : List UInt8) (m : Mem) : Prop where
  contents : ∀ n, IsSegment file n → ∀ k, k < (proghdrOf file n).pFilesz.toNat →
    file[(proghdrOf file n).pOffset.toNat + k]? = some (m ((proghdrOf file n).pVa + UInt32.ofNat k))
  bss : ∀ n, IsSegment file n → ∀ k, (proghdrOf file n).pFilesz.toNat ≤ k →
    k < (proghdrOf file n).pMemsz.toNat → m ((proghdrOf file n).pVa + UInt32.ofNat k) = 0

section Apps

variable {m : Mem} {E : UInt32} {file : List UInt8} {i : Fin 4} (ha : ValidApp file i)
  (h : Holds m E file) (hbelow : E.toNat + file.length ≤ 0x198000)
include ha h hbelow

theorem ValidApp.readElf_eq : readElf m E = elfOf file :=
  readElf_of_holds h (by omega) ha.header

theorem ValidApp.progHeader_eq {n : Nat} (hn : n < (elfOf file).ePhnum.toNat) :
    progHeader m E n = proghdrOf file n :=
  progHeader_of_holds h (by omega) ha.header ha.table (by omega) hn

theorem ValidApp.isLoad_iff (n : Nat) : IsLoad m E n ↔ IsSegment file n := by
  unfold IsSegment IsLoad
  rw [ha.readElf_eq h hbelow]
  show _ ↔ n < (elfOf file).ePhnum.toNat ∧ (proghdrOf file n).pType = elfProgLoad
  exact and_congr_right fun hn => by rw [ha.progHeader_eq h hbelow hn]

/-- What holds of the segments of the file holds of those of the image. -/
theorem ValidApp.forall_isLoad {P : Nat → Proghdr → Prop}
    (hP : ∀ n, IsSegment file n → P n (proghdrOf file n)) (n : Nat) (hn : IsLoad m E n) :
    P n (progHeader m E n) := by
  have hsegment := (ha.isLoad_iff h hbelow n).mp hn
  rw [ha.progHeader_eq h hbelow hsegment.1]
  exact hP n hsegment

/-- **What the loader needs.** -/
theorem ValidApp.kernelImage (hmagic : (elfOf file).eMagic = elfMagic) :
    KernelImage m E file.length i where
  fits := by omega
  magic := by rw [ha.readElf_eq h hbelow, hmagic]
  header := ha.header
  table := by
    rw [ha.readElf_eq h hbelow]
    exact ha.table
  filesz_le := ha.forall_isLoad h hbelow
    (P := fun _ g => g.pFilesz.toNat ≤ g.pMemsz.toNat) ha.filesz_le
  in_slot := ha.forall_isLoad h hbelow
    (P := fun _ g => (slotBase i).toNat ≤ g.pVa.toNat ∧
      g.pVa.toNat + g.pMemsz.toNat ≤ (slotBase i).toNat + procSize.toNat) ha.in_slot
  below := hbelow
  inside := ha.forall_isLoad h hbelow
    (P := fun _ g => g.pOffset.toNat + g.pFilesz.toNat ≤ file.length) ha.inside

theorem ValidApp.validImage (hmagic : (elfOf file).eMagic = elfMagic) :
    ValidImage m E file.length := by
  have himage := ha.kernelImage h hbelow hmagic
  exact {
    fits := himage.fits
    magic := himage.magic
    header := himage.header
    table := himage.table
    filesz_le := himage.filesz_le
    no_wrap := himage.loadable.no_wrap
    inside := himage.inside
    apart := by
      intro n l hn hl hne
      have hn' := (ha.isLoad_iff h hbelow n).mp hn
      have hl' := (ha.isLoad_iff h hbelow l).mp hl
      rw [ha.progHeader_eq h hbelow hn'.1, ha.progHeader_eq h hbelow hl'.1]
      exact ha.apart n l hn' hl' hne
    apart_image := by
      intro n hn x hx himg
      -- the slots are above the kernel
      have hwrites : Writes m E n x := by
        have hoffset := ha.forall_isLoad h hbelow
          (P := fun _ g => pageOffset g.pVa = 0) ha.aligned n hn
        have hstart := pageStart_add (progHeader m E n).pVa
        rw [hoffset, show UInt32.ofNat 0 = 0 from rfl, UInt32.add_zero] at hstart
        refine ⟨hn, ?_⟩
        rwa [hstart, hoffset, Nat.zero_add, written, writtenSize_of_lt (himage.end_lt hn)]
      exact himage.not_inSlot himg i (himage.writes_inSlot hwrites) }

/-- **What it makes of the file.** -/
theorem ValidApp.appLoaded (hmagic : (elfOf file).eMagic = elfMagic)
    {ramimages : Fin 4 → Ramimage} (hE : (ramimages i).begin = E) :
    AppLoaded file (loaded ramimages i m) := by
  subst hE
  have himage := ha.kernelImage h hbelow hmagic
  have haligned := ha.forall_isLoad h hbelow
    (P := fun _ g => pageOffset g.pVa = 0) ha.aligned
  obtain ⟨m', entry, hok, hloaded⟩ := program_loader_aligned haligned (programId_valid i)
    (by rw [imageIndex_programId]) (ha.validImage h hbelow hmagic) fun _ => himage.end_lt
  rw [himage.loads.1] at hok
  cases hok
  constructor
  · intro n hn k hk
    have hload := (ha.isLoad_iff h hbelow n).mpr hn
    have hheader := ha.progHeader_eq h hbelow hn.1
    have hin := ha.inside n hn
    have hbyte := hloaded.file n hload k (by rwa [hheader])
    have haddr : (ramimages i).begin + (proghdrOf file n).pOffset + UInt32.ofNat k
        = (ramimages i).begin + UInt32.ofNat ((proghdrOf file n).pOffset.toNat + k) := by
      rw [UInt32.ofNat_add, UInt32.ofNat_toNat, UInt32.add_assoc]
    rw [hheader, haddr, h _ (by omega)] at hbyte
    rw [hbyte]
    exact List.getElem?_eq_getElem (by omega)
  · intro n hn k hk hk'
    have hload := (ha.isLoad_iff h hbelow n).mpr hn
    have hheader := ha.progHeader_eq h hbelow hn.1
    have hzero := hloaded.zero n hload k (by rwa [hheader]) (by rwa [hheader])
    rwa [hheader] at hzero

end Apps

theorem AppLoaded.congr {file : List UInt8} {i : Fin 4} {m m' : Mem} (ha : ValidApp file i)
    (h : AppLoaded file m) (hsame : ∀ x, InSlot i x → m' x = m x) : AppLoaded file m' := by
  have hbase := slotBase_toNat i
  have hbyte : ∀ n, IsSegment file n → ∀ k, k < (proghdrOf file n).pMemsz.toNat →
      m' ((proghdrOf file n).pVa + UInt32.ofNat k)
        = m ((proghdrOf file n).pVa + UInt32.ofNat k) := by
    intro n hn k hk
    have hslot := ha.in_slot n hn
    have hsize : procSize.toNat = 0x100000 := rfl
    refine hsame _ (inSlot_iff.mpr ?_)
    rw [UInt32.toNat_add, UInt32.toNat_ofNat']
    omega
  constructor
  · intro n hn k hk
    rw [hbyte n hn k (Nat.lt_of_lt_of_le hk (ha.filesz_le n hn))]
    exact h.contents n hn k hk
  · intro n hn k hk hk'
    rw [hbyte n hn k hk']
    exact h.bss n hn k hk hk'

/-! ## The loop over the applications -/

/-- The four files lie in the kernel, below the shared variables. -/
structure AppImages (apps : Fin 4 → List UInt8) (ramimages : Fin 4 → Ramimage) (m : Mem) :
    Prop where
  holds : ∀ i, Holds m (ramimages i).begin (apps i)
  low : ∀ i, 0x100000 ≤ (ramimages i).begin.toNat
  high : ∀ i, (ramimages i).begin.toNat + (apps i).length ≤ 0x198000

section Loop

variable {apps : Fin 4 → List UInt8} {ramimages : Fin 4 → Ramimage} {m m' : Mem} {k : Machine}
  (happs : ∀ i, ValidApp (apps i) i)

/-- Only the memory that the images lie in matters. -/
theorem AppImages.congr (h : AppImages apps ramimages m)
    (hsame : ∀ x : UInt32, 0x100000 ≤ x.toNat → x.toNat < 0x198000 → m' x = m x) :
    AppImages apps ramimages m' where
  holds i := by
    have hlow := h.low i
    have hhigh := h.high i
    refine (h.holds i).congr (by omega) fun x hx => ?_
    rw [inSpan_iff (by omega)] at hx
    exact hsame x (by omega) (by omega)
  low := h.low
  high := h.high

/-- `console_clear` does not reach them. -/
theorem AppImages.consoleClear (h : AppImages apps ramimages m) :
    AppImages apps ramimages (consoleClear m) := by
  refine h.congr fun x hlow hhigh => consoleClear_frame m ?_ ?_
  · rw [inSpan_iff (by decide)]
    show ¬ (0xB8000 ≤ x.toNat ∧ x.toNat < 0xB8000 + 4000)
    omega
  · rw [inSpan_iff (by decide)]
    show ¬ (0x198000 ≤ x.toNat ∧ x.toNat < 0x198000 + 4)
    omega

include happs

theorem AppImages.kernelImages (h : AppImages apps ramimages m)
    (hmagic : ∀ i, (elfOf (apps i)).eMagic = elfMagic) :
    KernelImages ramimages (fun i => (apps i).length) m :=
  fun i => (happs i).kernelImage (h.holds i) (h.high i) (hmagic i)

theorem programLoader_of_magic (h : AppImages apps ramimages m) {i : Fin 4}
    (hmagic : (elfOf (apps i)).eMagic = elfMagic) : ∃ m' entry,
      programLoader ramimages (programId i) m = .ok (m', entry) ∧
      ∀ x, ¬ InSlot i x → m' x = m x := by
  have himage := (happs i).kernelImage (h.holds i) (h.high i) hmagic
  exact ⟨_, _, himage.loads.1, fun x hx => himage.loaded_frame hx⟩

theorem programLoader_of_not_magic (h : AppImages apps ramimages m) {i : Fin 4}
    (hmagic : (elfOf (apps i)).eMagic ≠ elfMagic) :
    programLoader ramimages (programId i) m = .error (loaderPanic m) := by
  have helf := (happs i).readElf_eq (h.holds i) (h.high i)
  unfold programLoader
  rw [dif_pos (programId_valid i), imageIndex_programId]
  dsimp only
  rw [helf, if_pos hmagic]

omit happs in
theorem loaderPanic_congr {x : UInt32} (h : m' x = m x) : loaderPanic m' x = loaderPanic m x := by
  unfold loaderPanic writeU16
  rw [writeBytes_apply _ _ _ _ (by simp), writeBytes_apply _ _ _ _ (by simp), h]

/-- If a file is not an ELF file, the loop ends with it. Those before have changed their slots
only. -/
theorem foldlM_panics (h : AppImages apps ramimages m) : ∀ (todo : List (Fin 4)) {k : Machine},
    (∀ x : UInt32, x.toNat < 0x200000 → k.ram x = m x) →
    (∃ i ∈ todo, (elfOf (apps i)).eMagic ≠ elfMagic) →
    ∃ k', (todo.map Fin.succ).foldlM (startProcess ramimages) k = .error (.spinning k') ∧
      ∀ x : UInt32, x.toNat < 0x200000 → k'.ram x = loaderPanic m x
  | [], _, _, hbad => by
    obtain ⟨i, hi, -⟩ := hbad
    exact absurd hi List.not_mem_nil
  | i :: todo, k, hsame, hbad => by
    have himages : AppImages apps ramimages k.ram :=
      h.congr fun x _ hhigh => hsame x (by omega)
    rw [List.map_cons, List.foldlM_cons]
    by_cases hmagic : (elfOf (apps i)).eMagic = elfMagic
    · obtain ⟨m', entry, hload, hframe⟩ := programLoader_of_magic happs himages hmagic
      rw [startProcess_eq hload]
      refine foldlM_panics h todo (fun x hx => ?_) ?_
      · show m' x = m x
        rw [hframe x fun hslot => absurd hslot.le (by omega), hsame x hx]
      · obtain ⟨j, hj, hbad⟩ := hbad
        rcases List.mem_cons.mp hj with rfl | hj
        · exact absurd hmagic hbad
        · exact ⟨j, hj, hbad⟩
    · have hload := programLoader_of_not_magic happs himages hmagic
      have hstart : ∃ k', startProcess ramimages k i.succ = .error (.spinning k') ∧
          k'.ram = loaderPanic k.ram := by
        unfold startProcess
        simp only [Machine.setProc_ram, ofNat_succ_sub, hload]
        exact ⟨_, rfl, rfl⟩
      obtain ⟨k', hstart, hram⟩ := hstart
      refine ⟨k', by rw [hstart]; rfl, fun x hx => ?_⟩
      rw [hram]
      exact loaderPanic_congr (hsame x hx)

end Loop

/-! ## `start` -/

/-- Every process is about to run its file. -/
structure Launched (apps : Fin 4 → List UInt8) (k : Machine) : Prop where
  proc : ∀ i : Fin 4, k.procArray i.succ = bootProcess i.succ (elfOf (apps i)).eEntry
  loaded : ∀ i, AppLoaded (apps i) k.ram

/-- There is a `!` in the upper left corner of the screen, and nothing else. -/
structure Panicked (k : Machine) : Prop where
  mark : readU16 k.ram (cellAddr 0) = 0x0721
  blank : ∀ n, 0 < n → n < 2000 → readU16 k.ram (cellAddr n) = 0x0720

section Start

variable {apps : Fin 4 → List UInt8} {ramimages : Fin 4 → Ramimage} {k₀ : Machine} {alg : Int32}
  (happs : ∀ i, ValidApp (apps i) i) (h : AppImages apps ramimages k₀.ram)
include happs h

theorem start_launches (hmagic : ∀ i, (elfOf (apps i)).eMagic = elfMagic) :
    ∃ k, start ramimages alg k₀ = .user 1 k (bootRegisters 1 (elfOf (apps 0)).eEntry) ∧
      Booted alg k ∧ Launched apps k ∧ k.lock = k₀.lock := by
  have hclear := h.consoleClear
  have hkernel := hclear.kernelImages happs hmagic
  let k₁ := { k₀ with ram := consoleClear k₀.ram }.initProcArray
  obtain ⟨k₂, hfold, hstarted⟩ := Started.foldlM (k := k₁) hkernel (List.finRange 4)
    ⟨.nil, .nil, rfl, rfl⟩ (List.nodup_finRange 4) fun _ _ => List.not_mem_nil
  have hlist : (List.finRange 4).map Fin.succ = ([1, 2, 3, 4] : List Pid) := by decide
  have hall : ∀ i, i ∈ (List.finRange 4).reverse ++ [] := by decide
  rw [hlist] at hfold
  have htable : ∀ i : Fin 4, k₂.procArray i.succ
      = bootProcess i.succ (elfOf (apps i)).eEntry := by
    intro i
    have hself := hstarted.table.inside i (hall i) i.succ rfl
    rw [launch, Function.update_self] at hself
    rw [hself, ← (happs i).readElf_eq (hclear.holds i) (hclear.high i)]
    rfl
  rcases start_cases ramimages alg k₀ with ⟨k, hk⟩ | ⟨k, hk, hb⟩
  · exfalso
    unfold start at hk
    simp only [k₁] at hfold
    simp only [hfold] at hk
    cases hk
  · have hk' := hk
    unfold start at hk
    simp only [k₁] at hfold
    simp only [hfold] at hk
    cases hk
    refine ⟨_, ?_, hb, ⟨htable, fun i => ?_⟩, ?_⟩
    · rw [hk']
      exact congrArg (fun proc => Config.user 1 _ proc.pRegisters) (htable 0)
    · refine ((happs i).appLoaded (hclear.holds i) (hclear.high i) (hmagic i) rfl).congr (happs i)
        fun x hx => ?_
      -- `cursorpos` is below the slots
      have hout : ¬ InSpan cursorposAddr 4 x := by
        have hle := hx.le
        rw [inSpan_iff (by decide)]
        show ¬ (0x198000 ≤ x.toNat ∧ x.toNat < 0x198000 + 4)
        omega
      show writeU32 k₂.ram cursorposAddr 0xB8000 x = _
      rw [writeU32_of_not_inSpan _ _ hout]
      exact hstarted.ram.inside i (hall i) x hx
    · show readU32 (writeU32 k₂.ram cursorposAddr 0xB8000) lockAddr = _
      rw [readU32_writeU32_of_apart _ lock_apart_cursorpos.symm]
      refine (readU32_congr fun x hx => ?_).trans (consoleClear_lock k₀.ram)
      refine hstarted.ram.outside x fun i _ hslot => ?_
      have hle := InSlot.le hslot
      rw [inSpan_iff (by decide)] at hx
      have hlock : lockAddr.toNat = 0x198004 := rfl
      omega

theorem start_panics (hmagic : ∃ i, (elfOf (apps i)).eMagic ≠ elfMagic) :
    ∃ k, start ramimages alg k₀ = .spinning k ∧ Panicked k := by
  obtain ⟨i, hi⟩ := hmagic
  obtain ⟨k, hfold, hram⟩ := foldlM_panics happs h.consoleClear (List.finRange 4)
    (k := { k₀ with ram := consoleClear k₀.ram }.initProcArray) (fun _ _ => rfl)
    ⟨i, List.mem_finRange i, hi⟩
  have hlist : (List.finRange 4).map Fin.succ = ([1, 2, 3, 4] : List Pid) := by decide
  rw [hlist] at hfold
  have hcell : ∀ n, n < 2000 →
      readU16 k.ram (cellAddr n) = readU16 (loaderPanic (consoleClear k₀.ram)) (cellAddr n) := by
    intro n hn
    have haddr := cellAddr_toNat (Nat.le_of_lt hn)
    refine readU16_congr fun x hx => hram x ?_
    rw [inSpan_iff (by omega)] at hx
    omega
  refine ⟨k, by unfold start; simp only [hfold], ?_, fun n hpos hn => ?_⟩
  · rw [hcell 0 (by decide)]
    exact readU16_writeU16 ..
  · rw [hcell n hn]
    show readU16 (writeU16 _ (cellAddr 0) _) _ = _
    rw [readU16_writeU16_of_apart _ (cell_apart (by decide) hn (Nat.ne_of_lt hpos)),
      consoleClear_cell _ hn]

end Start

/-! ## The kernel -/

/-- The files of the applications are in the kernel, in a segment from which they get to where
`ramimages` says. -/
structure Linked (kernel : List UInt8) (apps : Fin 4 → List UInt8)
    (ramimages : Fin 4 → Ramimage) : Prop extends ValidKernel kernel where
  placed : ∀ i, ∃ s d, s < (elfOf kernel).ePhnum.toNat ∧
    (ramimages i).begin = (proghdrOf kernel s).pVa + UInt32.ofNat d ∧
    d + (apps i).length ≤ (proghdrOf kernel s).pFilesz.toNat ∧
    ∀ k (hk : k < (apps i).length),
      kernel[(proghdrOf kernel s).pOffset.toNat + d + k]? = some (apps i)[k]
  low : ∀ i, 0x100000 ≤ (ramimages i).begin.toNat
  high : ∀ i, (ramimages i).begin.toNat + (apps i).length ≤ 0x198000

/-- The segment with the header `h` is read to `x`, or cleared there. -/
def Proghdr.Covers (h : Proghdr) (x : UInt32) : Prop :=
  (h.pVa.toNat + h.pFilesz.toNat ≤ x.toNat ∧ x.toNat < h.pVa.toNat + h.pMemsz.toNat) ∨
    h.InSectors x

section Kernel

variable {disk : Nat → UInt8} {kernel : List UInt8} {apps : Fin 4 → List UInt8}
  {ramimages : Fin 4 → Ramimage}

/-- **`bootmain` brings the applications along.** -/
theorem Linked.appImages (hl : Linked kernel apps ramimages) {m : Mem}
    (h : KernelUpTo kernel (elfOf kernel).ePhnum.toNat m) : AppImages apps ramimages m where
  holds i k hk := by
    obtain ⟨s, d, hs, hbegin, hfits, hbytes⟩ := hl.placed i
    have hle := hl.filesz_le s hs
    have hbyte := h.segments s hs (d + k) (by omega)
    have hread := hbytes k hk
    rw [Nat.add_assoc] at hread
    rw [kernelByte, if_pos (by omega), List.getD_eq_getElem?_getD, hread] at hbyte
    rw [hbegin, UInt32.add_assoc, ← UInt32.ofNat_add]
    exact hbyte
  low := hl.low
  high := hl.high

theorem readSegments_frame (hv : ValidKernel kernel) (hdisk : HoldsKernel disk kernel)
    {x : UInt32} (hx : ∀ n, n < (elfOf kernel).ePhnum.toNat → ¬ (proghdrOf kernel n).Covers x) :
    ∀ (r i : Nat) {m m' : Mem}, i + r = (elfOf kernel).ePhnum.toNat → KernelUpTo kernel i m →
      readSegments disk (headerAddr (fileAt kernel) elfhdr (elfOf kernel).ePhnum.toNat) r
        (headerAddr (fileAt kernel) elfhdr i) m = some m' → m' x = m x
  | 0, i, m, m', _, _, hread => by
    cases hread
    rfl
  | r + 1, i, m, m', hi, h, hread => by
    have hlt : i < (elfOf kernel).ePhnum.toNat := by omega
    have hhdr : readProghdr m (headerAddr (fileAt kernel) elfhdr i) = proghdrOf kernel i :=
      readProghdr_congr fun x hx =>
        h.scratch x (headerAddr_inSpan elfhdr_fits hv.table hlt hx)
    have hbefore : headerAddr (fileAt kernel) elfhdr i
        < headerAddr (fileAt kernel) elfhdr (elfOf kernel).ePhnum.toNat :=
      headerAddr_lt elfhdr_fits hv.table hlt
    obtain ⟨m₁, h₁, hup⟩ := h.readseg hv hdisk hlt rfl
    obtain ⟨m₂, h₂, hinto⟩ := hv.readseg hlt rfl disk m
    rw [h₁] at h₂
    cases h₂
    rw [readSegments, if_pos hbefore, hhdr] at hread
    simp only [Option.bind_eq_bind] at hread
    rw [h₁, Option.bind_some, headerAddr_succ] at hread
    rw [readSegments_frame hv hdisk hx r (i + 1) (by omega) hup hread, hinto]
    have hout := hx i hlt
    unfold Proghdr.Covers Proghdr.InSectors at hout
    rw [if_neg fun hbss => hout (.inl hbss), if_neg fun hin => hout (.inr hin)]

/-- Besides the segments, `bootmain` writes to its scratch page only. -/
theorem bootmain_frame (hv : ValidKernel kernel) (hdisk : HoldsKernel disk kernel) {m m' : Mem}
    {entry : UInt32} (hboot : bootmain disk m = some (.jumped entry m')) {x : UInt32}
    (hscratch : 0x11000 ≤ x.toNat)
    (hx : ∀ n, n < (elfOf kernel).ePhnum.toNat → ¬ (proghdrOf kernel n).Covers x) :
    m' x = m x := by
  obtain ⟨m₁, h₁, hzero⟩ := readseg_header hdisk m
  have hfits : elfhdr.toNat + pagesize.toNat < 2 ^ 32 := by decide
  have hstop : alignUp 512 (elfhdr.toNat + pagesize.toNat) < 2 ^ 32 := by decide
  have hsect : (1 : UInt32).toNat ≤ 2 ^ 27 := by decide
  obtain ⟨m₂, h₂, hinto⟩ := readseg_spec disk (Nat.le_refl pagesize.toNat) hfits hstop hsect m
  rw [h₁] at h₂
  cases h₂
  have hpage : m₁ x = m x := by
    have hva : elfhdr.toNat = 0x10000 := rfl
    have hsize : pagesize.toNat = 4096 := rfl
    have hup : alignUp 512 (elfhdr.toNat + pagesize.toNat) = 0x11000 := rfl
    rw [hinto, if_neg (by omega), if_neg (by omega)]
  have hbefore := elfOf_scratch hzero.scratch
  have heph := headerAddr_ePhnum (fileAt kernel) elfhdr
  have hph := headerAddr_zero (fileAt kernel) elfhdr
  rw [bootmain, h₁] at hboot
  simp only [Option.bind_eq_bind, Option.bind_some] at hboot
  rw [hbefore, if_neg (not_not_intro hv.magic)] at hboot
  obtain ⟨m₃, h₃, hresult⟩ := Option.bind_eq_some_iff.mp hboot
  cases hresult
  rw [← hpage]
  refine readSegments_frame hv hdisk hx (elfOf kernel).ePhnum.toNat 0 (Nat.zero_add _) hzero ?_
  show readSegments disk (headerAddr (fileAt kernel) elfhdr
    (readElf (fileAt kernel) elfhdr).ePhnum.toNat) _ _ _ = _
  rw [heph, hph]
  exact h₃

/-- Nothing on the way has to do with `lock`. -/
theorem bootmain_lock (hv : ValidKernel kernel) (hdisk : HoldsKernel disk kernel) {m m' : Mem}
    {entry : UInt32} (hboot : bootmain disk m = some (.jumped entry m'))
    (hx : ∀ x n, InSpan lockAddr 4 x → n < (elfOf kernel).ePhnum.toNat →
      ¬ (proghdrOf kernel n).Covers x) : readU32 m' lockAddr = readU32 m lockAddr := by
  refine readU32_congr fun x hspan => bootmain_frame hv hdisk hboot ?_ fun n => hx x n hspan
  rw [inSpan_iff (by decide)] at hspan
  have hlock : lockAddr.toNat = 0x198004 := rfl
  omega

end Kernel

/-- **From the files to the processes.** An image that `mkbootdisk` makes boots from whatever state
the memory is in: if all applications are ELF files, the first one runs and each of them has its
segments and its entry point; if not, the kernel stops with a `!` on a blank screen. Only `lock`
begins with what has been in the memory. -/
theorem boot_chain (bootsector kernel : List UInt8) (apps : Fin 4 → List UInt8)
    (ramimages : Fin 4 → Ramimage) (hboot : bootsector.length ≤ 510)
    (hl : Linked kernel apps ramimages) (happs : ∀ i, ValidApp (apps i) i) :
    (∃ writes image, mkbootdisk bootsector [.file kernel] writes = some image) ∧
    ∀ writes image, mkbootdisk bootsector [.file kernel] writes = some image →
      ∀ disk : Nat → UInt8, (∀ i (hi : i < image.length), disk i = image[i]) →
      ∀ m, ∃ m', bootmain disk m = some (.jumped (elfOf kernel).eEntry m') ∧
        ∀ alg k₀, k₀.ram = m' →
          ((∀ i, (elfOf (apps i)).eMagic = elfMagic) →
            ∃ k, start ramimages alg k₀ = .user 1 k (bootRegisters 1 (elfOf (apps 0)).eEntry) ∧
              Booted alg k ∧ Launched apps k ∧
              ((∀ x n, InSpan lockAddr 4 x → n < (elfOf kernel).ePhnum.toNat →
                ¬ (proghdrOf kernel n).Covers x) → k.lock = readU32 m lockAddr)) ∧
          ((∃ i, (elfOf (apps i)).eMagic ≠ elfMagic) →
            ∃ k, start ramimages alg k₀ = .spinning k ∧ Panicked k) := by
  refine ⟨mkbootdisk_succeeds hboot kernel, fun writes image himage disk hdisk m => ?_⟩
  have hkernel := holdsKernel_of_mkbootdisk himage hdisk
  obtain ⟨m', hm', hdone⟩ := bootmain_spec hl.toValidKernel hkernel m
  refine ⟨m', hm', fun alg k₀ hram => ?_⟩
  subst hram
  have himages := hl.appImages hdone
  refine ⟨fun hmagic => ?_, start_panics happs himages⟩
  obtain ⟨k, hstart, hbooted, hlaunched, hlock⟩ := start_launches happs himages hmagic
  exact ⟨k, hstart, hbooted, hlaunched, fun hcovers =>
    hlock.trans (bootmain_lock hl.toValidKernel hkernel hm' hcovers)⟩

/-! ## A kernel with two applications -/

/-- An ELF file with one segment, which begins behind the headers. -/
def segmentFile (va memsz : Nat) (contents : List UInt8) : List UInt8 :=
  leBytes 4 0x464C457F ++ List.replicate 20 0 ++ leBytes 4 va ++ leBytes 4 52
    ++ List.replicate 12 0 ++ leBytes 2 1 ++ List.replicate 6 0
    ++ leBytes 4 1 ++ leBytes 4 84 ++ leBytes 4 va ++ leBytes 4 0 ++ leBytes 4 contents.length
    ++ leBytes 4 memsz ++ List.replicate 8 0 ++ contents

/-- One byte, and one byte of bss. -/
def nopApp : List UInt8 := segmentFile 0x200000 2 [0x90]

/-- An ELF file without segments. -/
def bareApp : List UInt8 :=
  leBytes 4 0x464C457F ++ List.replicate 20 0 ++ leBytes 4 0x300000 ++ List.replicate 24 0

def twoApps (i : Fin 4) : List UInt8 := if i.val = 0 then nopApp else bareApp

/-- Three of the applications share one file. -/
def twoRamimages (i : Fin 4) : Ramimage :=
  if i.val = 0 then ⟨0x100054, 0x1000A9⟩ else ⟨0x1000A9, 0x1000DD⟩

def twoKernel : List UInt8 := segmentFile 0x100054 137 (nopApp ++ bareApp)

theorem nopApp_elf : elfOf nopApp = ⟨elfMagic, 0x200000, 52, 1⟩ := by decide +kernel

theorem nopApp_proghdr : proghdrOf nopApp 0 = ⟨elfProgLoad, 84, 0x200000, 1, 2⟩ := by
  decide +kernel

theorem nopApp_isSegment {n : Nat} : IsSegment nopApp n ↔ n = 0 := by
  show n < (elfOf nopApp).ePhnum.toNat ∧ (proghdrOf nopApp n).pType = elfProgLoad ↔ _
  rw [nopApp_elf]
  constructor
  · exact fun h => Nat.lt_one_iff.mp h.1
  · rintro rfl
    rw [nopApp_proghdr]
    exact ⟨Nat.one_pos, rfl⟩

theorem nopApp_valid : ValidApp nopApp 0 where
  header := by decide
  table := by
    rw [nopApp_elf]
    decide
  aligned n hn := by
    rw [nopApp_isSegment.mp hn, nopApp_proghdr]
    rfl
  filesz_le n hn := by
    rw [nopApp_isSegment.mp hn, nopApp_proghdr]
    decide
  in_slot n hn := by
    rw [nopApp_isSegment.mp hn, nopApp_proghdr]
    decide
  inside n hn := by
    rw [nopApp_isSegment.mp hn, nopApp_proghdr]
    decide
  apart n l hn hl hne :=
    absurd ((nopApp_isSegment.mp hn).trans (nopApp_isSegment.mp hl).symm) hne

theorem bareApp_elf : elfOf bareApp = ⟨elfMagic, 0x300000, 0, 0⟩ := by decide +kernel

theorem bareApp_not_isSegment (n : Nat) : ¬ IsSegment bareApp n := by
  rintro ⟨hn, -⟩
  rw [show (readElf (fileAt bareApp) elfhdr).ePhnum = 0 from congrArg Elf.ePhnum bareApp_elf] at hn
  exact Nat.not_lt_zero n hn

theorem bareApp_valid (i : Fin 4) : ValidApp bareApp i where
  header := by decide
  table := by
    rw [bareApp_elf]
    decide
  aligned n hn := absurd hn (bareApp_not_isSegment n)
  filesz_le n hn := absurd hn (bareApp_not_isSegment n)
  in_slot n hn := absurd hn (bareApp_not_isSegment n)
  inside n hn := absurd hn (bareApp_not_isSegment n)
  apart n _ hn := absurd hn (bareApp_not_isSegment n)

theorem twoApps_valid (i : Fin 4) : ValidApp (twoApps i) i := by
  unfold twoApps
  split
  · next hi =>
    obtain rfl : i = 0 := Fin.ext hi
    exact nopApp_valid
  · exact bareApp_valid i

theorem twoApps_magic (i : Fin 4) : (elfOf (twoApps i)).eMagic = elfMagic := by
  unfold twoApps
  split
  · rw [nopApp_elf]
  · rw [bareApp_elf]

theorem twoKernel_elf : elfOf twoKernel = ⟨elfMagic, 0x100054, 52, 1⟩ := by decide +kernel

theorem twoKernel_proghdr : proghdrOf twoKernel 0 = ⟨1, 84, 0x100054, 137, 137⟩ := by
  decide +kernel

theorem twoKernel_header {n : Nat} (hn : n < (elfOf twoKernel).ePhnum.toNat) : n = 0 := by
  rw [twoKernel_elf] at hn
  exact Nat.lt_one_iff.mp hn

theorem twoKernel_linked : Linked twoKernel twoApps twoRamimages where
  magic := by rw [twoKernel_elf]
  table := by
    rw [twoKernel_elf]
    decide
  congruent n hn := by
    rw [twoKernel_header hn, twoKernel_proghdr]
    decide
  filesz_le n hn := by
    rw [twoKernel_header hn, twoKernel_proghdr]
  inside n hn := by
    rw [twoKernel_header hn, twoKernel_proghdr]
    decide +kernel
  above n hn := by
    rw [twoKernel_header hn, twoKernel_proghdr]
    decide
  fits n hn := by
    rw [twoKernel_header hn, twoKernel_proghdr]
    decide
  apart n l hn hl hne := absurd ((twoKernel_header hn).trans (twoKernel_header hl).symm) hne
  placed i := by
    refine ⟨0, if i.val = 0 then 0 else 85, by rw [twoKernel_elf]; decide, ?_⟩
    rw [twoKernel_proghdr]
    by_cases hi : i.val = 0
    · obtain rfl : i = 0 := Fin.ext hi
      exact ⟨by decide, by decide, by decide +kernel⟩
    · rw [if_neg hi, show twoApps i = bareApp from if_neg hi]
      refine ⟨?_, by decide, by decide +kernel⟩
      rw [show twoRamimages i = ⟨0x1000A9, 0x1000DD⟩ from if_neg hi]
      rfl
  low := by decide
  high := by decide

theorem twoKernel_spares_lock (x : UInt32) (n : Nat) (hx : InSpan lockAddr 4 x)
    (hn : n < (elfOf twoKernel).ePhnum.toNat) : ¬ (proghdrOf twoKernel n).Covers x := by
  rw [twoKernel_header hn, twoKernel_proghdr]
  rw [inSpan_iff (by decide), show lockAddr.toNat = 0x198004 from rfl] at hx
  rintro (⟨-, hlt⟩ | ⟨-, hlt⟩)
  · have hlt' : x.toNat < 0x100054 + 137 := hlt
    omega
  · have hlt' : x.toNat < alignUp 512 (0x100054 + 137) := hlt
    rw [show alignUp 512 (0x100054 + 137) = 0x100200 from rfl] at hlt'
    omega

/-- With a memory full of ones, the first application finds `lock` taken. -/
theorem boot_chain_two : ∃ writes image m' k,
    mkbootdisk [] [.file twoKernel] writes = some image ∧
      bootmain (fun i => image.getD i 0) (fun _ => 0xFF) = some (.jumped 0x100054 m') ∧
      start twoRamimages 0 { bareMachine with ram := m' }
        = .user 1 k (bootRegisters 1 0x200000) ∧
      k.ram 0x200000 = 0x90 ∧ k.ram 0x200001 = 0 ∧ k.lock = 0xFFFFFFFF := by
  obtain ⟨⟨writes, image, himage⟩, hboots⟩ := boot_chain [] twoKernel twoApps twoRamimages
    (by decide) twoKernel_linked twoApps_valid
  obtain ⟨m', hm', hstart⟩ := hboots writes image himage (fun i => image.getD i 0)
    (fun i hi => by rw [List.getD_eq_getElem?_getD, List.getElem?_eq_getElem hi, Option.getD_some])
    fun _ => 0xFF
  obtain ⟨k, hk, -, hlaunched, hlock⟩ :=
    (hstart 0 { bareMachine with ram := m' } rfl).1 twoApps_magic
  have hsegment : IsSegment nopApp 0 := nopApp_isSegment.mpr rfl
  have hbyte := (hlaunched.loaded 0).contents 0 hsegment 0
    (by rw [show twoApps 0 = nopApp from rfl, nopApp_proghdr]; decide)
  have hbss := (hlaunched.loaded 0).bss 0 hsegment 1
    (by rw [show twoApps 0 = nopApp from rfl, nopApp_proghdr]; decide)
    (by rw [show twoApps 0 = nopApp from rfl, nopApp_proghdr]; decide)
  rw [show twoApps 0 = nopApp from rfl, nopApp_proghdr] at hbyte hbss
  have hread : nopApp[84]? = some 0x90 := by decide
  rw [twoKernel_elf] at hm'
  rw [show twoApps 0 = nopApp from rfl, nopApp_elf] at hk
  exact ⟨writes, image, m', k, himage, hm', hk, Option.some.inj (hbyte.symm.trans hread), hbss,
    (hlock twoKernel_spares_lock).trans (by decide)⟩

end SchedOS
