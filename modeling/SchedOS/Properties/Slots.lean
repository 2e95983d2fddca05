import SchedOS.Properties.Loading
import SchedOS.Kern.Start
import SchedOS.Infra.Regions

/-!
# The slots of the applications

Each application has a slot of `PROC_SIZE` bytes from `PROC1_START` on. The slots begin on page
boundaries, so rounding a segment down to its page does not lead out of its slot, and no loader
writes where another one reads: the order in which the applications are loaded makes no
difference. But for a segment that is not aligned, `copyseg` reads behind its contents, possibly
behind the end of the image.

* `SlotImage.frame` — loading an application changes its slot only
* `loads_apart_iff` — when what is in a slot is up to the application alone
-/

namespace SchedOS

open Infra

/-! ## Slots -/

/-- `PROC1_START + i * PROC_SIZE`. -/
def slotBase (i : Fin 4) : UInt32 := proc1Start + UInt32.ofNat i * procSize

/-- `x` lies in the slot of program `i`. -/
def InSlot (i : Fin 4) (x : UInt32) : Prop := InSpan (slotBase i) procSize.toNat x

theorem slotBase_toNat (i : Fin 4) : (slotBase i).toNat = 0x200000 + i * 0x100000 := by
  revert i
  decide

theorem inSlot_iff {i : Fin 4} {x : UInt32} :
    InSlot i x ↔ 0x200000 + i * 0x100000 ≤ x.toNat ∧
      x.toNat < 0x200000 + i * 0x100000 + 0x100000 := by
  have hbase := slotBase_toNat i
  have hsize : procSize.toNat = 0x100000 := rfl
  unfold InSlot
  rw [inSpan_iff (by omega), hbase, hsize]

theorem InSlot.eq {i j : Fin 4} {x : UInt32} (hi : InSlot i x) (hj : InSlot j x) : i = j := by
  rw [inSlot_iff] at hi hj
  exact Fin.ext (by omega)

theorem InSlot.le {i : Fin 4} {x : UInt32} (h : InSlot i x) : 0x200000 ≤ x.toNat := by
  rw [inSlot_iff] at h
  omega

/-! ## Images for a slot -/

/-- The memory holds an image of `L` bytes at `E` whose segments lie in the slot of program `i`,
in any order and also on top of each other. -/
structure SlotImage (m : Mem) (E : UInt32) (L : Nat) (i : Fin 4) : Prop where
  fits : E.toNat + L < 2 ^ 32
  magic : (readElf m E).eMagic = elfMagic
  header : 52 ≤ L
  table : (readElf m E).ePhoff.toNat + 32 * (readElf m E).ePhnum.toNat ≤ L
  filesz_le : ∀ n, IsLoad m E n →
    (progHeader m E n).pFilesz.toNat ≤ (progHeader m E n).pMemsz.toNat
  in_slot : ∀ n, IsLoad m E n → (slotBase i).toNat ≤ (progHeader m E n).pVa.toNat ∧
    (progHeader m E n).pVa.toNat + (progHeader m E n).pMemsz.toNat
      ≤ (slotBase i).toNat + procSize.toNat

section SlotImage

variable {m m' : Mem} {E : UInt32} {L : Nat} {i : Fin 4} {ramimages : Fin 4 → Ramimage}

/-- The slots end before the address space does. -/
theorem SlotImage.end_lt (h : SlotImage m E L i) {n : Nat} (hn : IsLoad m E n) :
    (progHeader m E n).pVa.toNat + (progHeader m E n).pMemsz.toNat < 2 ^ 32 := by
  have hslot := (h.in_slot n hn).2
  have hbase := slotBase_toNat i
  have hsize : procSize.toNat = 0x100000 := rfl
  omega

theorem SlotImage.loadable (h : SlotImage m E L i) : Loadable m E L where
  fits := h.fits
  magic := h.magic
  header := h.header
  table := h.table
  filesz_le := h.filesz_le
  no_wrap n hn := Nat.le_of_lt (h.end_lt hn)
  copied n hn := by
    have hend := h.end_lt hn
    have hle := h.filesz_le n hn
    have hpage := pageStart_toNat (progHeader m E n).pVa
    omega

/-- A slot begins on a page boundary, so the page of a segment begins in its slot. -/
theorem SlotImage.writes_inSlot (h : SlotImage m E L i) {n : Nat} {x : UInt32}
    (hx : Writes m E n x) : InSlot i x := by
  obtain ⟨hn, hx⟩ := hx
  obtain ⟨hlow, hhigh⟩ := h.in_slot n hn
  have hend := h.end_lt hn
  have hwritten := h.loadable.written_le hn
  have hpage := pageStart_toNat (progHeader m E n).pVa
  have hbase := slotBase_toNat i
  have hsize : procSize.toNat = 0x100000 := rfl
  rw [inSpan_iff (by omega)] at hx
  rw [inSlot_iff]
  unfold pageOffset at hpage hx
  omega

/-- `program_id` for program `i`. -/
def programId (i : Fin 4) : Int32 := Int32.ofNat i

theorem programId_valid (i : Fin 4) : 0 ≤ (programId i).toInt ∧ (programId i).toInt < 4 := by
  revert i
  decide

theorem imageIndex_programId (i : Fin 4) : imageIndex (programId_valid i) = i := by
  revert i
  decide

/-- **Loading an application changes its slot only**, wherever else its image lies. -/
theorem SlotImage.frame (h : SlotImage m (ramimages i).begin L i)
    (hout : ∀ x, InSpan (ramimages i).begin L x → ¬ InSlot i x) :
    ∃ m', programLoader ramimages (programId i) m
        = .ok (m', (readElf m (ramimages i).begin).eEntry) ∧
      ∀ x, ¬ InSlot i x → m' x = m x := by
  refine programLoader_rule (P := fun _ m' => ∀ x, ¬ InSlot i x → m' x = m x) (programId_valid i)
    (by rw [imageIndex_programId]) h.loadable (fun _ _ => rfl) (fun n m' hn hm' x hx => ?_)
    fun m' hm' x hx => ?_
  · have hhdr : readProghdr m' (headerAddr m (ramimages i).begin n)
        = progHeader m (ramimages i).begin n :=
      readProghdr_congr fun y hy => hm' y (hout y (headerAddr_inSpan h.fits h.table hn hy))
    rw [h.loadable.loadSegment_frame hn hhdr fun hw => hx (h.writes_inSlot hw)]
    exact hm' x hx
  · exact hm' x (hout x (h.loadable.entry_inSpan hx))

end SlotImage

/-! ## Images in the kernel -/

/-- The image is linked into the kernel, below `cursorpos`, and the contents of its segments lie
in it. -/
structure KernelImage (m : Mem) (E : UInt32) (L : Nat) (i : Fin 4) : Prop
    extends SlotImage m E L i where
  below : E.toNat + L ≤ 0x198000
  inside : ∀ n, IsLoad m E n →
    (progHeader m E n).pOffset.toNat + (progHeader m E n).pFilesz.toNat ≤ L

/-- `copyseg` copies to `x` for segment `n` … -/
def Copied (m : Mem) (E : UInt32) (n : Nat) (x : UInt32) : Prop :=
  InSpan (pageStart (progHeader m E n).pVa)
    (pageOffset (progHeader m E n).pVa + (progHeader m E n).pFilesz.toNat) x

/-- … from here. -/
def source (m : Mem) (E : UInt32) (n : Nat) (x : UInt32) : UInt32 :=
  E + (progHeader m E n).pOffset + (x - pageStart (progHeader m E n).pVa)

/-- The byte that is left at `x` does not come from the image. -/
def Overread (m : Mem) (E : UInt32) (L : Nat) (x : UInt32) : Prop :=
  ∃ n, LastWriter m E n x ∧ Copied m E n x ∧ ¬ InSpan E L (source m E n x)

section KernelImage

variable {m m' : Mem} {E : UInt32} {L : Nat} {i : Fin 4} {ramimages : Fin 4 → Ramimage}

/-- The kernel ends below the slots. -/
theorem KernelImage.not_inSlot (h : KernelImage m E L i) {x : UInt32} (hx : InSpan E L x)
    (j : Fin 4) : ¬ InSlot j x := by
  intro hslot
  have hlow := hslot.le
  have hbelow := h.below
  rw [inSpan_iff (by omega)] at hx
  omega

theorem KernelImage.congr (h : KernelImage m E L i) (hsame : SameImage E L m m') :
    KernelImage m' E L i := by
  have hload := hsame.loadable h.loadable
  exact {
    fits := hload.fits
    magic := hload.magic
    header := hload.header
    table := hload.table
    filesz_le := hload.filesz_le
    in_slot := hsame.forall_isLoad h.loadable
      (P := fun _ g => (slotBase i).toNat ≤ g.pVa.toNat ∧
        g.pVa.toNat + g.pMemsz.toNat ≤ (slotBase i).toNat + procSize.toNat) h.in_slot
    below := h.below
    inside := hsame.forall_isLoad h.loadable
      (P := fun _ g => g.pOffset.toNat + g.pFilesz.toNat ≤ L) h.inside }

/-- What is read for a segment lies less than a page behind the kernel. -/
theorem KernelImage.reads_lt (h : KernelImage m E L i) {n : Nat} {x : UInt32}
    (hx : Reads m E n x) : x.toNat < 0x199000 := by
  obtain ⟨hn, hx⟩ := hx
  have hbelow := h.below
  have hinside := h.inside n hn
  have hoffset : pageOffset (progHeader m E n).pVa < 4096 := Nat.mod_lt _ (by decide)
  have hsum : (E + (progHeader m E n).pOffset).toNat
      = E.toNat + (progHeader m E n).pOffset.toNat := by
    rw [UInt32.toNat_add]
    omega
  rw [inSpan_iff (by omega)] at hx
  omega

/-- The loader reads nothing that it has written: it reads below the slots. -/
theorem KernelImage.readsFresh (h : KernelImage m E L i) : ReadsFresh m E where
  headers _ _ _ _ hi hx hw :=
    h.not_inSlot (headerAddr_inSpan h.fits h.table hi hx) i (h.writes_inSlot hw)
  contents n j x _ hx hw := by
    have hlow := (h.writes_inSlot hw).le
    have hread := h.reads_lt hx
    omega
  entry j x hx hw := h.not_inSlot (h.loadable.entry_inSpan hx) i (h.writes_inSlot hw)

theorem reads_source {n : Nat} {x : UInt32} (hn : IsLoad m E n) (hx : Copied m E n x) :
    Reads m E n (source m E n x) := by
  refine ⟨hn, ?_⟩
  unfold InSpan source
  rwa [show E + (progHeader m E n).pOffset + (x - pageStart (progHeader m E n).pVa)
    - (E + (progHeader m E n).pOffset) = x - pageStart (progHeader m E n).pVa by grind]

theorem KernelImage.lastWriter_iff (h : KernelImage m E L i) (hsame : SameImage E L m m')
    (n : Nat) (x : UInt32) : LastWriter m' E n x ↔ LastWriter m E n x := by
  constructor
  · rintro ⟨hw, hlast⟩
    exact ⟨(hsame.writes_iff h.loadable n x).mp hw,
      fun j hj hw' => hlast j hj ((hsame.writes_iff h.loadable j x).mpr hw')⟩
  · rintro ⟨hw, hlast⟩
    exact ⟨(hsame.writes_iff h.loadable n x).mpr hw,
      fun j hj hw' => hlast j hj ((hsame.writes_iff h.loadable j x).mp hw')⟩

theorem KernelImage.shiftedByte_of_copied (h : KernelImage m E L i) (hsame : SameImage E L m m')
    {n : Nat} (hn : IsLoad m E n) {x : UInt32} (hx : Copied m E n x) :
    shiftedByte m' E n x = m' (source m E n x) := by
  unfold shiftedByte
  rw [hsame.progHeader_eq h.loadable hn.1]
  exact if_pos hx

theorem KernelImage.shiftedByte_congr (h : KernelImage m E L i) (hsame : SameImage E L m m')
    {n : Nat} (hn : IsLoad m E n) {x : UInt32}
    (hsource : Copied m E n x → m' (source m E n x) = m (source m E n x)) :
    shiftedByte m' E n x = shiftedByte m E n x := by
  unfold shiftedByte
  rw [hsame.progHeader_eq h.loadable hn.1]
  split
  · next hx => exact hsource hx
  · rfl

/-! ## What is in a slot -/

/-- The memory after `program_loader(i, …)`. -/
def loaded (ramimages : Fin 4 → Ramimage) (i : Fin 4) (m : Mem) : Mem :=
  match programLoader ramimages (programId i) m with
  | .ok (m', _) => m'
  | .error m' => m'

theorem KernelImage.loads (h : KernelImage m (ramimages i).begin L i) :
    programLoader ramimages (programId i) m
        = .ok (loaded ramimages i m, (readElf m (ramimages i).begin).eEntry) ∧
      LoadedUpTo m (ramimages i).begin (readElf m (ramimages i).begin).ePhnum.toNat
        (loaded ramimages i m) := by
  obtain ⟨m', hok, hspec⟩ := programLoader_spec (programId_valid i)
    (by rw [imageIndex_programId]) h.loadable h.readsFresh
  have heq : loaded ramimages i m = m' := by rw [loaded, hok]
  rw [heq]
  exact ⟨hok, hspec⟩

theorem KernelImage.loaded_frame (h : KernelImage m (ramimages i).begin L i) {x : UInt32}
    (hx : ¬ InSlot i x) : loaded ramimages i m x = m x :=
  h.loads.2.fresh x fun _ _ hw => hx (h.writes_inSlot hw)

/-- A byte that is left is either what has been there, or what the last segment written over it
puts there. -/
theorem KernelImage.loaded_congr (h : KernelImage m (ramimages i).begin L i)
    (hsame : SameImage (ramimages i).begin L m m') {x : UInt32} (hx : m' x = m x)
    (hbyte : ∀ n, LastWriter m (ramimages i).begin n x →
      shiftedByte m' (ramimages i).begin n x = shiftedByte m (ramimages i).begin n x) :
    loaded ramimages i m' x = loaded ramimages i m x := by
  have hspec := h.loads.2
  have hspec' := (h.congr hsame).loads.2
  by_cases hwritten : ∃ n, Writes m (ramimages i).begin n x
  · obtain ⟨n, hw⟩ := hwritten
    obtain ⟨j, hj⟩ := exists_lastWriter hw
    rw [hspec.byte hj, hspec'.byte ((h.lastWriter_iff hsame j x).mpr hj), hbyte j hj]
  · have hnot : ∀ n, ¬ Writes m (ramimages i).begin n x := fun n hw => hwritten ⟨n, hw⟩
    rw [hspec.fresh x fun n _ => hnot n, hspec'.fresh x fun n _ hw =>
      hnot n ((hsame.writes_iff h.loadable n x).mp hw), hx]

/-- **When a slot is up to its own application**: the loader makes the same of every memory with
this image and the same contents of the slot exactly if nothing that is left in the slot comes
from behind the end of the image. -/
theorem KernelImage.own_iff (h : KernelImage m (ramimages i).begin L i) :
    (∀ m', SameImage (ramimages i).begin L m m' → (∀ x, InSlot i x → m' x = m x) →
      ∀ x, InSlot i x → loaded ramimages i m' x = loaded ramimages i m x) ↔
      ∀ x, ¬ Overread m (ramimages i).begin L x := by
  constructor
  · rintro hown x ⟨n, hlast, hcopied, hsource⟩
    have hn := hlast.writes.1
    have hslot := h.writes_inSlot hlast.writes
    have hread := h.reads_lt (reads_source hn hcopied)
    -- the byte that ends up at `x` is changed, where it comes from
    have hne : ∀ y, InSpan (ramimages i).begin L y ∨ InSlot i y →
        y ≠ source m (ramimages i).begin n x := by
      rintro y (hy | hy) rfl
      · exact hsource hy
      · have hle := hy.le
        omega
    let m' := m.write (source m (ramimages i).begin n x)
      (m (source m (ramimages i).begin n x) + 1)
    have hsame : SameImage (ramimages i).begin L m m' :=
      fun y hy => Mem.write_of_ne (hne y (Or.inl hy)) ..
    have heq := hown m' hsame (fun y hy => Mem.write_of_ne (hne y (Or.inr hy)) ..) x hslot
    rw [h.loads.2.byte hlast,
      (h.congr hsame).loads.2.byte ((h.lastWriter_iff hsame n x).mpr hlast),
      h.shiftedByte_of_copied hsame hn hcopied,
      h.shiftedByte_of_copied (fun _ _ => rfl) hn hcopied] at heq
    have hself : m' (source m (ramimages i).begin n x)
        = m (source m (ramimages i).begin n x) + 1 := Mem.write_self ..
    exact absurd (hself.symm.trans heq) (by grind)
  · intro hnot m' hsame hslot x hx
    refine h.loaded_congr hsame (hslot x hx) fun n hlast => ?_
    refine h.shiftedByte_congr hsame hlast.writes.1 fun hcopied => hsame _ ?_
    exact by_contra fun hsource => hnot x ⟨n, hlast, hcopied, hsource⟩

/-- Nothing is read behind the image for segments that begin on a page boundary. -/
theorem KernelImage.not_overread_of_aligned (h : KernelImage m E L i)
    (haligned : ∀ n, IsLoad m E n → pageOffset (progHeader m E n).pVa = 0) (x : UInt32) :
    ¬ Overread m E L x := by
  rintro ⟨n, hlast, hcopied, hsource⟩
  have hn := hlast.writes.1
  have hread := (reads_source hn hcopied).2
  rw [haligned n hn, Nat.zero_add] at hread
  exact hsource (inSpan_of_add (h.inside n hn) hread)

end KernelImage

/-! ## The loop over the applications -/

/-- The kernel holds an image for each application. -/
def KernelImages (ramimages : Fin 4 → Ramimage) (length : Fin 4 → Nat) (m : Mem) : Prop :=
  ∀ i, KernelImage m (ramimages i).begin (length i) i

/-- The entry of the table after `start` has set it up for the entry point `entry`. -/
def launched (p : Pid) (entry : UInt32) (proc : Process) : Process :=
  { specialRegistersInit proc with
    pRegisters :=
      { (specialRegistersInit proc).pRegisters with
        regEsp := proc1Start + UInt32.ofNat p * procSize
        regEip := entry }
    pState := .pRunnable
    pNumTimes := 0 }

/-- The table after the entry for program `i` has been set up. -/
def launch (entry : Fin 4 → UInt32) (i : Fin 4) (table : Pid → Process) : Pid → Process :=
  Function.update table i.succ (launched i.succ (entry i) (table i.succ))

section Loop

variable {ramimages : Fin 4 → Ramimage} {length : Fin 4 → Nat} {k k' : Machine} {i : Fin 4}
  {done : List (Fin 4)}

/-- The loaders keep to the slots. -/
theorem KernelImages.confined {m : Mem} (h : KernelImages ramimages length m) :
    Confined (loaded ramimages) (fun i => {x | InSlot i x}) m := by
  have hlow : ∀ {i : Fin 4} {m' : Mem}, SameFor (fun i => {x | InSlot i x}) i m m' →
      ∀ x : UInt32, x.toNat < 0x200000 → m' x = m x :=
    fun hsame x hx => hsame x fun j _ hj => Nat.not_le_of_lt hx hj.le
  have himage : ∀ {i : Fin 4} {m' : Mem}, SameFor (fun i => {x | InSlot i x}) i m m' →
      SameImage (ramimages i).begin (length i) m m' :=
    fun hsame x hx => hsame x fun j _ => (h _).not_inSlot hx j
  constructor
  · intro i j hij x hi hj
    exact hij (InSlot.eq hi hj)
  · intro i m' hsame x hx
    exact ((h i).congr (himage hsame)).loaded_frame hx
  · intro i m' hsame x hx
    refine (h i).loaded_congr (himage hsame) (hsame x fun j hji hj => hji (InSlot.eq hj hx))
      fun n hlast => ?_
    refine (h i).shiftedByte_congr (himage hsame) hlast.writes.1 fun hcopied => hlow hsame _ ?_
    have hread := (h i).reads_lt (reads_source hlast.writes.1 hcopied)
    omega

theorem launch_confined (entry : Fin 4 → UInt32) (table : Pid → Process) :
    Confined (launch entry) (fun i => {i.succ}) table := by
  constructor
  · intro i j hij p hi hj
    exact hij (Fin.succ_injective _ (hi.symm.trans hj))
  · intro i table' _ p hp
    exact Function.update_of_ne hp ..
  · intro i table' hsame p hp
    obtain rfl : p = i.succ := hp
    have hself : table' i.succ = table i.succ :=
      hsame i.succ fun j hji hj => hji (Fin.succ_injective _ hj).symm
    rw [launch, launch, Function.update_self, Function.update_self, hself]

theorem ofNat_succ_sub (i : Fin 4) : Int32.ofNat (i.succ : Pid) - 1 = programId i := by
  revert i
  decide

theorem startProcess_eq {m : Mem} {entry : UInt32}
    (h : programLoader ramimages (programId i) k.ram = .ok (m, entry)) :
    startProcess ramimages k i.succ = .ok { k with
      procArray := Function.update k.procArray i.succ
        (launched i.succ entry (k.procArray i.succ))
      ram := m } := by
  unfold startProcess
  simp only [Machine.setProc_ram, ofNat_succ_sub, h]
  simp [Machine.setProc, launched]

/-- What the loop has done to `k` when it has come to the programs in `done`. -/
structure Started (ramimages : Fin 4 → Ramimage) (k : Machine) (done : List (Fin 4))
    (k' : Machine) : Prop where
  ram : Merged (loaded ramimages) (fun i => {x | InSlot i x}) k.ram done k'.ram
  table : Merged (launch fun i => (readElf k.ram (ramimages i).begin).eEntry)
    (fun i => {i.succ}) k.procArray done k'.procArray
  current : k'.current = k.current
  algorithm : k'.schedulingAlgorithm = k.schedulingAlgorithm

theorem Started.step (h : KernelImages ramimages length k.ram) (hs : Started ramimages k done k')
    (hi : i ∉ done) : ∃ k'', startProcess ramimages k' i.succ = .ok k'' ∧
      Started ramimages k (i :: done) k'' := by
  have hsame : SameImage (ramimages i).begin (length i) k.ram k'.ram :=
    fun x hx => hs.ram.sameFor hi x fun j _ => (h i).not_inSlot hx j
  have hload := ((h i).congr hsame).loads.1
  rw [hsame.readElf_eq (h i).loadable] at hload
  refine ⟨_, startProcess_eq hload, ?_⟩
  exact {
    ram := hs.ram.step h.confined hi
    table := hs.table.step (launch_confined _ _) hi
    current := hs.current
    algorithm := hs.algorithm }

theorem Started.foldlM (h : KernelImages ramimages length k.ram) :
    ∀ (todo : List (Fin 4)) {done : List (Fin 4)} {k' : Machine}, Started ramimages k done k' →
      todo.Nodup → (∀ i ∈ todo, i ∉ done) →
      ∃ k'', (todo.map Fin.succ).foldlM (startProcess ramimages) k' = .ok k'' ∧
        Started ramimages k (todo.reverse ++ done) k''
  | [], done, k', hs, _, _ => ⟨k', rfl, hs⟩
  | i :: todo, done, k', hs, hnodup, hdone => by
    obtain ⟨hi, hnodup⟩ := List.nodup_cons.mp hnodup
    obtain ⟨k₁, hk₁, hs₁⟩ := hs.step h (hdone i List.mem_cons_self)
    have hdone' : ∀ j ∈ todo, j ∉ i :: done := by
      intro j hj hmem
      rcases List.mem_cons.mp hmem with rfl | hmem
      · exact hi hj
      · exact hdone j (List.mem_cons_of_mem _ hj) hmem
    rw [List.map_cons, List.foldlM_cons, hk₁, List.reverse_cons, List.append_assoc]
    exact Started.foldlM h todo hs₁ hnodup hdone'

theorem Started.unique {done' : List (Fin 4)} {k'' : Machine} (h : Started ramimages k done k')
    (h' : Started ramimages k done' k'') (hsame : ∀ i, i ∈ done ↔ i ∈ done') : k' = k'' := by
  have hram := h.ram.unique h'.ram hsame
  have htable := h.table.unique h'.table hsame
  have hcurrent := h.current.trans h'.current.symm
  have halgorithm := h.algorithm.trans h'.algorithm.symm
  cases k'
  cases k''
  simp_all

/-- **The order does not matter** in which the applications are loaded. -/
theorem KernelImages.start_order (h : KernelImages ramimages length k.ram) :
    ∃ done k', (∀ i, i ∈ done) ∧ Started ramimages k done k' ∧
      ∀ order : List (Fin 4), order.Perm (List.finRange 4) →
        (order.map Fin.succ).foldlM (startProcess ramimages) k = .ok k' := by
  have hall : ∀ order : List (Fin 4), order.Perm (List.finRange 4) →
      ∃ k', (order.map Fin.succ).foldlM (startProcess ramimages) k = .ok k' ∧
        Started ramimages k (order.reverse ++ []) k' := fun order horder =>
    Started.foldlM h order ⟨.nil, .nil, rfl, rfl⟩
      (horder.nodup_iff.mpr (List.nodup_finRange 4)) fun _ _ => List.not_mem_nil
  have hmem : ∀ order : List (Fin 4), order.Perm (List.finRange 4) →
      ∀ i, i ∈ order.reverse ++ [] := by
    intro order horder i
    rw [List.append_nil, List.mem_reverse, horder.mem_iff]
    exact List.mem_finRange i
  obtain ⟨k', -, hk'⟩ := hall (List.finRange 4) (List.Perm.refl _)
  refine ⟨_, k', hmem _ (List.Perm.refl _), hk', fun order horder => ?_⟩
  obtain ⟨k'', hfold, hk''⟩ := hall order horder
  rw [hfold, hk'.unique hk'' fun i => iff_of_true (hmem _ (List.Perm.refl _) i)
    (hmem order horder i)]

/-- This is the order in `start`. -/
example : (List.finRange 4).map Fin.succ = ([1, 2, 3, 4] : List Pid) := by decide

end Loop

/-- Loading one application does not disturb the others. -/
structure LoadsApart (ramimages : Fin 4 → Ramimage) (length : Fin 4 → Nat) (k : Machine) :
    Prop where
  /-- A loader changes its own slot only. -/
  frame : ∀ i, (∃ entry, programLoader ramimages (programId i) k.ram
      = .ok (loaded ramimages i k.ram, entry)) ∧
    ∀ x, ¬ InSlot i x → loaded ramimages i k.ram x = k.ram x
  /-- In whatever order `start` loads the four applications, in each slot there is what its own
  loader alone would have left there. -/
  order : ∃ k', (∀ i x, InSlot i x → k'.ram x = loaded ramimages i k.ram x) ∧
    (∀ x, (∀ i, ¬ InSlot i x) → k'.ram x = k.ram x) ∧
    ∀ order : List (Fin 4), order.Perm (List.finRange 4) →
      (order.map Fin.succ).foldlM (startProcess ramimages) k = .ok k'
  /-- That depends on the image and on what has been in the slot, and on nothing else. -/
  own : ∀ i m', SameImage (ramimages i).begin (length i) k.ram m' →
    (∀ x, InSlot i x → m' x = k.ram x) →
    ∀ x, InSlot i x → loaded ramimages i m' x = loaded ramimages i k.ram x

/-- **When loading an application does not disturb the others.** Whatever the images, a loader
keeps to its slot. With the images in the kernel, the order of loading makes no difference; but a
slot is up to its own application exactly if nothing that is left in it has been copied from behind
the end of the image. -/
theorem loads_apart_iff (ramimages : Fin 4 → Ramimage) :
    (∀ m L i, SlotImage m (ramimages i).begin L i →
      (∀ x, InSpan (ramimages i).begin L x → ¬ InSlot i x) →
      ∃ m' entry, programLoader ramimages (programId i) m = .ok (m', entry) ∧
        ∀ x, ¬ InSlot i x → m' x = m x) ∧
    ∀ length k, KernelImages ramimages length k.ram →
      (LoadsApart ramimages length k ↔
        ∀ i x, ¬ Overread k.ram (ramimages i).begin (length i) x) := by
  refine ⟨fun m L i h hout => ?_, fun length k h => ⟨fun hapart i => ?_, fun hnot => ?_⟩⟩
  · obtain ⟨m', hok, hframe⟩ := h.frame hout
    exact ⟨m', _, hok, hframe⟩
  · exact (h i).own_iff.mp (hapart.own i)
  · obtain ⟨done, k', hdone, hstarted, horder⟩ := h.start_order
    exact {
      frame := fun i => ⟨⟨_, (h i).loads.1⟩, fun x hx => (h i).loaded_frame hx⟩
      order := ⟨k', fun i x hx => hstarted.ram.inside i (hdone i) x hx,
        fun x hx => hstarted.ram.outside x fun i _ => hx i, horder⟩
      own := fun i => (h i).own_iff.mpr (hnot i) }

/-! ## Four images -/

attribute [local semireducible] oneSegment

/-- The image with one segment, and at `0x120000` the header of an image without segments. -/
def fourImages (va : UInt32) : Mem := writeU32 (oneSegment va) 0x120000 elfMagic

/-- The first application has the image with the segment, which ends with its only byte. -/
def fourRamimages (i : Fin 4) : Ramimage :=
  if i = 0 then ⟨0x110000, 0x110055⟩ else ⟨0x120000, 0x120034⟩

/-- The lengths of the images. -/
def fourLengths (i : Fin 4) : Nat := if i = 0 then 85 else 52

/-- The headers of these images. -/
structure FourImages (va : UInt32) : Prop where
  elf : readElf (fourImages va) 0x110000 = ⟨elfMagic, 0, 52, 1⟩
  segment : progHeader (fourImages va) 0x110000 0 = ⟨elfProgLoad, 84, va, 1, 1⟩
  bare : readElf (fourImages va) 0x120000 = ⟨elfMagic, 0, 0, 0⟩

theorem fourImages_aligned : FourImages 0x200000 := ⟨by decide, by decide, by decide⟩

theorem fourImages_unaligned : FourImages 0x200054 := ⟨by decide, by decide, by decide⟩

attribute [irreducible] fourImages

section FourImages

variable {va : UInt32}

theorem FourImages.isLoad (h : FourImages va) {n : Nat} :
    IsLoad (fourImages va) 0x110000 n ↔ n = 0 := by
  unfold IsLoad
  rw [h.elf]
  constructor
  · exact fun hn => Nat.lt_one_iff.mp hn.1
  · rintro rfl
    rw [h.segment]
    exact ⟨Nat.one_pos, rfl⟩

theorem FourImages.written_eq (h : FourImages va) : written (fourImages va) 0x110000 0 = 1 := by
  rw [written, h.segment]
  exact ite_self _

theorem FourImages.kernelImage (h : FourImages va) (hlow : 0x200000 ≤ va.toNat)
    (hhigh : va.toNat + 1 ≤ 0x300000) : KernelImage (fourImages va) 0x110000 85 0 where
  fits := by decide
  magic := by rw [h.elf]
  header := by decide
  table := by
    rw [h.elf]
    decide
  filesz_le n hn := by rw [h.isLoad.mp hn, h.segment]
  in_slot n hn := by
    rw [h.isLoad.mp hn, h.segment]
    exact ⟨hlow, hhigh⟩
  below := by decide
  inside n hn := by
    rw [h.isLoad.mp hn, h.segment]
    show 84 + 1 ≤ 85
    decide

theorem FourImages.not_isLoad (h : FourImages va) (n : Nat) :
    ¬ IsLoad (fourImages va) 0x120000 n := by
  rintro ⟨hn, -⟩
  rw [h.bare] at hn
  exact Nat.not_lt_zero n hn

theorem FourImages.bareImage (h : FourImages va) (i : Fin 4) :
    KernelImage (fourImages va) 0x120000 52 i where
  fits := by decide
  magic := by rw [h.bare]
  header := by decide
  table := by
    rw [h.bare]
    decide
  filesz_le n hn := absurd hn (h.not_isLoad n)
  in_slot n hn := absurd hn (h.not_isLoad n)
  below := by decide
  inside n hn := absurd hn (h.not_isLoad n)

theorem FourImages.kernelImages (h : FourImages va) (hlow : 0x200000 ≤ va.toNat)
    (hhigh : va.toNat + 1 ≤ 0x300000) :
    KernelImages fourRamimages fourLengths (fourImages va) := by
  intro i
  unfold fourRamimages fourLengths
  split
  · next hi =>
    rw [hi]
    exact h.kernelImage hlow hhigh
  · exact h.bareImage i

end FourImages

/-- A machine with these images in its memory. -/
def fourMachine (va : UInt32) : Machine := ⟨fun _ => .zero, 0, 0, fourImages va⟩

/-- With the segment on a page boundary, its byte is all that is copied. -/
theorem loads_apart_aligned : LoadsApart fourRamimages fourLengths (fourMachine 0x200000) := by
  have h := fourImages_aligned
  have himages : KernelImages fourRamimages fourLengths (fourMachine 0x200000).ram :=
    h.kernelImages (by decide) (by decide)
  refine ((loads_apart_iff fourRamimages).2 _ _ himages).mpr fun i =>
    (himages i).not_overread_of_aligned fun n hn => ?_
  by_cases hi : i = 0
  · subst hi
    obtain rfl : n = 0 := h.isLoad.mp hn
    show pageOffset (progHeader (fourImages 0x200000) 0x110000 0).pVa = 0
    rw [h.segment]
    rfl
  · refine absurd hn ?_
    rw [show (fourRamimages i).begin = 0x120000 by rw [fourRamimages, if_neg hi]]
    exact h.not_isLoad n

/-- At `0x200054`, where the segment has been moved to, the 84 bytes behind the image are copied
as well. -/
theorem loads_apart_overrun :
    KernelImages fourRamimages fourLengths (fourMachine 0x200054).ram ∧
      ¬ LoadsApart fourRamimages fourLengths (fourMachine 0x200054) := by
  have h := fourImages_unaligned
  have himages : KernelImages fourRamimages fourLengths (fourMachine 0x200054).ram :=
    h.kernelImages (by decide) (by decide)
  refine ⟨himages, fun hapart => ?_⟩
  have hload : IsLoad (fourImages 0x200054) 0x110000 0 := h.isLoad.mpr rfl
  have hover : Overread (fourImages 0x200054) 0x110000 85 0x200001 := by
    refine ⟨0, ⟨⟨hload, ?_⟩, fun n hn hw => absurd (h.isLoad.mp hw.1) (Nat.ne_of_gt hn)⟩, ?_, ?_⟩
    · rw [h.written_eq, h.segment]
      decide
    · rw [Copied, h.segment]
      decide
    · rw [source, h.segment]
      decide
  exact (himages 0).own_iff.mp (hapart.own 0) 0x200001 hover

end SchedOS
