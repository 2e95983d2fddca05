import SchedOS.Boot.Bootstart
import SchedOS.Infra.Progress
import SchedOS.Properties.Segments

/-!
# Into protected mode

Between the ports `bootstart.S` is straight-line code, and is executed here as such (`execs`); at
the ports it waits for the keyboard controller, which comes round to its work sooner or later.

* `segBytes_eq` — the segment descriptors of the boot sector and those of the kernel are laid out in
  the same way
* `enters_protected_mode` — `bootmain` is called in protected mode, with the flat memory that it
  takes for granted, and with address line 20 about to be let through
-/

namespace SchedOS

open Infra Filter

/-! ## Registers -/

theorem setLow16_toUInt16 (r : UInt32) (v : UInt16) : (setLow16 r v).toUInt16 = v := by
  have hmask : (0xFFFF0000 : UInt32).toUInt16 = 0 := rfl
  rw [setLow16, UInt32.toUInt16_or, UInt32.toUInt16_and, hmask, UInt16.and_zero, UInt16.zero_or,
    UInt16.toUInt16_toUInt32]

@[simp] theorem setLow16_setWidth (r : UInt32) (v : UInt16) :
    (setLow16 r v).toBitVec.setWidth 16 = v.toBitVec :=
  congrArg UInt16.toBitVec (setLow16_toUInt16 r v)

@[simp] theorem setLow8_toUInt8 (r : UInt32) (v : UInt8) : (setLow8 r v).toUInt8 = v := by
  have hmask : (0xFFFFFF00 : UInt32).toUInt8 = 0 := rfl
  rw [setLow8, UInt32.toUInt8_or, UInt32.toUInt8_and, hmask, UInt8.and_zero, UInt8.zero_or,
    UInt8.toUInt8_toUInt32]

/-- Protected mode is on. -/
@[simp] theorem or_cr0PeOn_and (cr0 : UInt32) : (cr0 ||| cr0PeOn) &&& cr0PeOn = cr0PeOn := by
  refine UInt32.eq_of_toBitVec_eq (BitVec.eq_of_getElem_eq fun i hi => ?_)
  simpa using fun hbit => Or.inr hbit

/-! ## Descriptors -/

theorem toNat_assigned (w : Nat) (x : UInt32) : (assigned w x).toNat = x.toNat % 2 ^ w := by
  rw [assigned, BitVec.toNat_setWidth, UInt32.toNat_toBitVec]

/-- Four bits below the bits that the macro gives. -/
theorem toNat_or_low4 {high x : UInt32} {a : Nat} (hhigh : high.toNat = 2 ^ 4 * a) (ha : a < 16)
    (hx : x < 16) : (high ||| x).toUInt8.toNat = 16 * a + x.toNat % 16 := by
  have hlt : x.toNat < 2 ^ 4 := UInt32.lt_iff_toNat_lt.mp hx
  rw [UInt32.toNat_toUInt8, UInt32.toNat_or, hhigh, ← Nat.two_pow_add_eq_or_of_lt hlt]
  omega

/-- **The two macros agree.** The one for the assembler gives no level of privilege, and relies on
the type to be one. -/
theorem segBytes_eq {type : UInt32} (htype : type < 16) (base lim : UInt32) :
    ofLE (segBytes type base lim) = pack (seg type base lim 0).fields := by
  have hlim : (lim >>> 28) &&& 0xF < 16 := by
    rw [UInt32.lt_iff_toNat_lt, UInt32.toNat_and]
    exact Nat.lt_succ_of_le Nat.and_le_right
  have htop := toNat_or_low4 (show (0x90 : UInt32).toNat = 2 ^ 4 * 9 from rfl) (by decide) htype
  have hhigh := toNat_or_low4 (show (0xC0 : UInt32).toNat = 2 ^ 4 * 12 from rfl) (by decide) hlim
  simp only [segBytes, List.append_assoc, ofLE_append, ofLE_leBytes, length_leBytes, ofLE, htop,
    hhigh]
  simp only [seg, Segmentdescriptor.fields, pack, toNat_assigned, UInt32.toNat_toUInt8]
  generalize (lim >>> 12 &&& 0xFFFF).toNat = l₀
  generalize (lim >>> 28 &&& 0xF).toNat = l₁
  generalize (base &&& 0xFFFF).toNat = b₀
  generalize (base >>> 16 &&& 0xFF).toNat = b₁
  generalize (base >>> 24 &&& 0xFF).toNat = b₂
  have hzero : (0 : UInt32).toNat = 0 := rfl
  rw [hzero]
  simp
  omega

/-- The boot sector has been read, and is linked to where it has been read. -/
structure BootSector (m : Mem) (symbols : BootSymbols) : Prop where
  gdt : Holds m symbols.gdt bootGdt
  gdtdesc : Holds m symbols.gdtdesc.toUInt32 (bootGdtdesc symbols.gdt)
  /-- In real mode `lgdt` has no more bits for it. -/
  low : symbols.gdt.toNat < 2 ^ 24

section Tables

variable {m : Mem} {symbols : BootSymbols} (h : BootSector m symbols) (t : Tables)
include h

theorem BootSector.gdtLimit : (t.lgdt m symbols.gdtdesc.toUInt32).gdtLimit = 0x17 := by
  have hread := h.gdtdesc.read (d := 0) (n := 2) (by simp [bootGdtdesc])
  rw [UInt32.add_zero] at hread
  have hbytes : ofLE (((bootGdtdesc symbols.gdt).drop (0 : UInt32).toNat).take 2) = 0x17 := rfl
  show (readU16 m symbols.gdtdesc.toUInt32).toNat = 0x17
  rw [readU16, hread, hbytes]
  rfl

theorem BootSector.base : readU32 m (symbols.gdtdesc.toUInt32 + 2) &&& 0xFFFFFF = symbols.gdt := by
  have hread := h.gdtdesc.read (d := 2) (n := 4) (by simp [bootGdtdesc])
  have hbytes : ((bootGdtdesc symbols.gdt).drop (2 : UInt32).toNat).take 4
      = leBytes 4 symbols.gdt.toNat := rfl
  have hlow := h.low
  rw [readU32, hread, hbytes, ofLE_leBytes, show 256 ^ 4 = 2 ^ 32 from rfl,
    Nat.mod_eq_of_lt symbols.gdt.toNat_lt, UInt32.ofNat_toNat]
  refine UInt32.toNat_inj.mp ?_
  rw [UInt32.toNat_and, show (0xFFFFFF : UInt32).toNat = 2 ^ 24 - 1 from rfl,
    Nat.and_two_pow_sub_one_eq_mod, Nat.mod_eq_of_lt hlow]

/-- A descriptor of the table, as it has been assembled. -/
theorem BootSector.gdt_eq {i : Nat} (hi : i < 3) :
    (t.lgdt m symbols.gdtdesc.toUInt32).gdt i = ofLE ((bootGdt.drop (8 * i)).take 8) := by
  have hd : (8 * UInt32.ofNat i).toNat = 8 * i := by
    rw [UInt32.toNat_mul, UInt32.toNat_ofNat']
    show 8 * (i % 2 ^ 32) % 2 ^ 32 = 8 * i
    omega
  have hlength : bootGdt.length = 24 := by decide
  have hread := h.gdt.read (d := 8 * UInt32.ofNat i) (n := 8) (by omega)
  rw [hd] at hread
  show ofLE (readBytes m (_ + 8 * UInt32.ofNat i) 8) = _
  rw [h.base, hread]

theorem BootSector.lookup {i : Nat} (hi : i < 3) (hne : i ≠ 0) {sel : BitVec 16}
    (hindex : (cut sel.toNat 3 13).toNat = i) (hti : cut sel.toNat 2 1 = 0) :
    (t.lgdt m symbols.gdtdesc.toUInt32).lookup sel
      = some (readSegment (ofLE ((bootGdt.drop (8 * i)).take 8))) := by
  have hinside : ¬ 0x17 < 8 * i + 7 := by omega
  unfold Tables.lookup
  rw [hindex, hti, h.gdtLimit]
  dsimp only
  rw [h.gdt_eq t hi, if_neg (by simp [hne, hinside])]

theorem BootSector.lookup_code :
    (t.lgdt m symbols.gdtdesc.toUInt32).lookup 0x8 = some (flatSegment 0xA 0) := by
  have hbytes : (bootGdt.drop (8 * 1)).take 8 = segBytes (staX ||| staR) 0 0xFFFFFFFF := by decide
  rw [h.lookup t (i := 1) (by decide) (by decide) (by decide) (by decide), hbytes,
    segBytes_eq (by decide), readSegment_flat]
  rfl

theorem BootSector.lookup_data :
    (t.lgdt m symbols.gdtdesc.toUInt32).lookup 0x10 = some (flatSegment 0x2 0) := by
  have hbytes : (bootGdt.drop (8 * 2)).take 8 = segBytes staW 0 0xFFFFFFFF := by decide
  rw [h.lookup t (i := 2) (by decide) (by decide) (by decide) (by decide), hbytes,
    segBytes_eq (by decide), readSegment_flat]
  rfl

end Tables

/-! ## Straight-line code -/

/-- `k` instructions, none of which uses a port. -/
def BootCpu.execs (m : Mem) (symbols : BootSymbols) : Nat → BootCpu → Option BootCpu
  | 0, s => some s
  | k + 1, s => (s.exec m symbols).bind (execs m symbols k)

/-- `bootmain` can be called; `s₀` is the state in which the BIOS has left the processor. It has
left the upper half of `%esp`, too. -/
structure BootCpu.Ready (s₀ s : BootCpu) : Prop where
  pc : s.pc = .callBootmain
  interruptFlag : s.interruptFlag = false
  directionFlag : s.directionFlag = false
  cr0 : s.cr0 = s₀.cr0 ||| cr0PeOn
  esp : s.esp = setLow16 s₀.esp startAddr
  cs : s.cs = ⟨0x8, flatSegment 0xA 0⟩
  data : ∀ r ∈ [s.ds, s.es, s.fs, s.gs, s.ss], r = ⟨0x10, flatSegment 0x2 0⟩

/-- The state in which the first loop begins. -/
def BootCpu.atSeta20 (s : BootCpu) : BootCpu :=
  { s with
    pc := .inStatus1
    eax := setLow16 s.eax 0
    esp := setLow16 s.esp startAddr
    interruptFlag := false
    directionFlag := false
    ds := s.ds.loadReal 0
    es := s.es.loadReal 0
    ss := s.ss.loadReal 0 }

/-- The state in which `bootmain` is called. -/
def BootCpu.atCallBootmain (m : Mem) (symbols : BootSymbols) (s : BootCpu) : BootCpu :=
  { s with
    pc := .callBootmain
    eax := setLow16 (s.cr0 ||| cr0PeOn) segselBootData
    cr0 := s.cr0 ||| cr0PeOn
    interruptFlag := false
    cs := ⟨0x8, flatSegment 0xA 0⟩
    ds := ⟨0x10, flatSegment 0x2 0⟩
    es := ⟨0x10, flatSegment 0x2 0⟩
    fs := ⟨0x10, flatSegment 0x2 0⟩
    gs := ⟨0x10, flatSegment 0x2 0⟩
    ss := ⟨0x10, flatSegment 0x2 0⟩
    tables := s.tables.lgdt m symbols.gdtdesc.toUInt32 }

section Blocks

variable {m : Mem} {symbols : BootSymbols} {s : BootCpu}

theorem execs_start (hpc : s.pc = .cli) (hreal : s.cr0 &&& cr0PeOn = 0) :
    s.execs m symbols 7 = some s.atSeta20 := by
  simp [BootCpu.execs, BootCpu.exec, BootCpu.loadData, BootCpu.loadStack, BootCpu.atSeta20, hpc,
    hreal]

/-- The segments of the boot sector can be loaded. -/
theorem BootSector.jump (h : BootSector m symbols) (t : Tables) :
    (t.lgdt m symbols.gdtdesc.toUInt32).jump 0 segselBootCode
      = some ⟨0x8, flatSegment 0xA 0⟩ := by
  have hlookup : (t.lgdt m symbols.gdtdesc.toUInt32).lookup segselBootCode = _ := h.lookup_code t
  simp only [Tables.jump, hlookup, Option.bind_eq_bind, Option.bind_some]
  rw [if_pos (by decide)]
  rfl

theorem BootSector.loadStack (h : BootSector m symbols) (t : Tables) :
    (t.lgdt m symbols.gdtdesc.toUInt32).loadStack 0 segselBootData.toBitVec
      = some ⟨0x10, flatSegment 0x2 0⟩ := by
  have hlookup : (t.lgdt m symbols.gdtdesc.toUInt32).lookup segselBootData.toBitVec = _ :=
    h.lookup_data t
  simp only [Tables.loadStack, hlookup, Option.bind_eq_bind, Option.bind_some]
  rw [if_pos (by decide)]
  rfl

theorem BootSector.loadData (h : BootSector m symbols) (t : Tables) (r : SegmentRegister) :
    r.loadData (t.lgdt m symbols.gdtdesc.toUInt32) 0 segselBootData.toBitVec
      = some ⟨0x10, flatSegment 0x2 0⟩ := by
  have hlookup : (t.lgdt m symbols.gdtdesc.toUInt32).lookup segselBootData.toBitVec = _ :=
    h.lookup_data t
  have hloads : (t.lgdt m symbols.gdtdesc.toUInt32).LoadsData 0 segselBootData.toBitVec := by
    rw [Tables.LoadsData, hlookup]
    decide
  rw [SegmentRegister.loadData, if_pos hloads, hlookup]
  rfl

theorem execs_realToProt (h : BootSector m symbols) (hpc : s.pc = .realToProt)
    (hbase : s.ds.view.base = 0) :
    s.execs m symbols 12 = some (s.atCallBootmain m symbols) := by
  have hpe : (s.cr0 ||| cr0PeOn) &&& cr0PeOn ≠ 0 := by
    rw [or_cr0PeOn_and]
    decide
  have hgdtdesc : UInt32.ofBitVec 0 + symbols.gdtdesc.toUInt32 = symbols.gdtdesc.toUInt32 :=
    UInt32.zero_add _
  simp only [BootCpu.execs, BootCpu.exec, BootCpu.loadData, BootCpu.loadStack, hpc, hbase,
    hgdtdesc, Option.bind_eq_bind, Option.bind_some, h.jump, h.loadData, h.loadStack, hpe,
    setLow16_toUInt16, if_false]
  rfl

end Blocks

/-! ## Runs -/

section Runs

variable {m : Mem} {symbols : BootSymbols} {s₀ : Bootstart} {beats : Nat → BootBeat} {t : BootBeat}
  {s s' : BootCpu} {c c' : KeyboardController} {n : Nat}

theorem bootstart_succ (n : Nat) : bootstart m symbols s₀ beats (n + 1)
    = (bootstart m symbols s₀ beats n).bind (Bootstart.step m symbols (beats n)) := rfl

/-- The controller at the next instruction. -/
def BootBeat.next (t : BootBeat) (c : KeyboardController) : KeyboardController :=
  if t.take then c.take else c

theorem BootBeat.later_next (t : BootBeat) (h : KeyboardController.Later c c') :
    KeyboardController.Later c (t.next c') := by
  unfold BootBeat.next
  split
  · exact h.take
  · exact h

theorem step_of_exec (h : s.exec m symbols = some s') :
    Bootstart.step m symbols t ⟨s, c⟩ = some ⟨s', t.next c⟩ := by
  unfold Bootstart.step
  dsimp only
  split
  case h_5 =>
    rw [h]
    rfl
  -- the others use a port
  all_goals
    next hpc =>
      rw [BootCpu.exec, hpc] at h
      cases h

theorem run_execs : ∀ (k : Nat) {s : BootCpu} {c : KeyboardController} {n : Nat},
    bootstart m symbols s₀ beats n = some ⟨s, c⟩ → s.execs m symbols k = some s' →
      ∃ c', KeyboardController.Later c c' ∧
        bootstart m symbols s₀ beats (n + k) = some ⟨s', c'⟩
  | 0, s, c, n, hrun, hexecs => by
    cases hexecs
    exact ⟨c, .refl c, hrun⟩
  | k + 1, s, c, n, hrun, hexecs => by
    obtain ⟨s₁, hs₁, hrest⟩ := Option.bind_eq_some_iff.mp hexecs
    have hnext : bootstart m symbols s₀ beats (n + 1) = some ⟨s₁, (beats n).next c⟩ := by
      rw [bootstart_succ, hrun]
      exact step_of_exec hs₁
    obtain ⟨c', hlater, hrun'⟩ := run_execs k hnext hrest
    refine ⟨c', ((beats n).later_next (.refl c)).trans hlater, ?_⟩
    rw [Nat.add_comm k 1, ← Nat.add_assoc]
    exact hrun'

/-! ### Waiting for the controller -/

/-- One of the two loops that wait until the input buffer is empty: the instructions, and where the
loop is left. -/
structure IsPoll (m : Mem) (symbols : BootSymbols) (inStatus testBusy next : BootPc) : Prop where
  read : ∀ {t : BootBeat} {s : BootCpu} {c : KeyboardController}, s.pc = inStatus →
    Bootstart.step m symbols t ⟨s, c⟩ = some
      ⟨{ s with pc := testBusy, eax := setLow8 s.eax ((t.next c).status t.others) }, t.next c⟩
  test : ∀ {s : BootCpu}, s.pc = testBusy → s.exec m symbols =
    some { s with pc := if s.eax.toUInt8 &&& 2 ≠ 0 then inStatus else next }

theorem isPoll1 : IsPoll m symbols .inStatus1 .testBusy1 .movCommand where
  read {t s c} hpc := by
    simp only [Bootstart.step, hpc]
    rfl
  test hpc := by simp only [BootCpu.exec, hpc]

theorem isPoll2 : IsPoll m symbols .inStatus2 .testBusy2 .movEnable where
  read {t s c} hpc := by
    simp only [Bootstart.step, hpc]
    rfl
  test hpc := by simp only [BootCpu.exec, hpc]

/-- In the loop, after `s` and `c` before it. -/
inductive Polling (inStatus testBusy : BootPc) (s : BootCpu) (c : KeyboardController) :
    Option Bootstart → Prop where
  | read {eax : UInt32} {c' : KeyboardController} (h : KeyboardController.Later c c') :
    Polling inStatus testBusy s c (some ⟨{ s with pc := inStatus, eax }, c'⟩)
  | test {eax : UInt32} {c' : KeyboardController} (h : KeyboardController.Later c c')
    (heax : eax.toUInt8 &&& 2 = 0 → c'.input = none) :
    Polling inStatus testBusy s c (some ⟨{ s with pc := testBusy, eax }, c'⟩)

/-- Behind the loop. -/
def Polled (next : BootPc) (s : BootCpu) (c : KeyboardController) (x : Option Bootstart) : Prop :=
  ∃ eax c', KeyboardController.Later c c' ∧ c'.input = none ∧
    x = some ⟨{ s with pc := next, eax }, c'⟩

variable {inStatus testBusy next : BootPc} {x : Option Bootstart}

theorem BootBeat.next_input (t : BootBeat) (h : c.input = none) : (t.next c).input = none := by
  rw [(t.later_next (.refl c)).eq_of_ready h]
  exact h

section Poll

variable (h : IsPoll m symbols inStatus testBusy next)
include h

/-- The loop is left. -/
theorem IsPoll.leave {eax : UInt32} (hlater : KeyboardController.Later c c')
    (hinput : c'.input = none) (hbusy : eax.toUInt8 &&& 2 = 0) (t : BootBeat) :
    Polled next s c (Bootstart.step m symbols t ⟨{ s with pc := testBusy, eax }, c'⟩) := by
  rw [step_of_exec (h.test rfl)]
  dsimp only
  rw [if_neg (not_not_intro hbusy)]
  exact ⟨eax, _, t.later_next hlater, t.next_input hinput, rfl⟩

theorem IsPoll.step (t : BootBeat) (hx : Polling inStatus testBusy s c x) :
    Polling inStatus testBusy s c (x.bind (Bootstart.step m symbols t)) ∨
      Polled next s c (x.bind (Bootstart.step m symbols t)) := by
  cases hx with
  | @read eax c' hlater =>
    left
    rw [Option.bind_some, h.read rfl]
    refine .test (t.later_next hlater) fun hbusy => ?_
    rwa [setLow8_toUInt8, KeyboardController.status_busy] at hbusy
  | @test eax c' hlater heax =>
    by_cases hbusy : eax.toUInt8 &&& 2 = 0
    · exact Or.inr (h.leave hlater (heax hbusy) hbusy t)
    · left
      rw [Option.bind_some, step_of_exec (h.test rfl)]
      dsimp only
      rw [if_pos hbusy]
      exact .read (t.later_next hlater)

/-- Who finds the buffer empty is through in two steps. -/
theorem IsPoll.leave_read {eax : UInt32} (hlater : KeyboardController.Later c c')
    (hinput : ((beats n).next c').input = none)
    (hrun : bootstart m symbols s₀ beats n = some ⟨{ s with pc := inStatus, eax }, c'⟩) :
    Polled next s c (bootstart m symbols s₀ beats (n + 2)) := by
  rw [bootstart_succ, bootstart_succ, hrun, Option.bind_some, h.read rfl, Option.bind_some]
  refine h.leave ((beats n).later_next hlater) hinput ?_ _
  rwa [setLow8_toUInt8, KeyboardController.status_busy]

/-- **Waiting ends**, if the controller goes on with its work. -/
theorem IsPoll.polled (hoften : ∃ᶠ n in atTop, (beats n).take = true) (hpc : s.pc = inStatus)
    (hrun : bootstart m symbols s₀ beats n = some ⟨s, c⟩) :
    ∃ k, Polled next s c (bootstart m symbols s₀ beats k) := by
  by_contra hnone
  have hx : Polling inStatus testBusy s c (bootstart m symbols s₀ beats n) := by
    rw [hrun, ← hpc]
    exact .read (.refl c)
  have hpolling : ∀ d, Polling inStatus testBusy s c (bootstart m symbols s₀ beats (n + d)) := by
    intro d
    induction d with
    | zero => exact hx
    | succ d ih =>
      rcases h.step (beats (n + d)) ih with hstay | hleft
      · exact hstay
      · exact absurd ⟨n + d + 1, hleft⟩ hnone
  obtain ⟨j, hj, htake⟩ := frequently_atTop.mp hoften n
  obtain ⟨d, rfl⟩ := Nat.exists_eq_add_of_le hj
  have hempty : ∀ c', ((beats (n + d)).next c').input = none := by
    intro c'
    rw [BootBeat.next, if_pos htake]
    exact KeyboardController.take_input
  -- the controller takes the byte in this step
  have hnow := hpolling d
  generalize hrun' : bootstart m symbols s₀ beats (n + d) = x at hnow
  cases hnow with
  | @read eax c' hlater => exact hnone ⟨_, h.leave_read hlater (hempty c') hrun'⟩
  | @test eax c' hlater heax =>
    by_cases hbusy : eax.toUInt8 &&& 2 = 0
    · refine hnone ⟨n + d + 1, ?_⟩
      rw [bootstart_succ, hrun']
      exact h.leave hlater (heax hbusy) hbusy _
    · have hnext : bootstart m symbols s₀ beats (n + d + 1)
          = some ⟨{ s with pc := inStatus, eax }, (beats (n + d)).next c'⟩ := by
        rw [bootstart_succ, hrun', Option.bind_some, step_of_exec (h.test rfl)]
        dsimp only
        rw [if_pos hbusy]
      have hinput := (beats (n + d + 1)).next_input (hempty c')
      exact hnone ⟨_, h.leave_read ((beats (n + d)).later_next hlater) hinput hnext⟩

end Poll

/-! ### Talking to the controller -/

/-- The two instructions that output `b`. -/
structure IsOutb (m : Mem) (symbols : BootSymbols) (mov out next : BootPc) (isCommand : Bool)
    (b : UInt8) : Prop where
  mov : ∀ {s : BootCpu}, s.pc = mov → s.exec m symbols =
    some { s with pc := out, eax := setLow8 s.eax b }
  out : ∀ {t : BootBeat} {s : BootCpu} {c : KeyboardController}, s.pc = out →
    Bootstart.step m symbols t ⟨s, c⟩ = some
      ⟨{ s with pc := next }, (t.next c).outb isCommand s.eax.toUInt8⟩

theorem isOutb1 : IsOutb m symbols .movCommand .outCommand .inStatus2 true 0xD1 where
  mov hpc := by simp only [BootCpu.exec, hpc]
  out hpc := by
    simp only [Bootstart.step, hpc]
    rfl

theorem isOutb2 : IsOutb m symbols .movEnable .outEnable .realToProt false 0xDF where
  mov hpc := by simp only [BootCpu.exec, hpc]
  out hpc := by
    simp only [Bootstart.step, hpc]
    rfl

/-- **A byte is output when there is room for it.** -/
theorem IsOutb.run {mov out : BootPc} {isCommand : Bool} {b : UInt8}
    (h : IsOutb m symbols mov out next isCommand b)
    (hpolled : Polled mov s c (bootstart m symbols s₀ beats n)) :
    ∃ eax c', KeyboardController.Later c c' ∧ c'.input = none ∧
      bootstart m symbols s₀ beats (n + 2)
        = some ⟨{ s with pc := next, eax }, c'.outb isCommand b⟩ := by
  obtain ⟨eax, c', hlater, hinput, hrun⟩ := hpolled
  have hsame : ∀ t : BootBeat, t.next c' = c' := fun t =>
    (t.later_next (.refl c')).eq_of_ready hinput
  refine ⟨setLow8 eax b, c', hlater, hinput, ?_⟩
  rw [bootstart_succ, bootstart_succ, hrun, Option.bind_some, step_of_exec (h.mov rfl),
    Option.bind_some, h.out rfl, hsame, hsame]
  dsimp only
  rw [setLow8_toUInt8]

/-! ### From the BIOS to `bootmain` -/

theorem exec_callBootmain (hpc : s.pc = .callBootmain) : s.exec m symbols = some s := by
  simp only [BootCpu.exec, hpc]

theorem execs_callBootmain (hpc : s.pc = .callBootmain) : ∀ k, s.execs m symbols k = some s
  | 0 => rfl
  | k + 1 => by
    rw [BootCpu.execs, exec_callBootmain hpc, Option.bind_some, execs_callBootmain hpc k]

/-- What has been output is never lost. -/
theorem exists_callBootmain (h : BootSector m symbols) (hpc : s₀.cpu.pc = .cli)
    (hreal : s₀.cpu.cr0 &&& cr0PeOn = 0) (hoften : ∃ᶠ n in atTop, (beats n).take = true) :
    ∃ n s c, bootstart m symbols s₀ beats n = some ⟨s, c⟩ ∧ s₀.cpu.Ready s ∧
      c.overrun = s₀.controller.overrun ∧ c.take.outputPort = 0xDF := by
  have hrun₀ : bootstart m symbols s₀ beats 0 = some ⟨s₀.cpu, s₀.controller⟩ := rfl
  obtain ⟨c₁, h₁, hrun₁⟩ := run_execs 7 hrun₀ (execs_start hpc hreal)
  obtain ⟨k₂, hpolled₂⟩ := isPoll1.polled hoften rfl hrun₁
  obtain ⟨eax₂, c₂, h₂, hinput₂, hrun₂⟩ := isOutb1.run hpolled₂
  obtain ⟨k₃, hpolled₃⟩ := isPoll2.polled hoften rfl hrun₂
  obtain ⟨eax₃, c₃, h₃, hinput₃, hrun₃⟩ := isOutb2.run hpolled₃
  obtain ⟨c₄, h₄, hrun₄⟩ := run_execs 12 hrun₃ (execs_realToProt h rfl rfl)
  obtain ⟨hoverrun, hport⟩ := KeyboardController.command_data hinput₂ 0xDF h₃ hinput₃
  refine ⟨_, _, c₄, hrun₄, ?_, ?_, ?_⟩
  · exact ⟨rfl, rfl, rfl, rfl, rfl, rfl, by simp [BootCpu.atCallBootmain]⟩
  · rw [h₄.overrun, hoverrun, h₂.overrun, h₁.overrun]
  · rw [h₄.take_eq, hport]

end Runs

/-- Every segment register stands for all of the memory. -/
def BootCpu.Flat (s : BootCpu) : Prop :=
  ∀ r ∈ [s.cs, s.ds, s.es, s.fs, s.gs, s.ss], r.view.Flat

theorem BootCpu.Ready.flat {s₀ s : BootCpu} (h : s₀.Ready s) : s.Flat := by
  intro r hr
  rcases List.mem_cons.mp hr with rfl | hr
  · rw [h.cs]
    exact flatSegment_flat _ _
  · rw [h.data r hr]
    exact flatSegment_flat _ _

/-- **From real mode to `bootmain`.** However busy the keyboard controller is, as long as it goes on
with its work: nothing that is output to it gets lost, and from some time on the processor is at the
call of `bootmain`, in protected mode, with flat segments. The controller is then about to let
address line 20 through: nobody waits for it to have done so. -/
theorem enters_protected_mode (m : Mem) (symbols : BootSymbols) (s₀ : Bootstart)
    (beats : Nat → BootBeat) (hsector : BootSector m symbols) (hpc : s₀.cpu.pc = .cli)
    (hreal : s₀.cpu.cr0 &&& cr0PeOn = 0) (hoften : ∃ᶠ n in atTop, (beats n).take = true) :
    ∃ N M, ∀ n, N ≤ n → ∃ s, bootstart m symbols s₀ beats n = some s ∧
      s₀.cpu.Ready s.cpu ∧ s.cpu.Flat ∧ s.controller.overrun = s₀.controller.overrun ∧
      (s.controller.input = none → s.controller.gate = true) ∧
      (M ≤ n → s.controller.input = none) := by
  obtain ⟨N, s, c, hrun, hready, hoverrun, hport⟩ :=
    exists_callBootmain hsector hpc hreal hoften
  have hlater : ∀ k, ∃ c', KeyboardController.Later c c' ∧
      bootstart m symbols s₀ beats (N + k) = some ⟨s, c'⟩ := fun k =>
    run_execs k hrun (execs_callBootmain hready.pc k)
  -- the last byte is taken here
  obtain ⟨j, hj, htake⟩ := frequently_atTop.mp hoften N
  obtain ⟨d, rfl⟩ := Nat.exists_eq_add_of_le hj
  obtain ⟨c₁, h₁, hrun₁⟩ := hlater d
  have htaken : bootstart m symbols s₀ beats (N + d + 1) = some ⟨s, c₁.take⟩ := by
    rw [bootstart_succ, hrun₁, Option.bind_some, step_of_exec (exec_callBootmain hready.pc),
      BootBeat.next, if_pos htake]
  refine ⟨N, N + d + 1, fun n hn => ?_⟩
  obtain ⟨k, rfl⟩ := Nat.exists_eq_add_of_le hn
  obtain ⟨c', h', hrun'⟩ := hlater k
  refine ⟨⟨s, c'⟩, hrun', hready, hready.flat, h'.overrun.trans hoverrun, fun hinput => ?_,
    fun hM => ?_⟩
  · have hgate : c'.outputPort = 0xDF := by
      rw [h'.eq_take hinput, hport]
    simp only [KeyboardController.gate, hgate]
    decide
  · obtain ⟨i, hi⟩ := Nat.exists_eq_add_of_le hM
    obtain ⟨c'', h'', hrun''⟩ := run_execs i htaken (execs_callBootmain hready.pc i)
    rw [← hi, hrun'] at hrun''
    cases hrun''
    rw [h''.eq_of_ready KeyboardController.take_input]
    exact KeyboardController.take_input

/-! ## A BIOS and its keyboard controller -/

/-- The end of a boot sector. -/
def bootMemory (a : UInt32) : UInt8 :=
  (bootGdt ++ bootGdtdesc 0x7C60).getD (a - 0x7C60).toNat 0

theorem bootMemory_sector : BootSector bootMemory ⟨0x7C60, 0x7C78⟩ where
  gdt := by
    unfold Holds
    decide +kernel
  gdtdesc := by
    unfold Holds
    decide +kernel
  low := by decide

/-- The BIOS has just output a command to the keyboard controller, and leaves interrupts on. -/
def biosState : Bootstart where
  cpu :=
    let segment : SegmentRegister := ⟨0, { flatSegment 0x2 0 with limit := 0xFFFF }⟩
    { pc := .cli, eax := 0xAA55, esp := 0x6F00, cr0 := 0x10, interruptFlag := true,
      directionFlag := false, cs := segment, ds := segment, es := segment, fs := segment,
      gs := segment, ss := segment,
      tables := ⟨fun _ => 0, 0, fun _ => 0, 0x3FF, 0, 0⟩ }
  controller := ⟨some (true, 0xAE), none, 0xCD, false⟩

/-- The controller does something in every tenth step. -/
def slowBeats (n : Nat) : BootBeat := ⟨n % 10 == 9, 0x1C⟩

theorem enters_protected_mode_bios : ∃ N M, ∀ n, N ≤ n → ∃ s,
    bootstart bootMemory ⟨0x7C60, 0x7C78⟩ biosState slowBeats n = some s ∧
      biosState.cpu.Ready s.cpu ∧ s.cpu.Flat ∧ s.controller.overrun = false ∧
      (s.controller.input = none → s.controller.gate = true) ∧
      (M ≤ n → s.controller.input = none) := by
  refine enters_protected_mode bootMemory ⟨0x7C60, 0x7C78⟩ biosState slowBeats bootMemory_sector rfl
    (by decide) (frequently_atTop.mpr fun n => ⟨10 * n + 9, by omega, ?_⟩)
  simp only [slowBeats, beq_iff_eq]
  omega

end SchedOS
