import SchedOS.Boot.Mkbootdisk
import SchedOS.Infra.Blocks

/-!
# The image that `mkbootdisk` writes

However `write` cuts up what it is given, the image consists of the boot sector with its
signature, the files, each filled up with zeros to the end of its last sector, and zeros up to
1024 sectors.

* `mkbootdisk_image` — the image, if the program succeeds
* `mkbootdisk_succeeds` — it does if all writes do
-/

namespace SchedOS

open Infra

/-! ## The layout -/

/-- A file, filled up with zeros to a sector boundary. -/
def padded (file : List UInt8) : List UInt8 :=
  file ++ List.replicate (alignUp 512 file.length - file.length) 0

/-- The boot sector. -/
def signed (file : List UInt8) : List UInt8 :=
  file ++ List.replicate (510 - file.length) 0 ++ [0x55, 0xAA]

/-- A disk, filled up with zeros to `n` sectors. -/
def filled (n : Nat) (disk : List UInt8) : List UInt8 :=
  disk ++ List.replicate (512 * n - disk.length) 0

/-- What an argument adds to a disk. -/
def Argument.append (disk : List UInt8) : Argument → List UInt8
  | .skipTo skipto_sector => filled skipto_sector disk
  | .file contents => disk ++ padded contents

/-- The sectors that a disk consists of. -/
def sectors (disk : List UInt8) : Nat := disk.length / 512

/-- No `@X` among the arguments names a sector that is on the disk already. -/
def Forward : List Argument → List UInt8 → Prop
  | [], _ => True
  | .skipTo skipto_sector :: argv, disk =>
    sectors disk ≤ skipto_sector ∧ Forward argv (filled skipto_sector disk)
  | .file contents :: argv, disk => Forward argv (disk ++ padded contents)

theorem length_padded (file : List UInt8) : (padded file).length = alignUp 512 file.length := by
  have h := @le_alignUp 512 file.length (by decide)
  rw [padded, List.length_append, List.length_replicate]
  omega

theorem length_signed {file : List UInt8} (h : file.length ≤ 510) : (signed file).length = 512 := by
  simp only [signed, List.length_append, List.length_replicate, List.length_cons, List.length_nil]
  omega

theorem length_filled {n : Nat} {disk : List UInt8} :
    (filled n disk).length = max disk.length (512 * n) := by
  rw [filled, List.length_append, List.length_replicate]
  omega

/-- A disk consists of sectors. -/
theorem dvd_length_foldl_append : ∀ (argv : List Argument) {disk : List UInt8},
    512 ∣ disk.length → 512 ∣ (argv.foldl Argument.append disk).length
  | [], _, h => h
  | .skipTo skipto_sector :: argv, disk, h => by
    refine dvd_length_foldl_append argv ?_
    rw [Argument.append, length_filled]
    rcases Nat.le_total disk.length (512 * skipto_sector) with hle | hle
    · rw [Nat.max_eq_right hle]
      exact Nat.dvd_mul_right ..
    · rwa [Nat.max_eq_left hle]
  | .file contents :: argv, disk, h => by
    refine dvd_length_foldl_append argv ?_
    rw [Argument.append, List.length_append, length_padded]
    exact Nat.dvd_add h dvd_alignUp

/-- Behind its end a file goes on with zeros. -/
theorem getElem?_padded {file : List UInt8} {i : Nat} (hi : i < alignUp 512 file.length) :
    (padded file)[i]? = some (file.getD i 0) := by
  rw [padded, List.getD_eq_getElem?_getD]
  by_cases h : i < file.length
  · rw [List.getElem?_append_left h, List.getElem?_eq_getElem h, Option.getD_some]
  · rw [List.getElem?_append_right (Nat.le_of_not_lt h), List.getElem?_replicate,
      if_pos (by omega), List.getElem?_eq_none (Nat.le_of_not_lt h), Option.getD_none]

/-! ## What has been written when a function returns -/

section Output

variable {o o' : Output} {n pos nsectors : Nat}

/-- However many bytes a `write` takes, all of them are written in the end, in order. -/
theorem diskwriteLoop_disk : ∀ (writes : List WriteResult) (data disk : List UInt8),
    diskwriteLoop writes data disk = some o → o.disk = disk ++ data
  | [], data, disk, h => by
    rw [diskwriteLoop] at h
    split at h
    · next hdata =>
      cases h
      rw [List.length_eq_zero_iff.mp hdata, List.append_nil]
    · cases h
  | r :: writes, data, disk, h => by
    rw [diskwriteLoop] at h
    split at h
    · next hdata =>
      cases h
      rw [List.length_eq_zero_iff.mp hdata, List.append_nil]
    split at h
    · cases h
    split at h
    · cases h
    split at h
    · rw [diskwriteLoop_disk writes _ _ h, List.append_assoc, List.take_append_drop]
    · exact diskwriteLoop_disk writes _ _ h

theorem diskwrite_disk {data : List UInt8} (h : diskwrite data o = some o') :
    o'.disk = o.disk ++ data :=
  diskwriteLoop_disk _ _ _ h

theorem writeZerobuf_disk : ∀ {n : Nat} {o : Output}, writeZerobuf n o = some o' →
    o'.disk = o.disk ++ List.replicate (512 * n) 0
  | 0, o, h => by
    cases h
    simp
  | n + 1, o, h => by
    obtain ⟨o₁, h₁, h⟩ := Option.bind_eq_some_iff.mp h
    rw [writeZerobuf_disk h, diskwrite_disk h₁, List.append_assoc, List.replicate_append_replicate]
    congr 2
    omega

theorem writeBootSector_disk {file : List UInt8} (h : writeBootSector file o = some o') :
    file.length ≤ 510 ∧ o'.disk = o.disk ++ signed file := by
  unfold writeBootSector at h
  dsimp only at h
  split at h
  · cases h
  · next hn =>
    rw [List.length_take] at hn
    have htake : file.take 4096 = file := List.take_of_length_le (by omega)
    rw [htake] at h
    exact ⟨by omega, diskwrite_disk h⟩

theorem copyLoop_disk (file : List UInt8) (pos : Nat) (o : Output) :
    ∀ {pos' : Nat}, copyLoop file pos o = some (pos', o') →
      pos' = pos + file.length ∧ o'.disk = o.disk ++ file := by
  fun_induction copyLoop file pos o with
  | case1 file pos o buf =>
    rename_i hbuf
    intro pos' h
    cases h
    have hnil : file = [] := by
      rw [List.length_eq_zero_iff, List.take_eq_nil_iff] at hbuf
      exact hbuf.resolve_left (by decide)
    rw [hnil]
    exact ⟨rfl, (List.append_nil _).symm⟩
  | case2 file pos o buf hbuf =>
    rename_i ih
    intro pos' h
    obtain ⟨o₁, h₁, h⟩ := Option.bind_eq_some_iff.mp h
    obtain ⟨hpos, hdisk⟩ := ih o₁ h
    constructor
    · have hlen : buf.length + (file.drop 4096).length = file.length :=
        List.length_append.symm.trans (congrArg List.length (List.take_append_drop 4096 file))
      rw [hpos]
      omega
    · rw [hdisk, diskwrite_disk h₁, List.append_assoc, List.take_append_drop]

/-- The number of zeros behind a file. -/
theorem alignUp_sub (pos : Nat) :
    alignUp 512 pos - pos = if pos % 512 ≠ 0 then 512 - pos % 512 else 0 := by
  unfold alignUp
  split <;> omega

theorem writeFile_disk {file : List UInt8} (ho : o.disk.length = 512 * nsectors) {n : Nat}
    (h : writeFile file nsectors o = some (n, o')) :
    o'.disk = o.disk ++ padded file ∧ o'.disk.length = 512 * n := by
  unfold writeFile at h
  obtain ⟨⟨pos, o₁⟩, h₁, h⟩ := Option.bind_eq_some_iff.mp h
  obtain ⟨hpos, hdisk⟩ := copyLoop_disk file 0 o h₁
  rw [Nat.zero_add] at hpos
  have hpad := alignUp_sub file.length
  have hle := @le_alignUp 512 file.length (by decide)
  dsimp only at h
  rw [hpos] at h
  split at h
  · next hmod =>
    rw [if_pos hmod] at hpad
    obtain ⟨o₂, h₂, h⟩ := Option.bind_eq_some_iff.mp h
    cases h
    have hall : o'.disk = o.disk ++ padded file := by
      rw [diskwrite_disk h₂, hdisk, padded, hpad, List.append_assoc]
    refine ⟨hall, ?_⟩
    rw [hall, List.length_append, length_padded, ho]
    omega
  · next hmod =>
    rw [if_neg hmod] at hpad
    cases h
    have hall : o'.disk = o.disk ++ padded file := by
      rw [hdisk, padded, hpad, List.replicate_zero, List.append_nil]
    refine ⟨hall, ?_⟩
    rw [hall, List.length_append, length_padded, ho]
    omega

theorem sectors_eq {disk : List UInt8} (h : disk.length = 512 * n) : sectors disk = n := by
  rw [sectors, h]
  exact Nat.mul_div_cancel_left n (by decide)

theorem length_filled_skipTo {disk : List UInt8} {skipto_sector : Nat}
    (h : disk.length = 512 * nsectors) (hle : nsectors ≤ skipto_sector) :
    (filled skipto_sector disk).length = 512 * skipto_sector := by
  rw [length_filled, h]
  omega

theorem writeArguments_disk : ∀ (argv : List Argument) {nsectors : Nat} {o : Output} {n : Nat},
    o.disk.length = 512 * nsectors → writeArguments argv nsectors o = some (n, o') →
    o'.disk = argv.foldl Argument.append o.disk ∧ o'.disk.length = 512 * n ∧ Forward argv o.disk
  | [], nsectors, o, n, ho, h => by
    cases h
    exact ⟨rfl, ho, trivial⟩
  | .skipTo skipto_sector :: argv, nsectors, o, n, ho, h => by
    rw [writeArguments] at h
    split at h
    · cases h
    · next hle =>
      have hle := Nat.le_of_not_lt hle
      obtain ⟨o₁, h₁, h⟩ := Option.bind_eq_some_iff.mp h
      have hfilled : o₁.disk = filled skipto_sector o.disk := by
        rw [writeZerobuf_disk h₁, filled, ho, Nat.mul_sub]
      have hlen := length_filled_skipTo ho hle
      rw [← hfilled] at hlen
      obtain ⟨hdisk, hn, hforward⟩ := writeArguments_disk argv hlen h
      rw [hfilled] at hdisk hforward
      exact ⟨hdisk, hn, (sectors_eq ho).le.trans hle, hforward⟩
  | .file contents :: argv, nsectors, o, n, ho, h => by
    obtain ⟨⟨n₁, o₁⟩, h₁, h⟩ := Option.bind_eq_some_iff.mp h
    obtain ⟨hfile, hlen⟩ := writeFile_disk ho h₁
    obtain ⟨hdisk, hn, hforward⟩ := writeArguments_disk argv hlen h
    rw [hfile] at hdisk hforward
    exact ⟨hdisk, hn, hforward⟩

end Output

/-- **The image**, and how it has come about. -/
theorem mkbootdisk_spec {bootsector image : List UInt8} {argv : List Argument}
    {writes : List WriteResult} (h : mkbootdisk bootsector argv writes = some image) :
    (bootsector.length ≤ 510 ∧ Forward argv (signed bootsector)) ∧
      image = filled 1024 (argv.foldl Argument.append (signed bootsector)) := by
  obtain ⟨o₁, h₁, h⟩ := Option.bind_eq_some_iff.mp h
  obtain ⟨⟨nsectors, o₂⟩, h₂, h⟩ := Option.bind_eq_some_iff.mp h
  obtain ⟨o₃, h₃, h⟩ := Option.bind_eq_some_iff.mp h
  cases h
  obtain ⟨hlen, hboot⟩ := writeBootSector_disk h₁
  rw [List.nil_append] at hboot
  have hone : o₁.disk.length = 512 * 1 := by rw [hboot, length_signed hlen]
  obtain ⟨hdisk, hn, hforward⟩ := writeArguments_disk argv hone h₂
  rw [hboot] at hdisk hforward
  refine ⟨⟨hlen, hforward⟩, ?_⟩
  rw [writeZerobuf_disk h₃, ← hdisk, filled, hn, Nat.mul_sub]

/-- **The image**, whatever the arguments and however much each `write` takes. -/
theorem mkbootdisk_image {bootsector image : List UInt8} {argv : List Argument}
    {writes : List WriteResult} (h : mkbootdisk bootsector argv writes = some image) :
    bootsector.length ≤ 510 ∧
      image = filled 1024 (argv.foldl Argument.append (signed bootsector)) :=
  ⟨(mkbootdisk_spec h).1.1, (mkbootdisk_spec h).2⟩

/-! ## Success -/

/-- What `write` comes back with, call after call, if there are no errors: it takes some bytes, or
it is interrupted, but not for ever. -/
structure WriteResults where
  results : Stream' WriteResult
  ok : ∀ n, 0 < (results.get n).w ∨ (results.get n).w = -1 ∧ (results.get n).eintr
  progress : ∀ n, ∃ m, 0 < (results.get (n + m)).w

/-- The results of the calls behind the first `n`. -/
def WriteResults.drop (n : Nat) (s : WriteResults) : WriteResults where
  results := s.results.drop n
  ok m := by
    rw [Stream'.get_drop]
    exact s.ok (n + m)
  progress m := by
    obtain ⟨i, hi⟩ := s.progress (n + m)
    refine ⟨i, ?_⟩
    rwa [Stream'.get_drop, ← Nat.add_assoc]

/-- The results of the first `n` calls. -/
def WriteResults.take (n : Nat) (s : WriteResults) : List WriteResult := s.results.take n

theorem WriteResults.take_succ (n : Nat) (s : WriteResults) :
    s.take (n + 1) = s.results.get 0 :: (s.drop 1).take n :=
  Stream'.take_succ n s.results

theorem WriteResults.take_add : ∀ (n m : Nat) (s : WriteResults),
    s.take (n + m) = s.take n ++ (s.drop n).take m
  | 0, m, s => by
    rw [Nat.zero_add]
    rfl
  | n + 1, m, s => by
    have hdrop : (s.drop 1).drop n = s.drop (n + 1) := by
      rw [drop, drop, drop]
      simp only [Stream'.drop_drop, Nat.add_comm 1 n]
    rw [show n + 1 + m = n + m + 1 by omega, take_succ, take_succ, take_add n m, hdrop,
      List.cons_append]

/-- With `write` working, `f` comes to an end with `r`, and the disk is `disk'` if it has been
`disk`. -/
def Completes {β : Type} (f : Output → Option β) (r : Output → β) (disk disk' : List UInt8) :
    Prop :=
  ∀ s : WriteResults, ∃ n, ∀ rest, f ⟨s.take n ++ rest, disk⟩ = some (r ⟨rest, disk'⟩)

namespace Completes

variable {β γ : Type} {f : Output → Option β} {r : Output → β} {disk disk' disk'' : List UInt8}

theorem pure : Completes (fun o => some (r o)) r disk disk :=
  fun _ => ⟨0, fun _ => rfl⟩

theorem bind {g : β → Option γ} {q : Output → γ} (hf : Completes f r disk disk')
    (hg : Completes (fun o => g (r o)) q disk' disk'') :
    Completes (fun o => (f o).bind g) q disk disk'' := by
  intro s
  obtain ⟨n, hn⟩ := hf s
  obtain ⟨m, hm⟩ := hg (s.drop n)
  refine ⟨n + m, fun rest => ?_⟩
  show (f _).bind g = _
  rw [WriteResults.take_add, List.append_assoc, hn, Option.bind_some]
  exact hm rest

end Completes

section Write

variable {r : WriteResult} {writes : List WriteResult} {data disk : List UInt8}

theorem diskwriteLoop_nil (writes : List WriteResult) (disk : List UInt8) :
    diskwriteLoop writes [] disk = some ⟨writes, disk⟩ := by
  cases writes with
  | nil => rfl
  | cons r writes => rfl

theorem diskwriteLoop_write (hdata : data ≠ []) (hw : 0 < r.w) :
    diskwriteLoop (r :: writes) data disk
      = diskwriteLoop writes (data.drop r.w.toNat) (disk ++ data.take r.w.toNat) := by
  have hlen := List.length_pos_of_ne_nil hdata
  rw [diskwriteLoop, if_neg (by omega), if_neg (by omega), if_neg (by omega), if_pos hw]

theorem diskwriteLoop_eintr (hdata : data ≠ []) (hw : r.w = -1) (heintr : r.eintr) :
    diskwriteLoop (r :: writes) data disk = diskwriteLoop writes data disk := by
  have hlen := List.length_pos_of_ne_nil hdata
  rw [diskwriteLoop, if_neg (by omega), if_neg fun h => h.2 heintr, if_neg (by omega),
    if_neg (by omega)]

/-- A `write` that takes some bytes, and then whatever it takes to write the others. -/
theorem diskwrite_step {s : WriteResults} (hdata : data ≠ []) (hw : 0 < (s.results.get 0).w)
    (h : Completes (diskwrite (data.drop (s.results.get 0).w.toNat)) id
      (disk ++ data.take (s.results.get 0).w.toNat) (disk ++ data)) :
    ∃ n, ∀ rest, diskwrite data ⟨s.take n ++ rest, disk⟩ = some ⟨rest, disk ++ data⟩ := by
  obtain ⟨n, hn⟩ := h (s.drop 1)
  refine ⟨n + 1, fun rest => ?_⟩
  rw [s.take_succ, List.cons_append, diskwrite, diskwriteLoop_write hdata hw]
  exact hn rest

end Write

/-- The induction is on what is left of the data, and between two successful calls on the calls
that are interrupted. -/
theorem completes_diskwrite (data disk : List UInt8) :
    Completes (diskwrite data) id disk (disk ++ data) := by
  induction hlen : data.length using Nat.strong_induction_on generalizing data disk with
  | _ len ih =>
    by_cases hdata : data = []
    · subst hdata
      rw [List.append_nil]
      exact fun s => ⟨0, fun rest => diskwriteLoop_nil rest disk⟩
    · have hwrite : ∀ s : WriteResults, 0 < (s.results.get 0).w →
          ∃ n, ∀ rest, diskwrite data ⟨s.take n ++ rest, disk⟩ = some ⟨rest, disk ++ data⟩ := by
        intro s hw
        have hpos := List.length_pos_of_ne_nil hdata
        refine diskwrite_step hdata hw ?_
        have h := ih _ (by rw [List.length_drop]; omega) (data.drop (s.results.get 0).w.toNat)
          (disk ++ data.take (s.results.get 0).w.toNat) rfl
        rwa [List.append_assoc, List.take_append_drop] at h
      intro s
      obtain ⟨m, hm⟩ := s.progress 0
      rw [Nat.zero_add] at hm
      induction m generalizing s with
      | zero => exact hwrite s hm
      | succ m ihm =>
        rcases s.ok 0 with hw | ⟨hw, heintr⟩
        · exact hwrite s hw
        · have htail : 0 < ((s.drop 1).results.get m).w := by
            rwa [WriteResults.drop, Stream'.get_drop, Nat.add_comm 1 m]
          obtain ⟨n, hn⟩ := ihm (s.drop 1) htail
          refine ⟨n + 1, fun rest => ?_⟩
          rw [s.take_succ, List.cons_append, diskwrite, diskwriteLoop_eintr hdata hw heintr]
          exact hn rest

theorem completes_writeZerobuf : ∀ (n : Nat) (disk : List UInt8),
    Completes (writeZerobuf n) id disk (disk ++ List.replicate (512 * n) 0)
  | 0, disk => by
    rw [Nat.mul_zero, List.replicate_zero, List.append_nil]
    exact .pure
  | n + 1, disk => by
    have h := (completes_diskwrite (List.replicate 512 0) disk).bind
      (completes_writeZerobuf n (disk ++ List.replicate 512 0))
    rwa [List.append_assoc, List.replicate_append_replicate,
      show 512 + 512 * n = 512 * (n + 1) by omega] at h

theorem completes_writeBootSector {file : List UInt8} (h : file.length ≤ 510)
    (disk : List UInt8) : Completes (writeBootSector file) id disk (disk ++ signed file) := by
  have htake : file.take 4096 = file := List.take_of_length_le (by omega)
  have heq : writeBootSector file = diskwrite (signed file) := by
    funext o
    rw [writeBootSector, htake]
    exact if_neg (by omega)
  rw [heq]
  exact completes_diskwrite (signed file) disk

theorem completes_copyLoop (file : List UInt8) (pos : Nat) (disk : List UInt8) :
    Completes (copyLoop file pos) (fun o => (pos + file.length, o)) disk (disk ++ file) := by
  induction hlen : file.length using Nat.strong_induction_on generalizing file pos disk with
  | _ len ih =>
    by_cases hfile : file = []
    · subst hfile
      have heq : copyLoop [] pos = fun o => some (pos, o) := by
        funext o
        rw [copyLoop]
        rfl
      subst hlen
      rw [heq, List.append_nil]
      exact .pure
    · have hpos := List.length_pos_of_ne_nil hfile
      have hbuf : ¬ (file.take 4096).length = 0 := by
        rw [List.length_take]
        omega
      have heq : copyLoop file pos = fun o => (diskwrite (file.take 4096) o).bind
          fun o => copyLoop (file.drop 4096) (pos + (file.take 4096).length) o := by
        funext o
        rw [copyLoop]
        exact if_neg hbuf
      have hsum := congrArg List.length (List.take_append_drop 4096 file)
      rw [List.length_append] at hsum
      have hrest := ih _ (by rw [List.length_drop]; omega) (file.drop 4096)
        (pos + (file.take 4096).length) (disk ++ file.take 4096) rfl
      rw [List.append_assoc, List.take_append_drop, Nat.add_assoc, hsum, hlen] at hrest
      rw [heq]
      exact (completes_diskwrite (file.take 4096) disk).bind hrest

theorem completes_writeFile (file : List UInt8) (nsectors : Nat) (disk : List UInt8) :
    Completes (writeFile file nsectors)
      (fun o => (nsectors + alignUp 512 file.length / 512, o)) disk (disk ++ padded file) := by
  have hpad := alignUp_sub file.length
  have hle := @le_alignUp 512 file.length (by decide)
  have hcopy := completes_copyLoop file 0 disk
  rw [Nat.zero_add] at hcopy
  refine hcopy.bind ?_
  by_cases hmod : file.length % 512 ≠ 0
  · rw [if_pos hmod] at hpad
    simp only [if_pos hmod]
    have hzero := completes_diskwrite (List.replicate (512 - file.length % 512) 0) (disk ++ file)
    rw [List.append_assoc, ← hpad] at hzero
    rw [← hpad, show file.length + (alignUp 512 file.length - file.length)
      = alignUp 512 file.length by omega]
    exact hzero.bind .pure
  · rw [if_neg hmod] at hpad
    simp only [if_neg hmod]
    rw [padded, hpad, List.replicate_zero, List.append_nil,
      show alignUp 512 file.length = file.length by omega]
    exact .pure

theorem completes_writeArguments : ∀ (argv : List Argument) {nsectors : Nat} {disk : List UInt8},
    disk.length = 512 * nsectors → Forward argv disk →
    Completes (writeArguments argv nsectors)
      (fun o => (sectors (argv.foldl Argument.append disk), o)) disk
      (argv.foldl Argument.append disk)
  | [], nsectors, disk, h, _ => by
    rw [List.foldl_nil, sectors_eq h]
    exact .pure
  | .skipTo skipto_sector :: argv, nsectors, disk, h, hforward => by
    have hle : nsectors ≤ skipto_sector := (sectors_eq h).symm.le.trans hforward.1
    have heq : writeArguments (.skipTo skipto_sector :: argv) nsectors = fun o =>
        (writeZerobuf (skipto_sector - nsectors) o).bind fun o =>
          writeArguments argv skipto_sector o := by
      funext o
      rw [writeArguments]
      exact if_neg (Nat.not_lt.mpr hle)
    have hzero := completes_writeZerobuf (skipto_sector - nsectors) disk
    rw [Nat.mul_sub, ← h] at hzero
    rw [heq]
    exact hzero.bind (completes_writeArguments argv (length_filled_skipTo h hle) hforward.2)
  | .file contents :: argv, nsectors, disk, h, hforward => by
    have hlen : (disk ++ padded contents).length
        = 512 * (nsectors + alignUp 512 contents.length / 512) := by
      have hdvd := Nat.mul_div_cancel' (@dvd_alignUp 512 contents.length)
      rw [List.length_append, length_padded, h]
      omega
    exact (completes_writeFile contents nsectors disk).bind
      (completes_writeArguments argv hlen hforward)

/-- **When the program succeeds**: the boot sector is not too large, and no sector that is named
has been passed. -/
theorem mkbootdisk_succeeds_iff (bootsector : List UInt8) (argv : List Argument)
    (s : WriteResults) : (∃ n image, mkbootdisk bootsector argv (s.take n) = some image) ↔
      bootsector.length ≤ 510 ∧ Forward argv (signed bootsector) := by
  constructor
  · rintro ⟨n, image, h⟩
    exact (mkbootdisk_spec h).1
  · rintro ⟨hlen, hforward⟩
    have hone : (signed bootsector).length = 512 * 1 := length_signed hlen
    have hargv := completes_writeArguments argv hone hforward
    have hfill := completes_writeZerobuf
      (1024 - sectors (argv.foldl Argument.append (signed bootsector)))
      (argv.foldl Argument.append (signed bootsector))
    have hsector : Completes (writeBootSector bootsector) id [] (signed bootsector) :=
      completes_writeBootSector hlen []
    have hmain : Completes (fun o => (writeBootSector bootsector o).bind fun o =>
        (writeArguments argv 1 o).bind fun x =>
          (writeZerobuf (1024 - x.1) x.2).bind fun o => some o.disk) Output.disk [] _ :=
      hsector.bind (hargv.bind (hfill.bind .pure))
    obtain ⟨n, hn⟩ := hmain s
    have hdone := hn []
    rw [List.append_nil] at hdone
    exact ⟨n, _, hdone⟩

/-- Results of `write` for which everything is taken one byte at a time. -/
def bytewise : WriteResults where
  results := fun _ => ⟨1, false⟩
  ok _ := Or.inl Int.one_pos
  progress _ := ⟨0, Int.one_pos⟩

/-- **A boot sector and a file** can be put on a disk. -/
theorem mkbootdisk_succeeds {bootsector : List UInt8} (hboot : bootsector.length ≤ 510)
    (file : List UInt8) :
    ∃ writes image, mkbootdisk bootsector [.file file] writes = some image := by
  obtain ⟨n, image, h⟩ :=
    (mkbootdisk_succeeds_iff bootsector [.file file] bytewise).mpr ⟨hboot, trivial⟩
  exact ⟨_, image, h⟩

end SchedOS
