import SchedOS.Properties.Mkbootdisk
import SchedOS.Properties.Numerals
import Mathlib.Data.List.TakeWhile

/-!
# The layout of the disk

`mkbootdisk` from its command line. It opens a file when it comes to it and counts the sectors
apart from the bytes that it writes; in the end it has laid out what the arguments stand for.

* `secnum_eq_some_iff` — which arguments are sector numbers
* `mkbootdisk_layout` — when the program succeeds, and what it has written then
-/

namespace SchedOS

open Infra

/-! ## Sector numbers -/

section Secnum

variable {ulong_max : Nat}

theorem digitOf_eq (c : UInt8) : digitOf c = digitValue c := by
  unfold digitOf digitValue isdigit
  simp only [decide_eq_true_eq]

/-- `strtoul` stops at the first character that is not a digit. -/
theorem strtoulLoop_eq (base : Nat) : ∀ (text : List UInt8) (v : Nat),
    strtoulLoop base v text
      = ((text.takeWhile fun c => digitValue c < base).foldl (fun v c => base * v + digitValue c) v,
          text.dropWhile fun c => digitValue c < base)
  | [], v => rfl
  | c :: text, v => by
    rw [strtoulLoop, digitOf_eq]
    by_cases hc : digitValue c < base
    · rw [if_pos hc, strtoulLoop_eq base text, List.takeWhile_cons_of_pos (by simpa),
        List.dropWhile_cons_of_pos (by simpa), List.foldl_cons, Nat.mul_comm]
    · rw [if_neg hc, List.takeWhile_cons_of_neg (by simpa using hc),
        List.dropWhile_cons_of_neg (by simpa using hc), List.foldl_nil]

/-- A text is a number as a whole if all its characters behind the prefix are digits. -/
theorem strtoul_eq_iff {text : List UInt8} {X : Nat} : strtoul ulong_max text = (X, []) ↔
    ∃ v, readDigits (strtoulBase text).1 (strtoulBase text).2 = some v ∧ X = min v ulong_max := by
  unfold strtoul readDigits
  dsimp only
  rw [strtoulLoop_eq]
  split
  · next hall =>
    have hdigits := List.all_eq_true.mp hall
    rw [List.takeWhile_eq_self_iff.mpr hdigits, List.dropWhile_eq_nil_iff.mpr hdigits]
    simp [eq_comm]
  · next hall =>
    have hdigits : ¬ ∀ c ∈ (strtoulBase text).2, _ := fun h => hall (List.all_eq_true.mpr h)
    rw [← List.dropWhile_eq_nil_iff] at hdigits
    simp [hdigits]

/-- **Which arguments are sector numbers**: `@`, and a number that begins with a digit. -/
theorem secnum_eq_some_iff {arg : CString} {X : Nat} : secnum ulong_max arg = some X ↔
    ∃ c text v, arg.chars = 0x40 :: c :: text ∧ isdigit c ∧
      readDigits (strtoulBase (c :: text)).1 (strtoulBase (c :: text)).2 = some v ∧
      X = min v ulong_max := by
  unfold secnum
  split
  · next c text harg =>
    constructor
    · intro h
      split at h
      · next hc =>
        dsimp only at h
        split at h
        · next hstr =>
          obtain ⟨v, hv, hX⟩ := strtoul_eq_iff.mp (Prod.ext (Option.some.inj h) hstr)
          exact ⟨c, text, v, harg, hc, hv, hX⟩
        · cases h
      · cases h
    · rintro ⟨c', text', v, h, hc, hv, hX⟩
      obtain ⟨rfl, rfl⟩ : c = c' ∧ text = text' := by simpa using harg.symm.trans h
      have hstr := strtoul_eq_iff.mpr ⟨v, hv, hX⟩
      rw [if_pos hc, hstr]
      exact if_pos rfl
  · next hne =>
    refine iff_of_false (by simp) ?_
    rintro ⟨c, text, v, h, -⟩
    exact hne c text h

end Secnum

/-! ## The arguments one after the other -/

section Argv

variable {fopen : CString → Option (List UInt8)} {ulong_max : Nat}

/-- The arguments stand for these sectors and files, and the files open. -/
def ReadAs (fopen : CString → Option (List UInt8)) (ulong_max : Nat) :
    List CString → List Argument → Prop :=
  List.Forall₂ fun arg argument => readArgument fopen ulong_max arg = some argument

theorem writeArguments_cons (argument : Argument) (argv : List Argument) (nsectors : Nat)
    (o : Output) : writeArguments (argument :: argv) nsectors o
      = (writeArguments [argument] nsectors o).bind fun x => writeArguments argv x.1 x.2 := by
  cases argument with
  | skipTo skipto_sector =>
    rw [writeArguments, writeArguments]
    split
    · rfl
    · rw [Option.bind_eq_bind, Option.bind_assoc]
      rfl
  | file contents =>
    rw [writeArguments, writeArguments, Option.bind_eq_bind, Option.bind_assoc]
    rfl

/-- It makes no difference to a success that a file is only opened when it is its turn. -/
theorem argvLoop_eq_some_iff {x : Nat × Output} :
    ∀ {argv : List CString} {nsectors : Nat} {o : Output},
      argvLoop fopen ulong_max argv nsectors o = some x ↔
        ∃ arguments, ReadAs fopen ulong_max argv arguments ∧
          writeArguments arguments nsectors o = some x
  | [], nsectors, o => by
    constructor
    · intro h
      exact ⟨[], .nil, h⟩
    · rintro ⟨arguments, hreads, h⟩
      cases hreads
      exact h
  | arg :: argv, nsectors, o => by
    constructor
    · intro h
      obtain ⟨argument, hargument, h⟩ := Option.bind_eq_some_iff.mp h
      obtain ⟨y, hy, h⟩ := Option.bind_eq_some_iff.mp h
      obtain ⟨arguments, hreads, h⟩ := argvLoop_eq_some_iff.mp h
      refine ⟨argument :: arguments, .cons hargument hreads, ?_⟩
      rw [writeArguments_cons, hy]
      exact h
    · rintro ⟨_, hreads, h⟩
      cases hreads with
      | cons hargument hreads =>
        rw [writeArguments_cons] at h
        obtain ⟨y, hy, h⟩ := Option.bind_eq_some_iff.mp h
        rw [argvLoop, hargument, Option.bind_eq_bind, Option.bind_some, hy]
        exact argvLoop_eq_some_iff.mpr ⟨_, hreads, h⟩

/-- The program from its command line. -/
theorem mkbootdiskMain_eq_some_iff {bootsectorfile : CString} {argv : List CString}
    {writes : List WriteResult} {image : List UInt8} :
    mkbootdiskMain fopen ulong_max writes (bootsectorfile :: argv) = some image ↔
      ∃ bootsector arguments, fopen bootsectorfile = some bootsector ∧
        ReadAs fopen ulong_max argv arguments ∧
        mkbootdisk bootsector arguments writes = some image := by
  constructor
  · intro h
    obtain ⟨bootsector, hboot, h⟩ := Option.bind_eq_some_iff.mp h
    obtain ⟨o, ho, h⟩ := Option.bind_eq_some_iff.mp h
    obtain ⟨x, hx, h⟩ := Option.bind_eq_some_iff.mp h
    obtain ⟨arguments, hreads, hx⟩ := argvLoop_eq_some_iff.mp hx
    refine ⟨bootsector, arguments, hboot, hreads, ?_⟩
    rw [mkbootdisk, ho, Option.bind_eq_bind, Option.bind_some, hx]
    exact h
  · rintro ⟨bootsector, arguments, hboot, hreads, h⟩
    obtain ⟨o, ho, h⟩ := Option.bind_eq_some_iff.mp h
    obtain ⟨x, hx, h⟩ := Option.bind_eq_some_iff.mp h
    have hloop := argvLoop_eq_some_iff.mpr ⟨arguments, hreads, hx⟩
    rw [mkbootdiskMain, hboot, Option.bind_eq_bind, Option.bind_some, ho, Option.bind_eq_bind,
      Option.bind_some, hloop]
    exact h

/-- The sectors are counted right, while the arguments are worked off. -/
theorem argvLoop_sectors {bootsector : List UInt8} {argv : List CString} {nsectors : Nat}
    {writes : List WriteResult} {o o' : Output}
    (ho : writeBootSector bootsector ⟨writes, []⟩ = some o)
    (ho' : argvLoop fopen ulong_max argv 1 o = some (nsectors, o')) :
    o'.disk.length = 512 * nsectors := by
  obtain ⟨hlen, hboot⟩ := writeBootSector_disk ho
  have hone : o.disk.length = 512 * 1 := by
    rw [hboot, List.nil_append, length_signed hlen]
  obtain ⟨arguments, -, hwrite⟩ := argvLoop_eq_some_iff.mp ho'
  exact (writeArguments_disk arguments hone hwrite).2.1

end Argv

/-- **What `mkbootdisk` writes.** If `write` works, the program succeeds exactly if all files
open, the boot sector is not too large and no argument goes back to an earlier sector. Then the
image is what the arguments stand for, and there are as many sectors in it as have been
counted. -/
theorem mkbootdisk_layout (fopen : CString → Option (List UInt8)) (ulong_max : Nat)
    (bootsectorfile : CString) (argv : List CString) (s : WriteResults) :
    ((∃ n image, mkbootdiskMain fopen ulong_max (s.take n) (bootsectorfile :: argv) = some image) ↔
      ∃ bootsector arguments, fopen bootsectorfile = some bootsector ∧
        ReadAs fopen ulong_max argv arguments ∧
        bootsector.length ≤ 510 ∧ Forward arguments (signed bootsector)) ∧
    (∀ n image,
      mkbootdiskMain fopen ulong_max (s.take n) (bootsectorfile :: argv) = some image →
      ∃ bootsector arguments, fopen bootsectorfile = some bootsector ∧
        ReadAs fopen ulong_max argv arguments ∧
        image = filled 1024 (arguments.foldl Argument.append (signed bootsector)) ∧
        image.length
          = 512 * max 1024 (sectors (arguments.foldl Argument.append (signed bootsector)))) ∧
    ∀ n bootsector o nsectors o', writeBootSector bootsector ⟨s.take n, []⟩ = some o →
      argvLoop fopen ulong_max argv 1 o = some (nsectors, o') →
      o'.disk.length = 512 * nsectors := by
  refine ⟨⟨?_, ?_⟩, ?_, fun n bootsector o nsectors o' ho ho' => argvLoop_sectors ho ho'⟩
  · rintro ⟨n, image, h⟩
    obtain ⟨bootsector, arguments, hboot, hreads, h⟩ := mkbootdiskMain_eq_some_iff.mp h
    exact ⟨bootsector, arguments, hboot, hreads,
      (mkbootdisk_succeeds_iff bootsector arguments s).mp ⟨n, image, h⟩⟩
  · rintro ⟨bootsector, arguments, hboot, hreads, hok⟩
    obtain ⟨n, image, h⟩ := (mkbootdisk_succeeds_iff bootsector arguments s).mpr hok
    exact ⟨n, image, mkbootdiskMain_eq_some_iff.mpr ⟨bootsector, arguments, hboot, hreads, h⟩⟩
  · intro n image h
    obtain ⟨bootsector, arguments, hboot, hreads, h⟩ := mkbootdiskMain_eq_some_iff.mp h
    obtain ⟨⟨hlen, -⟩, himage⟩ := mkbootdisk_spec h
    refine ⟨bootsector, arguments, hboot, hreads, himage, ?_⟩
    have hsector : 512 ∣ (signed bootsector).length := by rw [length_signed hlen]
    obtain ⟨m, hm⟩ := dvd_length_foldl_append arguments hsector
    rw [himage, length_filled, hm, sectors_eq hm]
    omega

end SchedOS
