import Mathlib.Tactic

/-!
# `mkbootdisk`

The program that puts the boot sector and the kernel on a disk image. Files are lists of bytes, and
`fread` takes as many from the front as it is asked for, if there are as many. What `write` comes
back with is not up to the program: the results are given in advance, one for every call. Without
one the program has not come to an end; then the result is `none`, as it is when the program
gives up (`usage`).

`maxoff` is 0 and never set, so `diskwrite` does not limit the image. Positions and sectors are
natural numbers: no disk has as many bytes as a `size_t` counts. `mkbootdisk` is the program
once it knows the files and the sectors; `mkbootdiskMain` gets them from the command line.
-/

namespace SchedOS

/-- What a call of `write` comes back with. -/
structure WriteResult where
  w : Int
  /-- `errno == EINTR`, for `w = -1`. -/
  eintr : Bool

/-- The results of the calls of `write` that are still to be made, and what has been written. -/
structure Output where
  writes : List WriteResult
  disk : List UInt8

/-- The loop of `diskwrite`. -/
def diskwriteLoop : List WriteResult → List UInt8 → List UInt8 → Option Output
  | [], data, disk => if data.length = 0 then some ⟨[], disk⟩ else none
  | r :: writes, data, disk =>
    if data.length = 0 then some ⟨r :: writes, disk⟩
    else if r.w = -1 ∧ ¬ r.eintr then none
    else if r.w = 0 then none
    else if 0 < r.w then
      diskwriteLoop writes (data.drop r.w.toNat) (disk ++ data.take r.w.toNat)
    else diskwriteLoop writes data disk

/-- `diskwrite(data, amt)`. -/
def diskwrite (data : List UInt8) (o : Output) : Option Output :=
  diskwriteLoop o.writes data o.disk

/-- `n` rounds of a loop that writes `zerobuf`. -/
def writeZerobuf : Nat → Output → Option Output
  | 0, o => some o
  | n + 1, o => do
    let o ← diskwrite (List.replicate 512 0) o
    writeZerobuf n o

/-- The boot sector with its signature. -/
def writeBootSector (file : List UInt8) (o : Output) : Option Output :=
  let buf := file.take 4096
  let n := buf.length
  if n > 510 then none
  else diskwrite (buf ++ List.replicate (510 - n) 0 ++ [0x55, 0xAA]) o

/-- `while ((n = fread(buf, 1, 4096, f)) > 0)`. -/
def copyLoop (file : List UInt8) (pos : Nat) (o : Output) : Option (Nat × Output) :=
  let buf := file.take 4096
  if buf.length = 0 then some (pos, o)
  else do
    let o ← diskwrite buf o
    copyLoop (file.drop 4096) (pos + buf.length) o
  termination_by file.length
  decreasing_by
    next hbuf =>
      simp only [buf, List.length_take] at hbuf
      simp only [List.length_drop]
      omega

/-- One of the files behind the boot sector: the number of sectors afterwards. -/
def writeFile (file : List UInt8) (nsectors : Nat) (o : Output) : Option (Nat × Output) := do
  let (pos, o) ← copyLoop file 0 o
  if pos % 512 ≠ 0 then
    let o ← diskwrite (List.replicate (512 - pos % 512) 0) o
    some (nsectors + (pos + (512 - pos % 512)) / 512, o)
  else some (nsectors + pos / 512, o)

/-- An argument behind the boot sector file. -/
inductive Argument where
  /-- `@SECNUM`. -/
  | skipTo (skipto_sector : Nat)
  | file (contents : List UInt8)

/-- The loop over these arguments. -/
def writeArguments : List Argument → Nat → Output → Option (Nat × Output)
  | [], nsectors, o => some (nsectors, o)
  | .skipTo skipto_sector :: argv, nsectors, o =>
    if nsectors > skipto_sector then none
    else do
      let o ← writeZerobuf (skipto_sector - nsectors) o
      writeArguments argv skipto_sector o
  | .file contents :: argv, nsectors, o => do
    let (nsectors, o) ← writeFile contents nsectors o
    writeArguments argv nsectors o

/-- `main` with its arguments taken apart: the image, if the program succeeds. -/
def mkbootdisk (bootsector : List UInt8) (argv : List Argument) (writes : List WriteResult) :
    Option (List UInt8) := do
  let o ← writeBootSector bootsector ⟨writes, []⟩
  let (nsectors, o) ← writeArguments argv 1 o
  -- fill out to 1024 sectors
  let o ← writeZerobuf (1024 - nsectors) o
  some o.disk

/-! ## The command line -/

/-- An argument: the characters in front of the terminating 0. -/
structure CString where
  chars : List UInt8
  noNul : 0 ∉ chars

/-- `isdigit`. -/
def isdigit (c : UInt8) : Bool := 0x30 ≤ c ∧ c ≤ 0x39

/-- What a character counts for in a number, in bases up to 16; 16 if it is no digit. -/
def digitOf (c : UInt8) : Nat :=
  if isdigit c then c.toNat - 0x30
  else if 0x41 ≤ c ∧ c ≤ 0x46 then c.toNat - 0x37
  else if 0x61 ≤ c ∧ c ≤ 0x66 then c.toNat - 0x57
  else 16

/-- The digits at the beginning of a text: the number, and what follows them. -/
def strtoulLoop (base : Nat) (v : Nat) : List UInt8 → Nat × List UInt8
  | [] => (v, [])
  | c :: text =>
    if digitOf c < base then strtoulLoop base (v * base + digitOf c) text else (v, c :: text)

/-- The base of a number in base 0, and what follows its prefix. `0x` is one only in front of a
digit. -/
def strtoulBase : List UInt8 → Nat × List UInt8
  | 0x30 :: x :: c :: text =>
    if (x = 0x78 ∨ x = 0x58) ∧ digitOf c < 16 then (16, c :: text) else (8, 0x30 :: x :: c :: text)
  | 0x30 :: text => (8, 0x30 :: text)
  | text => (10, text)

/-- `strtoul(text, &str, 0)`, for a text that begins with a digit: the number, which is at most
`ULONG_MAX`, and what `str` points to. -/
def strtoul (ulong_max : Nat) (text : List UInt8) : Nat × List UInt8 :=
  let (base, digits) := strtoulBase text
  let (v, str) := strtoulLoop base 0 digits
  (min v ulong_max, str)

/-- The sector that an argument like `@X` names. -/
def secnum (ulong_max : Nat) (arg : CString) : Option Nat :=
  match arg.chars with
  | 0x40 :: c :: text =>
    if isdigit c then
      let (skipto_sector, str) := strtoul ulong_max (c :: text)
      if str = [] then some skipto_sector else none
    else none
  | _ => none

/-- An argument behind the boot sector file; every other argument is the name of a file. -/
def readArgument (fopen : CString → Option (List UInt8)) (ulong_max : Nat) (arg : CString) :
    Option Argument :=
  match secnum ulong_max arg with
  | some skipto_sector => some (.skipTo skipto_sector)
  | none => (fopen arg).map .file

/-- The `for` loop of `main`: a file is opened when it is its turn. -/
def argvLoop (fopen : CString → Option (List UInt8)) (ulong_max : Nat) :
    List CString → Nat → Output → Option (Nat × Output)
  | [], nsectors, o => some (nsectors, o)
  | arg :: argv, nsectors, o => do
    let argument ← readArgument fopen ulong_max arg
    let (nsectors, o) ← writeArguments [argument] nsectors o
    argvLoop fopen ulong_max argv nsectors o

/-- `main`, from its arguments: `fopen` says which files there are, and what is in them. -/
def mkbootdiskMain (fopen : CString → Option (List UInt8)) (ulong_max : Nat)
    (writes : List WriteResult) : List CString → Option (List UInt8)
  | [] => none
  | bootsectorfile :: argv => do
    let bootsector ← fopen bootsectorfile
    let o ← writeBootSector bootsector ⟨writes, []⟩
    let (nsectors, o) ← argvLoop fopen ulong_max argv 1 o
    -- fill out to 1024 sectors
    let o ← writeZerobuf (1024 - nsectors) o
    some o.disk

end SchedOS
