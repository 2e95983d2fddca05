import SchedOS.Lib.Console

/-!
# What a format asks for

A format is a sequence of characters that are printed as they are and of directives. `pieces`
cuts it up, and `Piece.source` puts a piece together again. `Piece.demands` lists the arguments
that a piece asks for, and `Piece.text` is what it prints, given these. There is no format
pointer here, no position in the argument list and no screen: this is what `console_vprintf` is
measured against.
-/

namespace SchedOS

open Infra

/-! ## Pieces -/

/-- A number in a directive. -/
inductive Size where
  | absent
  | digits (text : List UInt8)
  /-- `*`, to be taken from the arguments. -/
  | star
  deriving DecidableEq

structure Directive where
  flags : List UInt8
  width : Size
  /-- What stands behind the `.`, if there is one. -/
  precision : Option Size
  /-- The conversion character; none at the end of the format. -/
  conversion : Option UInt8
  deriving DecidableEq

inductive Piece where
  | char (c : UInt8)
  | directive (d : Directive)
  deriving DecidableEq

def Size.source : Size → List UInt8
  | .absent => []
  | .digits text => text
  | .star => [0x2A]

def Directive.source (d : Directive) : List UInt8 :=
  0x25 :: (d.flags ++ (d.width.source
    ++ ((d.precision.elim [] fun p => 0x2E :: p.source) ++ d.conversion.toList)))

/-- The part of the format that a piece was cut from. -/
def Piece.source : Piece → List UInt8
  | .char c => [c]
  | .directive d => d.source

/-- The characters of `flag_chars`. -/
def isFlag (c : UInt8) : Bool := (literal "#0- +").contains c

/-- The flags that a string of flag characters sets. -/
def Flags.of (cs : List UInt8) : Flags :=
  ⟨cs.contains 0x23, cs.contains 0x30, cs.contains 0x2D, cs.contains 0x20, cs.contains 0x2B⟩

/-- A digit that a width may begin with. -/
def isWidthDigit (c : UInt8) : Bool := 0x31 ≤ c && c ≤ 0x39

/-- A number that begins with a digit of the kind `first`, and the rest. -/
def cutSize (first : UInt8 → Bool) : List UInt8 → Size × List UInt8
  | [] => (.absent, [])
  | c :: cs =>
    if first c then (.digits ((c :: cs).takeWhile isDigit), (c :: cs).dropWhile isDigit)
    else if c = 0x2A then (.star, cs)
    else (.absent, c :: cs)

section CutSize

variable {first : UInt8 → Bool} {c : UInt8} {cs : List UInt8}

theorem cutSize_digits (h : first c = true) : cutSize first (c :: cs)
    = (.digits ((c :: cs).takeWhile isDigit), (c :: cs).dropWhile isDigit) :=
  if_pos h

theorem cutSize_star (h : ¬ first 0x2A = true) : cutSize first (0x2A :: cs) = (.star, cs) :=
  if_neg h

theorem cutSize_absent (h : ¬ first c = true) (hstar : c ≠ 0x2A) :
    cutSize first (c :: cs) = (.absent, c :: cs) := by
  rw [cutSize, if_neg h, if_neg hstar]

end CutSize

def cutPrecision : List UInt8 → Option Size × List UInt8
  | [] => (none, [])
  | c :: cs =>
    if c = 0x2E then (some (cutSize isDigit cs).1, (cutSize isDigit cs).2) else (none, c :: cs)

/-- The directive whose `%` stands before `cs`, and the rest. -/
def cutDirective (cs : List UInt8) : Directive × List UInt8 :=
  let width := cutSize isWidthDigit (cs.dropWhile isFlag)
  let precision := cutPrecision width.2
  (⟨cs.takeWhile isFlag, width.1, precision.1, precision.2.head?⟩, precision.2.tail)

theorem cutSize_source {first : UInt8 → Bool} (cs : List UInt8) :
    (cutSize first cs).1.source ++ (cutSize first cs).2 = cs := by
  unfold cutSize
  split
  · rfl
  · split
    · exact List.takeWhile_append_dropWhile
    · split
      · next hstar => simp [Size.source, hstar]
      · rfl

theorem cutPrecision_source (cs : List UInt8) :
    ((cutPrecision cs).1.elim [] fun p => 0x2E :: p.source) ++ (cutPrecision cs).2 = cs := by
  unfold cutPrecision
  split
  · rfl
  · split
    · next hdot => simp [cutSize_source, hdot]
    · rfl

/-- What is cut off is there. -/
theorem cutDirective_source (cs : List UInt8) :
    (cutDirective cs).1.source ++ (cutDirective cs).2 = 0x25 :: cs := by
  have htail : ∀ xs : List UInt8, xs.head?.toList ++ xs.tail = xs := by
    intro xs
    cases xs <;> rfl
  simp only [cutDirective, Directive.source, List.cons_append, List.append_assoc, htail,
    cutPrecision_source, cutSize_source, List.takeWhile_append_dropWhile]

theorem length_cutDirective_le (cs : List UInt8) : (cutDirective cs).2.length ≤ cs.length := by
  have h := congrArg List.length (cutDirective_source cs)
  simp only [Directive.source, List.length_append, List.length_cons] at h
  omega

/-- The pieces of a format. -/
def pieces : List UInt8 → List Piece
  | [] => []
  | c :: cs =>
    if c = 0x25 then .directive (cutDirective cs).1 :: pieces (cutDirective cs).2
    else .char c :: pieces cs
  termination_by cs => cs.length
  decreasing_by
    · exact Nat.lt_succ_of_le (length_cutDirective_le cs)
    · exact Nat.lt_succ_self _

/-- **The pieces make up the format**, in order and without gaps. -/
theorem pieces_source (format : List UInt8) : (pieces format).flatMap Piece.source = format := by
  fun_induction pieces format with
  | case1 => rfl
  | case2 cs ih => rw [List.flatMap_cons, ih, Piece.source, cutDirective_source]
  | case3 c cs hc ih =>
    rw [List.flatMap_cons, ih]
    rfl

/-! ## Demands -/

/-- What an argument is taken for. -/
inductive Demand where
  | width
  | precision
  | conversion (c : UInt8)
  deriving DecidableEq

/-- The conversions that take an argument. -/
def takesArgument (c : UInt8) : Bool := (literal "duxXsCc").contains c

def Size.count : Size → Nat
  | .star => 1
  | _ => 0

/-- The arguments that the width and the precision take. -/
def Directive.sizes (d : Directive) : Nat := d.width.count + d.precision.elim 0 Size.count

def Directive.demands (d : Directive) : List Demand :=
  List.replicate d.width.count .width ++ List.replicate (d.precision.elim 0 Size.count) .precision
    ++ (d.conversion.toList.filter takesArgument).map .conversion

/-- The arguments that a piece takes, in order. -/
def Piece.demands : Piece → List Demand
  | .char _ => []
  | .directive d => d.demands

/-- The number of arguments that the first `i` pieces of a format take. -/
def takenBefore (xs : List Piece) (i : Nat) : Nat := ((xs.take i).flatMap Piece.demands).length

/-- The arguments that a format takes, in order. -/
def demands (format : List UInt8) : List Demand := (pieces format).flatMap Piece.demands

/-! ## Values -/

/-- The number that decimal digits denote. -/
def decimal (text : List UInt8) : Int := text.foldl (fun v c => 10 * v + c.toNat - 0x30) 0

/-- `args` are the arguments from the first one that the number may take. -/
def Size.value (args : Nat → UInt32) : Size → Int
  | .absent => -1
  | .digits text => decimal text
  | .star => (args 0).toInt32.toInt

/-- The precision; `-1` if there is none. -/
def Directive.precisionValue (d : Directive) (args : Nat → UInt32) : Int :=
  d.precision.elim (-1) fun p => max 0 (p.value fun i => args (d.width.count + i))

/-- The digits of `val`, without leading zeros. -/
def numeral (base : Nat) (digits : List UInt8) (val : Nat) : List UInt8 :=
  if val = 0 then [digits.getD 0 0]
  else ((Nat.digits base val).reverse).map fun d => digits.getD d 0

/-- What a numeric conversion makes of `val`. With precision 0 a zero has no digits. -/
def numericConversion (base : Nat) (digits : List UInt8) (precision : Int) (val : Nat)
    (negative : Bool) : Conversion :=
  .field (if precision = 0 ∧ val = 0 then [] else numeral base digits val) negative true

/-- What the conversion character makes of its argument. -/
def conversionOf (strs : UInt32 → List UInt8) (precision : Int) (arg : UInt32) :
    Option UInt8 → Conversion
  | none => .field [0x25] false false
  | some c =>
    if c = 0x64 then
      numericConversion 10 upperDigits precision arg.toInt32.toInt.natAbs (arg.toInt32 < 0)
    else if c = 0x75 then numericConversion 10 upperDigits precision arg.toNat false
    else if c = 0x78 then numericConversion 16 lowerDigits precision arg.toNat false
    else if c = 0x58 then numericConversion 16 upperDigits precision arg.toNat false
    else if c = 0x73 then .field (strs arg) false false
    else if c = 0x43 then .color arg.toInt32
    else if c = 0x63 then .field (cstring [arg.toUInt8]) false false
    else .field [c] false false

/-! ## Fields -/

/-- A converted text in its field. -/
structure Field where
  left : Nat
  sign : List UInt8
  zeros : Nat
  body : List UInt8
  right : Nat

def Field.text (f : Field) : List UInt8 :=
  List.replicate f.left 0x20 ++ (f.sign ++ (List.replicate f.zeros 0x30
    ++ (f.body ++ List.replicate f.right 0x20)))

/-- The sign, if there is one. -/
def signOf (flags : Flags) (negative : Bool) : List UInt8 :=
  if negative then [0x2D] else if flags.pluspositive then [0x2B]
  else if flags.spacepositive then [0x20] else []

/-- The field for `data`. A precision cuts a text off and fills a number up with zeros; a negative
width is none. -/
def fieldOf (flags : Flags) (width precision : Int) (data : List UInt8)
    (negative numeric : Bool) : Field :=
  let sign := signOf flags (numeric && negative)
  let body := if 0 ≤ precision then data.take precision.toNat else data
  let zeros :=
    if !numeric then 0
    else if 0 ≤ precision then precision.toNat - body.length
    else if flags.zero && !flags.leftjustify then width.toNat - (sign.length + body.length)
    else 0
  let pad := width.toNat - (sign.length + zeros + body.length)
  { left := if flags.leftjustify then 0 else pad
    sign := sign
    zeros := zeros
    body := body
    right := if flags.leftjustify then pad else 0 }

/-! ## Output -/

section Output

variable (args : Nat → UInt32) (strs : UInt32 → List UInt8)

def Directive.conversionValue (d : Directive) : Conversion :=
  conversionOf strs (d.precisionValue args) (args d.sizes) d.conversion

/-- The characters that a piece prints. `args` are the arguments from its first one on. -/
def Piece.text : Piece → List UInt8
  | .char c => [c]
  | .directive d =>
    match d.conversionValue args strs with
    | .field data negative numeric =>
      (fieldOf (.of d.flags) (d.width.value args) (d.precisionValue args) data negative
        numeric).text
    | .color _ => []

/-- The colour in which what follows the piece is printed. -/
def Piece.color (color : Int32) : Piece → Int32
  | .char _ => color
  | .directive d =>
    match d.conversionValue args strs with
    | .field _ _ _ => color
    | .color c => c

/-- The characters that the pieces print, each with its colour. -/
def output : List Piece → (Nat → UInt32) → Int32 → List (UInt8 × Int32)
  | [], _, _ => []
  | x :: xs, args, color =>
    (x.text args strs).map (·, color)
      ++ output xs (fun i => args (x.demands.length + i)) (x.color args strs color)

/-- The text that each piece prints. -/
def texts : List Piece → (Nat → UInt32) → List (List UInt8)
  | [], _ => []
  | x :: xs, args => x.text args strs :: texts xs fun i => args (x.demands.length + i)

/-- The colour after the pieces. -/
def lastColor : List Piece → (Nat → UInt32) → Int32 → Int32
  | [], _, color => color
  | x :: xs, args, color =>
    lastColor xs (fun i => args (x.demands.length + i)) (x.color args strs color)

end Output

end SchedOS
