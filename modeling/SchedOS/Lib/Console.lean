import SchedOS.Infra.Memory

/-!
# The console and `console_vprintf`

Screen memory is an array of 16-bit cells, a character in the low byte and its colour in the
high one. `console_vprintf` walks over a NUL-terminated format; here the format is the list
of its bytes with the NUL at the end, the format pointer is an index into it, and reading
behind the NUL gives `none`. So does a digit stored below the start of `numbuf`.

The arguments are the words from the first `va_arg` on; `strs` gives, for an argument that is
used as a `char *`, the bytes before the NUL of the string it points to. The layout
arithmetic (`width`, `precision`, `zeros`, `len`) is done in `Int`: it is the C arithmetic as
long as that fits an `int`.
-/

namespace SchedOS

open Infra

/-- `CONSOLE_BEGIN`. -/
def consoleBegin : UInt32 := 0x000B8000

/-- `CONSOLE_END`, that is `CONSOLE_BEGIN + 80 * 25` cells of two bytes. -/
def consoleEnd : UInt32 := consoleBegin + 2 * (80 * 25)

/-- The cursor and the memory it points into. -/
structure Screen where
  cursor : UInt32
  ram : Mem

/-- `*cursor++ = v`; the cell keeps the low 16 bits of the `int`. -/
def Screen.put (s : Screen) (v : UInt32) : Screen :=
  { cursor := s.cursor + 2, ram := writeU16 s.ram s.cursor v.toUInt16 }

/-- `n` times `*cursor++ = v`. -/
def Screen.putMany (s : Screen) (v : UInt32) : Nat → Screen
  | 0 => s
  | n + 1 => (s.put v).putMany v n

/-- `console_putc`. -/
def consolePutc (s : Screen) (c : UInt8) (color : Int32) : Screen :=
  let s := if consoleEnd ≤ s.cursor then { s with cursor := consoleBegin } else s
  if c = 0x0A then
    -- the pointer difference counts cells
    let pos := ((s.cursor - consoleBegin).toInt32 / 2) % 80
    s.putMany (0x20 ||| color.toUInt32) (80 - pos).toInt.toNat
  else s.put (c.toUInt32 ||| color.toUInt32)

/-- `n` times `cursor = console_putc(cursor, c, color)`. -/
def consolePutMany (s : Screen) (c : UInt8) (color : Int32) : Nat → Screen
  | 0 => s
  | n + 1 => consolePutMany (consolePutc s c color) c color n

/-! ## Digits -/

/-- The bytes of a string literal, without its NUL. -/
def literal (s : String) : List UInt8 := s.toList.map fun c => UInt8.ofNat c.toNat

def upperDigits : List UInt8 := literal "0123456789ABCDEF"

def lowerDigits : List UInt8 := literal "0123456789abcdef"

/-- `NUMBUFSIZ`. -/
def numbufsiz : Nat := 20

/-- The `do … while` loop of `fill_numbuf`; `room` is the number of bytes left below
`numbuf_end`, `text` what has been stored above it. -/
def fillDigits (base : UInt32) (digits : List UInt8) : Nat → UInt32 → List UInt8 →
    Option (List UInt8)
  | 0, _, _ => none
  | room + 1, val, text =>
    let text := digits.getD (val % base).toNat 0 :: text
    if val / base ≠ 0 then fillDigits base digits room (val / base) text else some text

/-- `fill_numbuf` called on the end of a buffer of `room` bytes: the text that it leaves there,
without the NUL. -/
def fillNumbuf (room : Nat) (val base : UInt32) (digits : List UInt8) (precision : Int) :
    Option (List UInt8) :=
  match room with
  | 0 => none
  | room + 1 => -- the NUL takes the last byte
    if precision ≠ 0 ∨ val ≠ 0 then fillDigits base digits room val [] else some []

/-! ## Directives -/

/-- The flags of a directive, `FLAG_ALT` … `FLAG_PLUSPOSITIVE`. -/
structure Flags where
  alt : Bool
  zero : Bool
  leftjustify : Bool
  spacepositive : Bool
  pluspositive : Bool
  deriving DecidableEq

/-- `flags |= 1 << (flagc - flag_chars)` for a character of `flag_chars`, that is `"#0- +"`. -/
def Flags.add (flags : Flags) (c : UInt8) : Option Flags :=
  if c = 0x23 then some { flags with alt := true }
  else if c = 0x30 then some { flags with zero := true }
  else if c = 0x2D then some { flags with leftjustify := true }
  else if c = 0x20 then some { flags with spacepositive := true }
  else if c = 0x2B then some { flags with pluspositive := true }
  else none

/-- The loop that processes the flags, from `*format` on. -/
def scanFlags (fmt : List UInt8) : Nat → Nat → Flags → Option (Nat × Flags)
  | 0, _, _ => none
  | fuel + 1, format, flags => do
    let c ← fmt[format]?
    if c = 0 then some (format, flags)
    else match flags.add c with
      | none => some (format, flags)
      | some flags => scanFlags fmt fuel (format + 1) flags

/-- `*format >= '0' && *format <= '9'`. -/
def isDigit (c : UInt8) : Bool := 0x30 ≤ c && c ≤ 0x39

/-- `for (…; isdigit(*format); ) v = 10 * v + *format++ - '0'`. -/
def scanNumber (fmt : List UInt8) : Nat → Nat → Int → Option (Nat × Int)
  | 0, _, _ => none
  | fuel + 1, format, v => do
    let c ← fmt[format]?
    if isDigit c then scanNumber fmt fuel (format + 1) (10 * v + c.toNat - 0x30)
    else some (format, v)

/-- The position in the argument list, and the format pointer. -/
structure Place where
  format : Nat
  val : Nat
  deriving DecidableEq

/-- The field width; `-1` if there is none. -/
def scanWidth (fmt : List UInt8) (args : Nat → UInt32) (p : Place) : Option (Place × Int) := do
  let c ← fmt[p.format]?
  if 0x31 ≤ c && c ≤ 0x39 then
    let (format, width) ← scanNumber fmt fmt.length p.format 0
    some ({ p with format := format }, width)
  else if c = 0x2A then
    some ({ format := p.format + 1, val := p.val + 1 }, (args p.val).toInt32.toInt)
  else some (p, -1)

/-- The precision; `-1` if there is none. -/
def scanPrecision (fmt : List UInt8) (args : Nat → UInt32) (p : Place) :
    Option (Place × Int) := do
  let c ← fmt[p.format]?
  if c = 0x2E then
    let p := { p with format := p.format + 1 }
    let c ← fmt[p.format]?
    let (p, precision) ←
      if isDigit c then do
        let (format, precision) ← scanNumber fmt fmt.length p.format 0
        some ({ p with format := format }, precision)
      else if c = 0x2A then
        some ({ format := p.format + 1, val := p.val + 1 }, (args p.val).toInt32.toInt)
      else some (p, -1)
    some (p, if precision < 0 then 0 else precision)
  else some (p, -1)

/-- The string that a pointer to these bytes denotes: what stands before the NUL. -/
def cstring (bytes : List UInt8) : List UInt8 := bytes.takeWhile (· ≠ 0)

/-- What the `switch` over the conversion character leaves behind. -/
inductive Conversion where
  /-- Text to be laid out in its field. -/
  | field (data : List UInt8) (negative numeric : Bool)
  /-- `%C` changes the colour and prints nothing. -/
  | color (color : Int32)

/-- The `switch (*format)`. At the end of the format the `default:` arm prints a `%` and steps
back, so that the `++format` of the outer loop comes to stand on the NUL. -/
def convert (fmt : List UInt8) (args : Nat → UInt32) (strs : UInt32 → List UInt8)
    (precision : Int) (p : Place) : Option (Place × Conversion) := do
  let c ← fmt[p.format]?
  let taken : Place := { p with val := p.val + 1 }
  let number (x base : UInt32) (digits : List UInt8) (negative : Bool) := do
    let data ← fillNumbuf numbufsiz x base digits precision
    some (taken, Conversion.field data negative true)
  if c = 0x64 then -- 'd'
    let x := (args p.val).toInt32
    number (if 0 < x then x else -x).toUInt32 10 upperDigits (x < 0)
  else if c = 0x75 then number (args p.val) 10 upperDigits false -- 'u'
  else if c = 0x78 then number (args p.val) 16 lowerDigits false -- 'x'
  else if c = 0x58 then number (args p.val) 16 upperDigits false -- 'X'
  else if c = 0x73 then some (taken, .field (strs (args p.val)) false false) -- 's'
  else if c = 0x43 then some (taken, .color (args p.val).toInt32) -- 'C'
  else if c = 0x63 then some (taken, .field (cstring [(args p.val).toUInt8]) false false) -- 'c'
  else if c = 0 then some ({ p with format := p.format - 1 }, .field [0x25] false false)
  else some (p, .field [c] false false)

/-- Prints a converted text in its field: blanks, sign, zeros, text, blanks. -/
def layout (flags : Flags) (width precision : Int) (data : List UInt8) (negative numeric : Bool)
    (color : Int32) (s : Screen) : Screen :=
  let len : Int := if 0 ≤ precision then min data.length precision else data.length
  let sign : UInt8 :=
    if numeric && negative then 0x2D
    else if flags.pluspositive then 0x2B
    else if flags.spacepositive then 0x20
    else 0
  let signLen : Int := if sign ≠ 0 then 1 else 0
  let zeros : Int :=
    if numeric && precision > len then precision - len
    else if flags.zero && !flags.leftjustify && numeric && precision < 0 && len + signLen < width
    then width - len - signLen
    else 0
  let width := width - (len + zeros + signLen)
  let left := if flags.leftjustify then 0 else width.toNat
  let s := consolePutMany s 0x20 color left
  let s := if sign ≠ 0 then consolePutc s sign color else s
  let s := consolePutMany s 0x30 color zeros.toNat
  let s := (data.take len.toNat).foldl (fun s c => consolePutc s c color) s
  consolePutMany s 0x20 color (width - left).toNat

/-! ## The outer loop -/

/-- Where `console_vprintf` is: its place in the format and the arguments, the current colour
and the screen. -/
structure Vprintf where
  place : Place
  color : Int32
  screen : Screen

/-- One round of the outer loop, `++format` included, for a character that is not the NUL. -/
def vprintfStep (fmt : List UInt8) (args : Nat → UInt32) (strs : UInt32 → List UInt8)
    (v : Vprintf) (c : UInt8) : Option Vprintf := do
  if c ≠ 0x25 then
    some { v with
      place.format := v.place.format + 1
      screen := consolePutc v.screen c v.color }
  else
    let (format, flags) ← scanFlags fmt fmt.length (v.place.format + 1)
      ⟨false, false, false, false, false⟩
    let (p, width) ← scanWidth fmt args { v.place with format := format }
    let (p, precision) ← scanPrecision fmt args p
    let (p, conversion) ← convert fmt args strs precision p
    let place : Place := { p with format := p.format + 1 }
    match conversion with
    | .field data negative numeric =>
      some { v with
        place := place
        screen := layout flags width precision data negative numeric v.color v.screen }
    | .color color => some { v with place := place, color := color }

/-- The outer loop, for at most `fuel` characters and directives. -/
def vprintfLoop (fmt : List UInt8) (args : Nat → UInt32) (strs : UInt32 → List UInt8) :
    Nat → Vprintf → Option Vprintf
  | 0, _ => none
  | fuel + 1, v => do
    let c ← fmt[v.place.format]?
    if c = 0 then some v
    else
      let v ← vprintfStep fmt args strs v c
      vprintfLoop fmt args strs fuel v

/-- `console_vprintf` on the format with the bytes `format` before its NUL. -/
def consoleVprintf (s : Screen) (color : Int32) (format : List UInt8) (args : Nat → UInt32)
    (strs : UInt32 → List UInt8) : Option Vprintf :=
  vprintfLoop (format ++ [0]) args strs (format.length + 1) ⟨⟨0, 0⟩, color, s⟩

/-- `console_printf`: the screen afterwards. -/
def consolePrintf (s : Screen) (color : Int32) (format : List UInt8) (args : Nat → UInt32)
    (strs : UInt32 → List UInt8) : Option Screen :=
  (consoleVprintf s color format args strs).map Vprintf.screen

end SchedOS
