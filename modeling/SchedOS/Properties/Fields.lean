import SchedOS.Properties.Format

/-!
# The fields of `console_vprintf`

A conversion is printed in a field: blanks, a sign, zeros, the text itself and blanks, as wide as
its width asks for or as its contents need.

* `vprintf_fields` — the field of every conversion in every format
-/

namespace SchedOS

open Infra

/-- The conversions that print their argument. -/
def isField (c : UInt8) : Bool := (literal "duxXsc").contains c

/-- The numeric ones among them. -/
def isNumeric (c : UInt8) : Bool := (literal "duxX").contains c

/-- Everything that a conversion has to print of its argument: the digits of a number without its
sign, a string, or a character. -/
def wholeText (strs : UInt32 → List UInt8) (c : UInt8) (arg : UInt32) : List UInt8 :=
  if c = 0x64 then numeral 10 upperDigits arg.toInt32.toInt.natAbs
  else if c = 0x75 then numeral 10 upperDigits arg.toNat
  else if c = 0x78 then numeral 16 lowerDigits arg.toNat
  else if c = 0x58 then numeral 16 upperDigits arg.toNat
  else if c = 0x73 then strs arg
  else cstring [arg.toUInt8]

/-- Only `d` prints negative numbers. -/
def isNegative (c : UInt8) (arg : UInt32) : Bool := c == 0x64 && decide (arg.toInt32 < 0)

/-- What the field of a directive with the conversion `c` looks like. `args` are its arguments. -/
structure LaidOut (d : Directive) (c : UInt8) (args : Nat → UInt32) (strs : UInt32 → List UInt8)
    (f : Field) : Prop where
  /-- There is at most one sign character. -/
  sign : f.sign = [] ∨ f.sign = [0x2D] ∨ f.sign = [0x2B] ∨ f.sign = [0x20]
  /-- Which one it is. -/
  sign_eq : f.sign = signOf (.of d.flags) (isNegative c (args d.sizes))
  length : f.text.length
    = max (d.width.value args).toNat (f.sign.length + f.zeros + f.body.length)
  left : 0x2D ∈ d.flags → f.left = 0
  right : 0x2D ∉ d.flags → f.right = 0
  /-- The flag `0` alone fills up a number, and does so to the width. -/
  zero_flag : isNumeric c = true → 0x30 ∈ d.flags → 0x2D ∉ d.flags → d.precision = none →
    f.left = 0 ∧ f.right = 0 ∧
      f.text.length = max (d.width.value args).toNat (f.sign.length + f.body.length)
  /-- All other zeros come from the precision. -/
  zeros : ¬(isNumeric c = true ∧ 0x30 ∈ d.flags ∧ 0x2D ∉ d.flags ∧ d.precision = none) →
    f.zeros = if isNumeric c = true ∧ d.precision ≠ none
      then (d.precisionValue args).toNat - f.body.length else 0
  /-- The body is the whole text, or as much of it as the precision leaves. -/
  body : f.body = if d.precision = none then wholeText strs c (args d.sizes)
    else (wholeText strs c (args d.sizes)).take (d.precisionValue args).toNat
  string : c = 0x73 → f.body = if d.precision = none then strs (args d.sizes)
    else (strs (args d.sizes)).take (d.precisionValue args).toNat

/-! ## Fields in general -/

section Field

variable {flags : Flags} {width precision : Int} {data : List UInt8} {negative numeric : Bool}

theorem Field.length_text (f : Field) :
    f.text.length = f.left + (f.sign.length + (f.zeros + (f.body.length + f.right))) := by
  simp [Field.text]

theorem signOf_cases (flags : Flags) (negative : Bool) :
    signOf flags negative = [] ∨ signOf flags negative = [0x2D] ∨
      signOf flags negative = [0x2B] ∨ signOf flags negative = [0x20] := by
  unfold signOf
  split
  · exact Or.inr (Or.inl rfl)
  · split
    · exact Or.inr (Or.inr (Or.inl rfl))
    · split
      · exact Or.inr (Or.inr (Or.inr rfl))
      · exact Or.inl rfl

variable (f : Field) (hf : fieldOf flags width precision data negative numeric = f)
include hf

theorem fieldOf_body : f.body = if 0 ≤ precision then data.take precision.toNat else data := by
  rw [← hf]
  rfl

theorem fieldOf_sign : f.sign = signOf flags (numeric && negative) := by
  rw [← hf]
  rfl

theorem fieldOf_zeros : f.zeros = if !numeric then 0
    else if 0 ≤ precision then precision.toNat - f.body.length
    else if flags.zero && !flags.leftjustify then width.toNat - (f.sign.length + f.body.length)
    else 0 := by
  rw [← hf]
  rfl

theorem fieldOf_left : f.left = if flags.leftjustify then 0
    else width.toNat - (f.sign.length + f.zeros + f.body.length) := by
  rw [← hf]
  rfl

theorem fieldOf_right : f.right = if flags.leftjustify
    then width.toNat - (f.sign.length + f.zeros + f.body.length) else 0 := by
  rw [← hf]
  rfl

/-- A field is as wide as it has to be. -/
theorem fieldOf_length :
    f.text.length = max width.toNat (f.sign.length + f.zeros + f.body.length) := by
  rw [Field.length_text, fieldOf_left f hf, fieldOf_right f hf]
  cases flags.leftjustify with
  | true =>
    simp only [if_true]
    omega
  | false =>
    simp only [if_neg Bool.false_ne_true]
    omega

end Field

/-! ## The field of a conversion -/

section Directive

variable {d : Directive} {c : UInt8} (args : Nat → UInt32) (strs : UInt32 → List UInt8)

theorem precisionValue_nonneg_iff : 0 ≤ d.precisionValue args ↔ d.precision ≠ none := by
  unfold Directive.precisionValue
  cases d.precision with
  | none => simp
  | some p => simp

theorem isField_iff (c : UInt8) : isField c = true ↔
    c = 0x64 ∨ c = 0x75 ∨ c = 0x78 ∨ c = 0x58 ∨ c = 0x73 ∨ c = 0x63 := by
  have hchars : literal "duxXsc" = [0x64, 0x75, 0x78, 0x58, 0x73, 0x63] := by decide
  simp [isField, hchars]

/-- A zero without digits is what precision 0 leaves of it. -/
theorem cut_numericConversion (base : Nat) (digits : List UInt8) (val : Nat) {precision : Int} :
    (if 0 ≤ precision then
        (if precision = 0 ∧ val = 0 then [] else numeral base digits val).take precision.toNat
      else if precision = 0 ∧ val = 0 then [] else numeral base digits val)
      = if 0 ≤ precision then (numeral base digits val).take precision.toNat
        else numeral base digits val := by
  by_cases h : precision = 0 ∧ val = 0
  · simp [h.1]
  · rw [if_neg h]

/-- The text that is laid out, and whether it is a number. -/
theorem conversionValue_field (hc : d.conversion = some c) (hfield : isField c = true) :
    ∃ data negative, d.conversionValue args strs = .field data negative (isNumeric c) ∧
      (isNumeric c && negative) = isNegative c (args d.sizes) ∧
      (if 0 ≤ d.precisionValue args then data.take (d.precisionValue args).toNat else data)
        = if 0 ≤ d.precisionValue args
          then (wholeText strs c (args d.sizes)).take (d.precisionValue args).toNat
          else wholeText strs c (args d.sizes) := by
  unfold Directive.conversionValue
  rw [hc]
  rw [isField_iff] at hfield
  rcases hfield with rfl | rfl | rfl | rfl | rfl | rfl
  · exact ⟨_, _, rfl, Bool.true_and _, cut_numericConversion 10 upperDigits _⟩
  · exact ⟨_, _, rfl, rfl, cut_numericConversion 10 upperDigits _⟩
  · exact ⟨_, _, rfl, rfl, cut_numericConversion 16 lowerDigits _⟩
  · exact ⟨_, _, rfl, rfl, cut_numericConversion 16 upperDigits _⟩
  · exact ⟨_, _, rfl, rfl, rfl⟩
  · exact ⟨_, _, rfl, rfl, rfl⟩

theorem Directive.laidOut (hc : d.conversion = some c) (hfield : isField c = true) :
    ∃ f, LaidOut d c args strs f ∧ (Piece.directive d).text args strs = f.text := by
  obtain ⟨data, negative, hvalue, hnegative, hdata⟩ :=
    conversionValue_field args strs hc hfield
  obtain ⟨f, hf⟩ : ∃ f, fieldOf (.of d.flags) (d.width.value args) (d.precisionValue args) data
      negative (isNumeric c) = f := ⟨_, rfl⟩
  have hzero : (Flags.of d.flags).zero = decide (0x30 ∈ d.flags) := by simp [Flags.of]
  have hleft : (Flags.of d.flags).leftjustify = decide (0x2D ∈ d.flags) := by simp [Flags.of]
  have hprec : 0 ≤ d.precisionValue args ↔ d.precision ≠ none := precisionValue_nonneg_iff args
  have hbody : f.body = if d.precision = none then wholeText strs c (args d.sizes)
      else (wholeText strs c (args d.sizes)).take (d.precisionValue args).toNat := by
    rw [fieldOf_body f hf, hdata]
    by_cases hp : d.precision = none
    · rw [if_neg (by rw [hprec]; exact not_not_intro hp), if_pos hp]
    · rw [if_pos (hprec.mpr hp), if_neg hp]
  have hlen := fieldOf_length f hf
  have hzeros := fieldOf_zeros f hf
  have hl := fieldOf_left f hf
  have hr := fieldOf_right f hf
  rw [hzero, hleft] at hzeros
  rw [hleft] at hl hr
  refine ⟨f, ?_, ?_⟩
  · constructor
    · rw [fieldOf_sign f hf]
      exact signOf_cases _ _
    · rw [fieldOf_sign f hf, hnegative]
    · exact hlen
    · intro h
      simpa [h] using hl
    · intro h
      simpa [h] using hr
    · intro hn hz hj hp
      have hneg : ¬ 0 ≤ d.precisionValue args := by rw [hprec]; exact not_not_intro hp
      simp only [hn, hz, hj, hneg, Bool.not_true, decide_true, decide_false, Bool.not_false,
        Bool.and_self, if_true, if_false, if_neg Bool.false_ne_true] at hzeros hl hr
      omega
    · intro h
      by_cases hn : isNumeric c = true
      · by_cases hp : d.precision = none
        · have hneg : ¬ 0 ≤ d.precisionValue args := by rw [hprec]; exact not_not_intro hp
          have hflags : ¬(decide (0x30 ∈ d.flags) && !decide (0x2D ∈ d.flags)) = true := by
            simpa using fun hz hj => h ⟨hn, hz, hj, hp⟩
          rw [hzeros, if_neg (by simp [hn]), if_neg hneg, if_neg hflags, if_neg (by simp [hp])]
        · rw [hzeros, if_neg (by simp [hn]), if_pos (hprec.mpr hp), if_pos ⟨hn, hp⟩]
      · rw [hzeros, if_pos (by simpa using hn), if_neg fun hc => hn hc.1]
    · exact hbody
    · rintro rfl
      exact hbody
  · simp only [Piece.text, hvalue, hf]

end Directive

/-! ## Every conversion of a format -/

section Texts

variable (strs : UInt32 → List UInt8)

theorem output_chars : ∀ (xs : List Piece) (args : Nat → UInt32) (color : Int32),
    (output strs xs args color).map Prod.fst = (texts strs xs args).flatten
  | [], _, _ => rfl
  | x :: xs, args, color => by
    rw [output, texts, List.map_append, output_chars xs, List.flatten_cons, List.map_map]
    congr 1
    exact List.map_id _

/-- Each piece has its own arguments, those behind the ones of the pieces before it. -/
theorem texts_getElem? : ∀ (xs : List Piece) (args : Nat → UInt32) (i : Nat),
    (texts strs xs args)[i]?
      = xs[i]?.map fun x => x.text (fun j => args (takenBefore xs i + j)) strs
  | [], _, _ => rfl
  | x :: xs, args, 0 => by simp [texts, takenBefore]
  | x :: xs, args, i + 1 => by
    simp only [texts, List.getElem?_cons_succ, texts_getElem? xs]
    simp only [takenBefore, List.take_succ_cons, List.flatMap_cons, List.length_append,
      Nat.add_assoc]

end Texts

/-- **The field of every conversion.** What `console_vprintf` prints are the texts of the pieces,
and that of a conversion has the layout of its field. -/
theorem vprintf_fields (s : Screen) (color : Int32) (format : List UInt8) (h0 : 0 ∉ format)
    (args : Nat → UInt32) (strs : UInt32 → List UInt8) :
    ∃ v out, consoleVprintf s color format args strs = some v ∧ v.screen = printAll out s ∧
      out.map Prod.fst = (texts strs (pieces format) args).flatten ∧
      ∀ i d c, (pieces format)[i]? = some (.directive d) → d.conversion = some c →
        isField c = true →
        ∃ f, LaidOut d c (fun j => args (takenBefore (pieces format) i + j)) strs f ∧
          (texts strs (pieces format) args)[i]? = some f.text := by
  refine ⟨_, _, vprintf_eq s color h0 args strs, rfl, output_chars _ _ _ _, ?_⟩
  intro i d c hd hc hfield
  obtain ⟨f, hf, htext⟩ := d.laidOut
    (fun j => args (takenBefore (pieces format) i + j)) strs hc hfield
  refine ⟨f, hf, ?_⟩
  rw [texts_getElem?, hd, Option.map_some, htext]

theorem vprintf_fields_two : ∃ v out,
    consoleVprintf ⟨consoleBegin, fun _ => 0⟩ 0x0700 (literal "%05d|%-6.2s")
        (fun i => if i = 0 then -42 else 0x1000) (fun _ => literal "abc") = some v ∧
      v.screen = printAll out ⟨consoleBegin, fun _ => 0⟩ ∧
      out.map Prod.fst = literal "-0042|ab    " := by
  obtain ⟨v, out, hv, hscreen, hout, -⟩ := vprintf_fields ⟨consoleBegin, fun _ => 0⟩ 0x0700
    (literal "%05d|%-6.2s") (by decide) (fun i => if i = 0 then -42 else 0x1000)
    fun _ => literal "abc"
  have htexts : (texts (fun _ => literal "abc") (pieces (literal "%05d|%-6.2s"))
      fun i => if i = 0 then -42 else 0x1000).flatten = literal "-0042|ab    " := by
    decide +kernel
  exact ⟨v, out, hv, hscreen, hout.trans htexts⟩

end SchedOS
