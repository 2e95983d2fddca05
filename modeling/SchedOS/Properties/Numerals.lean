import SchedOS.Properties.Fields

/-!
# The numbers that `console_vprintf` prints

A numeral is read back: blanks around it do not count, a sign may stand before it, and the rest are
digits. A precision is meant to fill a number up with zeros. But `console_vprintf` also cuts
every text to its precision, as it is right for strings, and so a number that has more digits loses
the last ones.

* `vprintf_numerals_iff` — a number can be read back exactly if it has no more digits than the
  precision
-/

namespace SchedOS

open Infra

/-! ## Reading a numeral -/

/-- The value of a digit; 16 if the character is none. -/
def digitValue (c : UInt8) : Nat :=
  if 0x30 ≤ c ∧ c ≤ 0x39 then c.toNat - 0x30
  else if 0x41 ≤ c ∧ c ≤ 0x46 then c.toNat - 0x37
  else if 0x61 ≤ c ∧ c ≤ 0x66 then c.toNat - 0x57
  else 16

/-- The number that digits denote. No digits denote 0. -/
def readDigits (base : Nat) (cs : List UInt8) : Option Nat :=
  if cs.all fun c => digitValue c < base then
    some (cs.foldl (fun v c => base * v + digitValue c) 0)
  else none

/-- A text without the blanks around it. -/
def stripBlanks (text : List UInt8) : List UInt8 :=
  ((text.dropWhile (· = 0x20)).reverse.dropWhile (· = 0x20)).reverse

/-- Whether there is a minus sign, and what follows the sign. -/
def splitSign : List UInt8 → Bool × List UInt8
  | [] => (false, [])
  | c :: cs => if c = 0x2D then (true, cs) else if c = 0x2B then (false, cs) else (false, c :: cs)

/-- The digits of a numeral. -/
def digitsOf (text : List UInt8) : List UInt8 := (splitSign (stripBlanks text)).2

/-- The number that a numeral denotes. -/
def readNumeral (base : Nat) (text : List UInt8) : Option Int :=
  (readDigits base (digitsOf text)).map fun (v : Nat) =>
    if (splitSign (stripBlanks text)).1 then -(v : Int) else v

/-- The text is a numeral for `x`, with as many digits as the precision asks for (`-1` if there is
none); it is without digits for 0 with precision 0 only. -/
structure Lossless (base : Nat) (x precision : Int) (text : List UInt8) : Prop where
  value : readNumeral base text = some x
  digits : precision ≤ (digitsOf text).length
  empty : digitsOf text = [] → x = 0 ∧ precision = 0

instance (base : Nat) (x precision : Int) (text : List UInt8) :
    Decidable (Lossless base x precision text) :=
  decidable_of_iff (readNumeral base text = some x ∧ precision ≤ (digitsOf text).length ∧
      (digitsOf text = [] → x = 0 ∧ precision = 0))
    ⟨fun h => ⟨h.1, h.2.1, h.2.2⟩, fun h => ⟨h.value, h.digits, h.empty⟩⟩

theorem readDigits_of_all {base : Nat} {cs : List UInt8} (h : ∀ c ∈ cs, digitValue c < base) :
    readDigits base cs = some (cs.foldl (fun v c => base * v + digitValue c) 0) :=
  if_pos (by simpa using h)

theorem readDigits_of_not_all {base : Nat} {cs : List UInt8}
    (h : ¬ ∀ c ∈ cs, digitValue c < base) : readDigits base cs = none :=
  if_neg (by simpa using h)

/-! ## Signs and blanks -/

section Strip

theorem dropWhile_replicate_append (n : Nat) {xs : List UInt8} (h : 0x20 ∉ xs)
    (rest : List UInt8) (hne : xs ≠ []) :
    (List.replicate n 0x20 ++ (xs ++ rest)).dropWhile (· = 0x20) = xs ++ rest := by
  rw [List.dropWhile_append_of_pos (by simp)]
  cases xs with
  | nil => exact absurd rfl hne
  | cons x xs =>
    have hx : x ≠ 0x20 := fun hx => h (hx ▸ List.mem_cons_self)
    rw [List.cons_append, List.dropWhile_cons_of_neg (by simpa using hx)]

theorem stripBlanks_pad (l r : Nat) {xs : List UInt8} (h : 0x20 ∉ xs) :
    stripBlanks (List.replicate l 0x20 ++ (xs ++ List.replicate r 0x20)) = xs := by
  unfold stripBlanks
  by_cases hne : xs = []
  · rw [hne, List.nil_append, List.replicate_append_replicate, List.dropWhile_replicate]
    simp
  · rw [dropWhile_replicate_append l h _ hne, List.reverse_append, List.reverse_replicate,
      ← List.append_nil xs.reverse, dropWhile_replicate_append r (by simpa using h) _ (by simpa),
      List.append_nil, List.reverse_reverse]

variable {base : Nat} {ds : List UInt8}

theorem digit_ne (c : UInt8) (h : digitValue c < 16) : c ≠ 0x20 ∧ c ≠ 0x2D ∧ c ≠ 0x2B := by
  refine ⟨?_, ?_, ?_⟩
  all_goals
    rintro rfl
    revert h
    decide

variable (hb : base ≤ 16) (hds : ∀ c ∈ ds, digitValue c < base)
include hb hds

theorem splitSign_digits : splitSign ds = (false, ds) := by
  cases ds with
  | nil => rfl
  | cons c cs =>
    obtain ⟨-, h₁, h₂⟩ := digit_ne c (Nat.lt_of_lt_of_le (hds c List.mem_cons_self) hb)
    rw [splitSign, if_neg h₁, if_neg h₂]

theorem blank_notMem_digits : 0x20 ∉ ds := fun hmem =>
  (digit_ne 0x20 (Nat.lt_of_lt_of_le (hds 0x20 hmem) hb)).1 rfl

/-- A numeral is taken apart. -/
theorem splitSign_strip (l r : Nat) (flags : Flags) (negative : Bool) :
    splitSign (stripBlanks (List.replicate l 0x20
      ++ (signOf flags negative ++ (ds ++ List.replicate r 0x20)))) = (negative, ds) := by
  have hblank := blank_notMem_digits hb hds
  have hsplit := splitSign_digits hb hds
  unfold signOf
  cases negative with
  | true =>
    rw [if_pos rfl, ← List.append_assoc [0x2D], stripBlanks_pad l r (by simp [hblank])]
    rfl
  | false =>
    rw [if_neg Bool.false_ne_true]
    split
    · rw [← List.append_assoc [0x2B], stripBlanks_pad l r (by simp [hblank])]
      rfl
    · split
      · -- a blank for a sign is a blank
        rw [← List.append_assoc, show (List.replicate l 0x20 ++ [0x20] : List UInt8)
          = List.replicate (l + 1) 0x20 from List.replicate_succ'.symm, stripBlanks_pad _ r hblank,
          hsplit]
      · rw [List.nil_append, stripBlanks_pad l r hblank, hsplit]

end Strip

/-! ## Digits -/

section Digits

variable {base : Nat} {digits : List UInt8}

/-- The digits of a number as numbers, the last one first. -/
def numeralDigits (base val : Nat) : List Nat := if val = 0 then [0] else Nat.digits base val

theorem numeral_eq_map (val : Nat) : numeral base digits val
    = (numeralDigits base val).reverse.map fun d => digits.getD d 0 := by
  unfold numeral numeralDigits
  split <;> rfl

theorem numeralDigits_lt (hb : 1 < base) {val d : Nat} (hd : d ∈ numeralDigits base val) :
    d < base := by
  unfold numeralDigits at hd
  split at hd
  · rw [List.mem_singleton.mp hd]
    omega
  · exact Nat.digits_lt_base hb hd

theorem ofDigits_numeralDigits (val : Nat) : Nat.ofDigits base (numeralDigits base val) = val := by
  unfold numeralDigits
  split
  · next h => rw [h, Nat.ofDigits_singleton]
  · exact Nat.ofDigits_digits base val

theorem length_numeralDigits_le_iff (hb : 1 < base) (val p : Nat) (h : ¬(p = 0 ∧ val = 0)) :
    (numeralDigits base val).length ≤ p ↔ val < base ^ p := by
  unfold numeralDigits
  split
  · next hval =>
    have hpos : 0 < base ^ p := Nat.pow_pos (by omega)
    rw [List.length_singleton, hval]
    omega
  · exact Nat.digits_length_le_iff hb val

/-- Cutting the last digits off is a division. -/
theorem ofDigits_drop_lt (hb : 1 < base) {val k : Nat} (hk : 0 < k) (hval : val ≠ 0) :
    Nat.ofDigits base ((numeralDigits base val).drop k) < val := by
  rw [numeralDigits, if_neg hval, ← Nat.self_div_pow_eq_ofDigits_drop k val hb]
  exact Nat.div_lt_self (Nat.pos_of_ne_zero hval) (Nat.one_lt_pow (by omega) hb)

variable (hdigits : ∀ d, d < base → digitValue (digits.getD d 0) = d)
include hdigits

theorem readDigits_map {ds : List Nat} (hds : ∀ d ∈ ds, d < base) :
    readDigits base (ds.reverse.map fun d => digits.getD d 0) = some (Nat.ofDigits base ds) := by
  have hall : ∀ c ∈ ds.reverse.map fun d => digits.getD d 0, digitValue c < base := by
    intro c hc
    obtain ⟨d, hd, rfl⟩ := List.mem_map.mp hc
    have hlt := hds d (List.mem_reverse.mp hd)
    rwa [hdigits d hlt]
  rw [readDigits_of_all hall, List.foldl_map, List.foldl_reverse, Nat.ofDigits_eq_foldr]
  refine congrArg some (List.foldr_ext _ _ _ fun d hd v => ?_)
  rw [hdigits d (hds d hd), Nat.add_comm]
  rfl

omit hdigits in
theorem length_numeralDigits_pos (base val : Nat) : 0 < (numeralDigits base val).length := by
  unfold numeralDigits
  split
  · exact Nat.one_pos
  · next h => exact List.length_pos_of_ne_nil (Nat.digits_ne_nil_iff_ne_zero.mpr h)

omit hdigits in
/-- **What a precision leaves of a number**: all of its digits, or the first ones. -/
theorem cut_numeral (hb : 1 < base) (digits : List UInt8) (val : Nat) (precision : Int)
    {body : List UInt8}
    (hbody : (if 0 ≤ precision then
        (if precision = 0 ∧ val = 0 then [] else numeral base digits val).take precision.toNat
      else if precision = 0 ∧ val = 0 then [] else numeral base digits val) = body) :
    ∃ ds : List Nat, body = ds.reverse.map (fun d => digits.getD d 0) ∧ (∀ d ∈ ds, d < base) ∧
      (Nat.ofDigits base ds = val ↔ precision < 0 ∨ val < base ^ precision.toNat) ∧
      (ds = [] → precision = 0) := by
  have hpos := length_numeralDigits_pos base val
  by_cases hnone : precision = 0 ∧ val = 0
  · obtain ⟨rfl, rfl⟩ := hnone
    refine ⟨[], ?_, by simp, ?_, fun _ => rfl⟩
    · rw [← hbody]
      simp
    · simp
  rw [if_neg hnone, numeral_eq_map] at hbody
  by_cases hp : 0 ≤ precision
  · rw [if_pos hp, ← List.map_take, List.take_reverse] at hbody
    refine ⟨_, hbody.symm, fun d hd => numeralDigits_lt hb (List.mem_of_mem_drop hd), ?_, ?_⟩
    · have hlen := length_numeralDigits_le_iff hb val precision.toNat
        fun h => hnone ⟨by omega, h.2⟩
      by_cases hle : (numeralDigits base val).length ≤ precision.toNat
      · rw [Nat.sub_eq_zero_of_le hle, List.drop_zero, ofDigits_numeralDigits]
        exact iff_of_true rfl (Or.inr (hlen.mp hle))
      · -- some digits are cut off, so the number is not 0
        have hval : val ≠ 0 := by
          rintro rfl
          have hone : (numeralDigits base 0).length = 1 := rfl
          exact hnone ⟨by omega, rfl⟩
        refine iff_of_false (Nat.ne_of_lt (ofDigits_drop_lt hb (by omega) hval)) ?_
        rintro (hneg | hlt)
        · omega
        · exact hle (hlen.mpr hlt)
    · intro hnil
      rw [List.drop_eq_nil_iff] at hnil
      omega
  · rw [if_neg hp] at hbody
    refine ⟨_, hbody.symm, fun d hd => numeralDigits_lt hb hd, ?_, fun hnil => ?_⟩
    · exact iff_of_true (ofDigits_numeralDigits val) (Or.inl (by omega))
    · rw [hnil] at hpos
      exact absurd hpos (Nat.not_lt_zero _)

omit hdigits in
/-- Zeros before the digits make no difference. -/
theorem readDigits_zeros (hb : 0 < base) (n : Nat) (ds : List UInt8) :
    readDigits base (List.replicate n 0x30 ++ ds) = readDigits base ds := by
  have hzero : digitValue 0x30 = 0 := by decide
  have hfold : ∀ n, (List.replicate n 0x30).foldl (fun v c => base * v + digitValue c) 0 = 0 := by
    intro n
    induction n with
    | zero => rfl
    | succ n ih => rw [List.replicate_succ, List.foldl_cons, hzero, Nat.mul_zero, ih]
  have hall : (∀ c ∈ List.replicate n 0x30 ++ ds, digitValue c < base) ↔
      ∀ c ∈ ds, digitValue c < base := by
    constructor
    · intro h c hc
      exact h c (List.mem_append_right _ hc)
    · intro h c hc
      rcases List.mem_append.mp hc with hc | hc
      · rw [List.eq_of_mem_replicate hc, hzero]
        exact hb
      · exact h c hc
  by_cases h : ∀ c ∈ ds, digitValue c < base
  · rw [readDigits_of_all h, readDigits_of_all (hall.mpr h), List.foldl_append, hfold]
  · rw [readDigits_of_not_all h, readDigits_of_not_all (hall.not.mpr h)]

end Digits

/-! ## Numbers in their fields -/

section Field

variable {base : Nat} {digits : List UInt8} (flags : Flags) (width precision : Int) (val : Nat)
  (negative : Bool)

/-- What one reads in a field is its sign and its digits, with the zeros before them. -/
theorem readNumeral_field {data : List UInt8} {f : Field} {v : Nat} (hb16 : base ≤ 16)
    (hf : fieldOf flags width precision data negative true = f)
    (hread : readDigits base (List.replicate f.zeros 0x30 ++ f.body) = some v) :
    digitsOf f.text = List.replicate f.zeros 0x30 ++ f.body ∧
      readNumeral base f.text = some (if negative then -(v : Int) else v) := by
  have hall : ∀ c ∈ List.replicate f.zeros 0x30 ++ f.body, digitValue c < base := by
    by_contra h
    rw [readDigits_of_not_all h] at hread
    cases hread
  have hsplit : splitSign (stripBlanks f.text)
      = (negative, List.replicate f.zeros 0x30 ++ f.body) := by
    rw [Field.text, fieldOf_sign f hf, Bool.true_and,
      ← List.append_assoc (List.replicate f.zeros 0x30)]
    exact splitSign_strip hb16 hall _ _ _ _
  refine ⟨by rw [digitsOf, hsplit], ?_⟩
  simp only [readNumeral, digitsOf, hsplit, hread, Option.map_some]

/-- **A number is printed without loss** exactly if its digits are no more than the precision. -/
theorem lossless_iff (hb : 1 < base) (hb16 : base ≤ 16)
    (hdigits : ∀ d, d < base → digitValue (digits.getD d 0) = d) :
    Lossless base (if negative then -val else val) precision
      (fieldOf flags width precision
        (if precision = 0 ∧ val = 0 then [] else numeral base digits val) negative true).text ↔
      precision < 0 ∨ val < base ^ precision.toNat := by
  obtain ⟨f, hf⟩ : ∃ f, fieldOf flags width precision
    (if precision = 0 ∧ val = 0 then [] else numeral base digits val) negative true = f := ⟨_, rfl⟩
  obtain ⟨ds, hds, hlt, hval, hnil⟩ := cut_numeral hb digits val precision
    (fieldOf_body f hf).symm
  have hzeros := fieldOf_zeros f hf
  have hread : readDigits base (List.replicate f.zeros 0x30 ++ f.body)
      = some (Nat.ofDigits base ds) := by
    rw [readDigits_zeros (by omega), hds, readDigits_map hdigits hlt]
  obtain ⟨hsplitDigits, hnumeral⟩ := readNumeral_field flags width precision negative hb16 hf hread
  have hlen : (digitsOf f.text).length = f.zeros + f.body.length := by
    rw [hsplitDigits, List.length_append, List.length_replicate]
  have hvalue : readNumeral base f.text = some (if negative then -val else val : Int) ↔
      Nat.ofDigits base ds = val := by
    rw [hnumeral, Option.some_inj]
    cases negative <;> simp
  rw [hf]
  constructor
  · intro h
    exact hval.mp (hvalue.mp h.value)
  · intro h
    refine ⟨hvalue.mpr (hval.mpr h), ?_, fun hempty => ?_⟩
    · -- a precision that is given is filled up with zeros
      rw [hlen, hzeros, if_neg (by decide)]
      split
      · omega
      · omega
    · rw [hsplitDigits, List.append_eq_nil_iff, hds, List.map_eq_nil_iff, List.reverse_eq_nil_iff]
        at hempty
      have hvalNil := hval.mpr h
      rw [hempty.2, Nat.ofDigits_nil] at hvalNil
      refine ⟨?_, hnil hempty.2⟩
      rw [← hvalNil]
      cases negative <;> rfl

end Field

/-! ## The numeric conversions -/

/-- The base in which a numeric conversion prints. -/
def baseOf (c : UInt8) : Nat := if c = 0x64 ∨ c = 0x75 then 10 else 16

/-- The number that a numeric conversion takes its argument for. -/
def numberOf (c : UInt8) (arg : UInt32) : Int := if c = 0x64 then arg.toInt32.toInt else arg.toNat

section Directive

variable {d : Directive} {c : UInt8} (args : Nat → UInt32) (strs : UInt32 → List UInt8)

theorem digitValue_upperDigits : ∀ d, d < 16 → digitValue (upperDigits.getD d 0) = d := by decide

theorem digitValue_lowerDigits : ∀ d, d < 16 → digitValue (lowerDigits.getD d 0) = d := by decide

theorem isNumeric_iff (c : UInt8) : isNumeric c = true ↔
    c = 0x64 ∨ c = 0x75 ∨ c = 0x78 ∨ c = 0x58 := by
  have hchars : literal "duxX" = [0x64, 0x75, 0x78, 0x58] := by decide
  simp [isNumeric, hchars]

theorem toInt_eq_natAbs (x : Int32) :
    (if decide (x < 0) then -(x.toInt.natAbs : Int) else x.toInt.natAbs) = x.toInt := by
  have hneg : x < 0 ↔ x.toInt < 0 := by
    rw [Int32.lt_iff_toInt_lt]
    rfl
  by_cases h : x < 0
  · have hlt := hneg.mp h
    simp only [h, decide_true, if_true]
    omega
  · have hle := hneg.not.mp h
    simp only [h, decide_false, if_neg Bool.false_ne_true]
    omega

/-- What a numeric conversion lays out. -/
theorem conversionValue_numeric (hc : d.conversion = some c) (hnum : isNumeric c = true) :
    ∃ digits negative, d.conversionValue args strs = numericConversion (baseOf c) digits
        (d.precisionValue args) (numberOf c (args d.sizes)).natAbs negative ∧
      (∀ x, x < baseOf c → digitValue (digits.getD x 0) = x) ∧
      (if negative then -((numberOf c (args d.sizes)).natAbs : Int)
        else (numberOf c (args d.sizes)).natAbs) = numberOf c (args d.sizes) := by
  unfold Directive.conversionValue
  rw [hc]
  rw [isNumeric_iff] at hnum
  rcases hnum with rfl | rfl | rfl | rfl
  · exact ⟨_, _, rfl, fun x hx => digitValue_upperDigits x (Nat.lt_trans hx (by decide)),
      toInt_eq_natAbs _⟩
  · exact ⟨_, _, rfl, fun x hx => digitValue_upperDigits x (Nat.lt_trans hx (by decide)), rfl⟩
  · exact ⟨_, _, rfl, digitValue_lowerDigits, rfl⟩
  · exact ⟨_, _, rfl, digitValue_upperDigits, rfl⟩

theorem Directive.lossless_iff (hc : d.conversion = some c) (hnum : isNumeric c = true) :
    Lossless (baseOf c) (numberOf c (args d.sizes)) (d.precisionValue args)
      ((Piece.directive d).text args strs) ↔
      d.precision = none ∨
        (numberOf c (args d.sizes)).natAbs < baseOf c ^ (d.precisionValue args).toNat := by
  obtain ⟨digits, negative, hvalue, hdigits, hsign⟩ :=
    conversionValue_numeric args strs hc hnum
  have hnone : d.precision = none ↔ d.precisionValue args < 0 := by
    rw [← Int.not_le, precisionValue_nonneg_iff, not_not]
  have hbase : 1 < baseOf c ∧ baseOf c ≤ 16 := by
    unfold baseOf
    split <;> decide
  have h := SchedOS.lossless_iff (.of d.flags) (d.width.value args) (d.precisionValue args)
    (numberOf c (args d.sizes)).natAbs negative hbase.1 hbase.2 hdigits
  rw [hsign] at h
  rw [hnone, ← h, Piece.text, hvalue]
  rfl

end Directive

/-- **The numbers of a format.** What `console_vprintf` prints are the texts of the pieces, and
that of a numeric conversion denotes its argument exactly if there is no precision or the number
has no more digits than it. -/
theorem vprintf_numerals_iff (s : Screen) (color : Int32) (format : List UInt8) (h0 : 0 ∉ format)
    (args : Nat → UInt32) (strs : UInt32 → List UInt8) :
    ∃ v out, consoleVprintf s color format args strs = some v ∧ v.screen = printAll out s ∧
      out.map Prod.fst = (texts strs (pieces format) args).flatten ∧
      ∀ i d c, (pieces format)[i]? = some (.directive d) → d.conversion = some c →
        isNumeric c = true →
        ∃ text, (texts strs (pieces format) args)[i]? = some text ∧
          (Lossless (baseOf c) (numberOf c (args (takenBefore (pieces format) i + d.sizes)))
              (d.precisionValue fun j => args (takenBefore (pieces format) i + j)) text ↔
            d.precision = none ∨
              (numberOf c (args (takenBefore (pieces format) i + d.sizes))).natAbs < baseOf c
                ^ (d.precisionValue fun j => args (takenBefore (pieces format) i + j)).toNat) := by
  refine ⟨_, _, vprintf_eq s color h0 args strs, rfl, output_chars _ _ _ _, ?_⟩
  intro i d c hd hc hnum
  refine ⟨_, ?_, Directive.lossless_iff
    (fun j => args (takenBefore (pieces format) i + j)) strs hc hnum⟩
  rw [texts_getElem?, hd, Option.map_some]

/-- A number with two digits and one with none. -/
theorem vprintf_numerals_two : ∃ v out,
    consoleVprintf ⟨consoleBegin, fun _ => 0⟩ 0x0700 (literal "%+.3d|%5.0x")
        (fun i => if i = 0 then 42 else 0) (fun _ => []) = some v ∧
      v.screen = printAll out ⟨consoleBegin, fun _ => 0⟩ ∧
      out.map Prod.fst = literal "+042|     " := by
  obtain ⟨v, out, hv, hscreen, hout, -⟩ := vprintf_numerals_iff ⟨consoleBegin, fun _ => 0⟩ 0x0700
    (literal "%+.3d|%5.0x") (by decide) (fun i => if i = 0 then 42 else 0) fun _ => []
  have htexts : (texts (fun _ => []) (pieces (literal "%+.3d|%5.0x"))
      fun i => if i = 0 then 42 else 0).flatten = literal "+042|     " := by
    decide +kernel
  exact ⟨v, out, hv, hscreen, hout.trans htexts⟩

/-- The last digits of a number that has more than the precision are lost. -/
theorem vprintf_loses_digits :
    ∃ v out, consoleVprintf ⟨consoleBegin, fun _ => 0⟩ 0x0700 (literal "%.2d") (fun _ => 12345)
        (fun _ => []) = some v ∧ v.screen = printAll out ⟨consoleBegin, fun _ => 0⟩ ∧
      out.map Prod.fst = literal "12" ∧ ¬ Lossless 10 12345 2 (out.map Prod.fst) := by
  have htexts : (texts (fun _ => []) (pieces (literal "%.2d")) fun _ => 12345).flatten
      = literal "12" := by
    decide +kernel
  have hout := (output_chars (fun _ => []) (pieces (literal "%.2d")) (fun _ => 12345)
    0x0700).trans htexts
  refine ⟨_, _, vprintf_eq _ _ (by decide) _ _, rfl, hout, fun h => ?_⟩
  have hread : readNumeral 10 (literal "12") = some 12 := by decide +kernel
  rw [hout] at h
  have heq := Option.some.inj (hread.symm.trans h.value)
  exact absurd heq (by decide)

end SchedOS
