import SchedOS.Lib.Format

/-!
# `console_vprintf` follows its format

The format pointer of `console_vprintf` moves in several nested places, and at the end of the
format one of them moves it back. `At` says what is left of the format behind it; each part of
`console_vprintf` is shown to take its piece off that, and to leave the place in the argument list
behind what the piece demands.

* `vprintf_eq` — what `console_vprintf` does, for every format and all arguments
* `vprintf_in_step` — it comes to an end at the NUL, having taken exactly the arguments demanded
-/

namespace SchedOS

open Infra

/-! ## What is left of a format -/

/-- From `i` on, the string is `cs` and then the NUL. -/
def At (fmt : List UInt8) (i : Nat) (cs : List UInt8) : Prop := fmt.drop i = cs ++ [0]

section At

variable {fmt : List UInt8} {i : Nat} {cs : List UInt8}

/-- The character that is read is the next one, … -/
theorem At.getElem?_cons {c : UInt8} (h : At fmt i (c :: cs)) : fmt[i]? = some c := by
  rw [← List.head?_drop, show fmt.drop i = (c :: cs) ++ [0] from h]
  rfl

/-- … or the NUL. -/
theorem At.getElem?_nil (h : At fmt i []) : fmt[i]? = some 0 := by
  rw [← List.head?_drop, show fmt.drop i = [] ++ [0] from h]
  rfl

theorem At.advance (text : List UInt8) (h : At fmt i (text ++ cs)) :
    At fmt (i + text.length) cs := by
  unfold At at h ⊢
  rw [← List.drop_drop, h, List.append_assoc, List.drop_left]

theorem At.length_lt (h : At fmt i cs) : cs.length < fmt.length := by
  have hlen := congrArg List.length (show fmt.drop i = cs ++ [0] from h)
  simp only [List.length_drop, List.length_append, List.length_singleton] at hlen
  omega

end At

/-! ## Flags -/

/-- The flags of either. -/
def Flags.or (f g : Flags) : Flags :=
  ⟨f.alt || g.alt, f.zero || g.zero, f.leftjustify || g.leftjustify,
    f.spacepositive || g.spacepositive, f.pluspositive || g.pluspositive⟩

theorem Flags.or_of_cons (f : Flags) (c : UInt8) (cs : List UInt8) :
    (f.or (.of [c])).or (.of cs) = f.or (.of (c :: cs)) := by
  simp [Flags.or, Flags.of, Bool.or_assoc]

theorem Flags.or_of_nil (f : Flags) : f.or (.of []) = f := by
  simp [Flags.or, Flags.of]

theorem Flags.of_or (cs : List UInt8) :
    Flags.or ⟨false, false, false, false, false⟩ (.of cs) = .of cs := by
  simp [Flags.or]

theorem isFlag_iff (c : UInt8) :
    isFlag c = true ↔ c = 0x23 ∨ c = 0x30 ∨ c = 0x2D ∨ c = 0x20 ∨ c = 0x2B := by
  have hchars : literal "#0- +" = [0x23, 0x30, 0x2D, 0x20, 0x2B] := by decide
  simp [isFlag, hchars]

theorem Flags.add_eq (flags : Flags) (c : UInt8) :
    flags.add c = if isFlag c then some (flags.or (.of [c])) else none := by
  by_cases hflag : isFlag c = true
  · rw [if_pos hflag]
    rw [isFlag_iff] at hflag
    rcases hflag with rfl | rfl | rfl | rfl | rfl <;> simp [Flags.add, Flags.or, Flags.of]
  · rw [if_neg hflag]
    rw [isFlag_iff] at hflag
    push Not at hflag
    obtain ⟨h₁, h₂, h₃, h₄, h₅⟩ := hflag
    simp [Flags.add, h₁, h₂, h₃, h₄, h₅]

section Scan

variable {fmt : List UInt8}

/-- The loop over the flags. -/
theorem scanFlags_eq : ∀ (cs : List UInt8) {i fuel : Nat} (flags : Flags), At fmt i cs →
    0 ∉ cs → cs.length < fuel → scanFlags fmt fuel i flags
      = some (i + (cs.takeWhile isFlag).length, flags.or (.of (cs.takeWhile isFlag)))
  | _, _, 0, _, _, _, hfuel => absurd hfuel (Nat.not_lt_zero _)
  | [], i, fuel + 1, flags, h, _, _ => by
    simp [scanFlags, h.getElem?_nil, Flags.or_of_nil]
  | c :: cs, i, fuel + 1, flags, h, h0, hfuel => by
    have hc : c ≠ 0 := fun hc => h0 (hc ▸ List.mem_cons_self)
    have hcs : 0 ∉ cs := fun hcs => h0 (List.mem_cons_of_mem _ hcs)
    rw [scanFlags, h.getElem?_cons]
    simp only [Option.bind_eq_bind, Option.bind_some, if_neg hc, Flags.add_eq]
    by_cases hflag : isFlag c = true
    · have hnext : At fmt (i + 1) cs := At.advance [c] h
      simp only [hflag, if_true, List.takeWhile_cons_of_pos, List.length_cons]
      rw [scanFlags_eq cs _ hnext hcs (Nat.lt_of_succ_lt_succ hfuel), Flags.or_of_cons]
      congr 2
      omega
    · simp [hflag, Flags.or_of_nil]

/-! ## Numbers -/

/-- The loop over the digits of a number. -/
theorem scanNumber_eq : ∀ (cs : List UInt8) {i fuel : Nat} (v : Int), At fmt i cs →
    cs.length < fuel → scanNumber fmt fuel i v = some (i + (cs.takeWhile isDigit).length,
      (cs.takeWhile isDigit).foldl (fun (v : Int) (c : UInt8) => 10 * v + c.toNat - 0x30) v)
  | _, _, 0, _, _, hfuel => absurd hfuel (Nat.not_lt_zero _)
  | [], i, fuel + 1, v, h, _ => by
    have h0 : isDigit 0 = false := by decide
    simp [scanNumber, h.getElem?_nil, h0]
  | c :: cs, i, fuel + 1, v, h, hfuel => by
    rw [scanNumber, h.getElem?_cons]
    simp only [Option.bind_eq_bind, Option.bind_some]
    by_cases hdigit : isDigit c = true
    · have hnext : At fmt (i + 1) cs := At.advance [c] h
      simp only [hdigit, if_true, List.takeWhile_cons_of_pos, List.length_cons, List.foldl_cons]
      rw [scanNumber_eq cs _ hnext (Nat.lt_of_succ_lt_succ hfuel)]
      congr 2
      omega
    · simp [hdigit]

variable {args : Nat → UInt32} {p : Place} {cs : List UInt8}

/-- A width. -/
theorem scanWidth_eq (h : At fmt p.format cs) : scanWidth fmt args p
    = some (⟨p.format + (cutSize isWidthDigit cs).1.source.length,
        p.val + (cutSize isWidthDigit cs).1.count⟩,
      (cutSize isWidthDigit cs).1.value fun i => args (p.val + i)) := by
  cases cs with
  | nil =>
    rw [scanWidth, h.getElem?_nil]
    rfl
  | cons c cs =>
    rw [scanWidth, h.getElem?_cons]
    simp only [Option.bind_eq_bind, Option.bind_some]
    by_cases hdigit : (decide (0x31 ≤ c) && decide (c ≤ 0x39)) = true
    · rw [if_pos hdigit, scanNumber_eq (c :: cs) 0 h h.length_lt, cutSize_digits hdigit]
      rfl
    · rw [if_neg hdigit]
      by_cases hstar : c = 0x2A
      · subst hstar
        rw [if_pos rfl, cutSize_star hdigit]
        rfl
      · rw [if_neg hstar, cutSize_absent hdigit hstar]
        rfl

/-- A precision. -/
theorem scanPrecision_eq (h : At fmt p.format cs) : scanPrecision fmt args p
    = some (⟨p.format + ((cutPrecision cs).1.elim [] fun q => 0x2E :: q.source).length,
        p.val + (cutPrecision cs).1.elim 0 Size.count⟩,
      (cutPrecision cs).1.elim (-1) fun q => max 0 (q.value fun i => args (p.val + i))) := by
  have hmax : ∀ x : Int, (if x < 0 then 0 else x) = max 0 x := by
    intro x
    split <;> omega
  cases cs with
  | nil =>
    rw [scanPrecision, h.getElem?_nil]
    rfl
  | cons c cs =>
    rw [scanPrecision, h.getElem?_cons]
    simp only [Option.bind_eq_bind, Option.bind_some, cutPrecision]
    by_cases hdot : c = 0x2E
    · have hnext : At fmt (p.format + 1) cs := At.advance [c] h
      simp only [if_pos hdot, hmax]
      cases cs with
      | nil =>
        rw [hnext.getElem?_nil]
        rfl
      | cons c cs =>
        simp only [hnext.getElem?_cons, Option.bind_some]
        by_cases hdigit : isDigit c = true
        · rw [if_pos hdigit, scanNumber_eq (c :: cs) 0 hnext hnext.length_lt,
            cutSize_digits hdigit]
          simp only [Option.bind_some, Option.elim_some, Size.source, List.length_cons, Size.count,
            Size.value, decimal, Nat.add_zero]
          congr 3
          omega
        · rw [if_neg hdigit]
          by_cases hstar : c = 0x2A
          · subst hstar
            rw [if_pos rfl, cutSize_star hdigit]
            rfl
          · rw [if_neg hstar, cutSize_absent hdigit hstar]
            rfl
    · simp only [if_neg hdot]
      rfl

end Scan

/-! ## Digits -/

section Digits

variable {base : UInt32} {digits : List UInt8}

theorem numeral_of_lt {b n : Nat} (h : n / b = 0) (hb : 1 < b) :
    numeral b digits n = [digits.getD (n % b) 0] := by
  have hlt : n < b := Nat.lt_of_div_eq_zero (by omega) h
  rw [Nat.mod_eq_of_lt hlt, numeral]
  split
  · next hn => rw [hn]
  · next hn => rw [Nat.digits_of_lt b n hn hlt, List.reverse_singleton, List.map_singleton]

theorem numeral_of_ge {b n : Nat} (h : n / b ≠ 0) (hb : 1 < b) :
    numeral b digits n = numeral b digits (n / b) ++ [digits.getD (n % b) 0] := by
  have hn : n ≠ 0 := by
    rintro rfl
    exact h (Nat.zero_div b)
  rw [numeral, if_neg hn, numeral, if_neg h, Nat.digits_def' hb (Nat.pos_of_ne_zero hn),
    List.reverse_cons, List.map_append, List.map_singleton]

/-- The loop that stores the digits of a number that there is room for. -/
theorem fillDigits_eq (hb : 1 < base.toNat) : ∀ (room : Nat) {val : UInt32} (text : List UInt8),
    val.toNat < base.toNat ^ (room + 1) → fillDigits base digits (room + 1) val text
      = some (numeral base.toNat digits val.toNat ++ text) := by
  intro room
  induction room with
  | zero =>
    intro val text hval
    have hdiv : val.toNat / base.toNat = 0 := Nat.div_eq_of_lt (by simpa using hval)
    have hzero : val / base = 0 := UInt32.toNat_inj.mp (by rw [UInt32.toNat_div, hdiv]; rfl)
    rw [fillDigits, numeral_of_lt hdiv hb]
    simp [hzero, UInt32.toNat_mod]
  | succ room ih =>
    intro val text hval
    rw [fillDigits]
    by_cases hzero : val / base = 0
    · have hdiv : val.toNat / base.toNat = 0 := by rw [← UInt32.toNat_div, hzero]; rfl
      rw [if_neg (not_not_intro hzero), numeral_of_lt hdiv hb, UInt32.toNat_mod]
      rfl
    · have hdiv : val.toNat / base.toNat ≠ 0 := by
        rw [← UInt32.toNat_div]
        exact fun h => hzero (UInt32.toNat_inj.mp h)
      have hlt : (val / base).toNat < base.toNat ^ (room + 1) := by
        rw [UInt32.toNat_div]
        exact Nat.div_lt_of_lt_mul (by rwa [Nat.mul_comm, ← pow_succ])
      rw [if_pos hzero, ih _ hlt, numeral_of_ge hdiv hb, UInt32.toNat_div, UInt32.toNat_mod,
        List.append_assoc]
      rfl

/-- **`numbuf` is large enough** for every number in base 10 or more. -/
theorem fillNumbuf_eq (hb : 10 ≤ base.toNat) (val : UInt32) (precision : Int) :
    fillNumbuf numbufsiz val base digits precision
      = some (if precision = 0 ∧ val.toNat = 0 then []
          else numeral base.toNat digits val.toNat) := by
  have hval : val.toNat < base.toNat ^ 19 :=
    calc val.toNat < 2 ^ 32 := val.toNat_lt
      _ ≤ 10 ^ 19 := by norm_num
      _ ≤ base.toNat ^ 19 := Nat.pow_le_pow_left hb 19
  have hzero : val = 0 ↔ val.toNat = 0 := by rw [← UInt32.toNat_inj]; rfl
  show (if precision ≠ 0 ∨ val ≠ 0 then fillDigits base digits (18 + 1) val [] else some []) = _
  rw [fillDigits_eq (by omega) 18 [] hval, List.append_nil]
  by_cases h : precision = 0 ∧ val.toNat = 0
  · rw [if_pos h, if_neg (by tauto)]
  · rw [if_neg h, if_pos (by tauto)]

end Digits

/-- The absolute value is computed modulo `2 ^ 32`, which is right for `INT_MIN` too. -/
theorem toNat_abs (x : Int32) : (if 0 < x then x else -x).toUInt32.toNat = x.toInt.natAbs := by
  have hlt := x.toUInt32.toNat_lt
  have hint : x.toInt = if 2 * x.toUInt32.toNat < 2 ^ 32 then (x.toUInt32.toNat : Int)
      else x.toUInt32.toNat - (2 ^ 32 : Nat) := BitVec.toInt_eq_toNat_cond x.toBitVec
  have hpos : 0 < x ↔ 0 < x.toInt := Int32.lt_iff_toInt_lt
  by_cases h : 0 < x
  · rw [if_pos h]
    rw [hpos] at h
    split at hint <;> omega
  · rw [if_neg h, Int32.toUInt32_neg, UInt32.toNat_neg, show UInt32.size = 2 ^ 32 from rfl]
    rw [hpos] at h
    split at hint <;> omega

/-! ## Conversions -/

section Convert

variable {fmt : List UInt8} {args : Nat → UInt32} {strs : UInt32 → List UInt8} {precision : Int}
  {p : Place} {cs : List UInt8}

theorem takesArgument_iff (c : UInt8) : takesArgument c = true ↔
    c = 0x64 ∨ c = 0x75 ∨ c = 0x78 ∨ c = 0x58 ∨ c = 0x73 ∨ c = 0x43 ∨ c = 0x63 := by
  have hchars : literal "duxXsCc" = [0x64, 0x75, 0x78, 0x58, 0x73, 0x43, 0x63] := by decide
  simp [takesArgument, hchars]

/-- **The `switch`.** At the end of the format the pointer goes back, as `++format` is to follow. -/
theorem convert_eq (h : At fmt p.format cs) (h0 : 0 ∉ cs) :
    convert fmt args strs precision p
      = some (⟨p.format + cs.head?.toList.length - 1,
          p.val + (cs.head?.toList.filter takesArgument).length⟩,
        conversionOf strs precision (args p.val) cs.head?) := by
  cases cs with
  | nil =>
    rw [convert, h.getElem?_nil]
    rfl
  | cons c cs =>
    have hc : c ≠ 0 := fun hc => h0 (hc ▸ List.mem_cons_self)
    have hbase : ∀ b : UInt32, b = 10 ∨ b = 16 → 10 ≤ b.toNat := by
      rintro b (rfl | rfl) <;> decide
    rw [convert, h.getElem?_cons]
    simp only [Option.bind_eq_bind, Option.bind_some, List.head?_cons, Option.toList_some,
      List.length_singleton, Nat.add_sub_cancel, conversionOf]
    by_cases hd : c = 0x64
    · subst hd
      simp only [if_true, fillNumbuf_eq (hbase 10 (Or.inl rfl)), toNat_abs]
      rfl
    by_cases hu : c = 0x75
    · subst hu
      simp only [if_neg hd, if_true, fillNumbuf_eq (hbase 10 (Or.inl rfl))]
      rfl
    by_cases hx : c = 0x78
    · subst hx
      simp only [if_neg hd, if_neg hu, if_true, fillNumbuf_eq (hbase 16 (Or.inr rfl))]
      rfl
    by_cases hX : c = 0x58
    · subst hX
      simp only [if_neg hd, if_neg hu, if_neg hx, if_true, fillNumbuf_eq (hbase 16 (Or.inr rfl))]
      rfl
    by_cases hs : c = 0x73
    · subst hs
      rfl
    by_cases hC : c = 0x43
    · subst hC
      rfl
    by_cases hcc : c = 0x63
    · subst hcc
      rfl
    have htakes : takesArgument c = false := by
      rw [← Bool.not_eq_true, takesArgument_iff]
      simp only [hd, hu, hx, hX, hs, hC, hcc, or_self, not_false_eq_true]
    simp only [if_neg hd, if_neg hu, if_neg hx, if_neg hX, if_neg hs, if_neg hC, if_neg hcc,
      if_neg hc, List.filter_cons, htakes]
    rfl

/-- A conversion that takes no argument does not look at one. -/
theorem conversionOf_congr (c : Option UInt8) {arg arg' : UInt32}
    (h : (c.toList.filter takesArgument).length ≠ 0 → arg = arg') :
    conversionOf strs precision arg c = conversionOf strs precision arg' c := by
  cases c with
  | none => rfl
  | some c =>
    by_cases htakes : takesArgument c = true
    · rw [h (by simp [htakes])]
    · rw [takesArgument_iff] at htakes
      push Not at htakes
      obtain ⟨h₁, h₂, h₃, h₄, h₅, h₆, h₇⟩ := htakes
      simp [conversionOf, h₁, h₂, h₃, h₄, h₅, h₆, h₇]

end Convert

/-! ## Printing -/

/-- Prints characters, each in its colour. -/
def printAll (xs : List (UInt8 × Int32)) (s : Screen) : Screen :=
  xs.foldl (fun s x => consolePutc s x.1 x.2) s

theorem printAll_append (xs ys : List (UInt8 × Int32)) (s : Screen) :
    printAll (xs ++ ys) s = printAll ys (printAll xs s) :=
  List.foldl_append

/-- Prints characters in one colour. -/
def printText (color : Int32) (text : List UInt8) (s : Screen) : Screen :=
  printAll (text.map (·, color)) s

section Print

variable {color : Int32} {s : Screen}

theorem printText_append (xs ys : List UInt8) :
    printText color (xs ++ ys) s = printText color ys (printText color xs s) := by
  rw [printText, List.map_append, printAll_append]
  rfl

theorem printText_nil : printText color [] s = s := rfl

theorem foldl_consolePutc (text : List UInt8) :
    text.foldl (fun s c => consolePutc s c color) s = printText color text s := by
  rw [printText, printAll, List.foldl_map]

theorem consolePutMany_eq (c : UInt8) : ∀ (n : Nat) (s : Screen),
    consolePutMany s c color n = printText color (List.replicate n c) s
  | 0, _ => rfl
  | n + 1, s => by
    rw [consolePutMany, consolePutMany_eq c n, List.replicate_succ]
    rfl

/-- The sign as `layout` computes it. -/
theorem printSign (color : Int32) (flags : Flags) (negative : Bool) (s : Screen) :
    printText color (signOf flags negative) s
      = (let sign : UInt8 := if negative then 0x2D
          else if flags.pluspositive then 0x2B
          else if flags.spacepositive then 0x20
          else 0
        if sign ≠ 0 then consolePutc s sign color else s) := by
  unfold signOf
  split
  · rfl
  · split
    · rfl
    · split
      · rfl
      · rfl

theorem length_signOf (flags : Flags) (negative : Bool) :
    ((signOf flags negative).length : Int)
      = (let sign : UInt8 := if negative then 0x2D
          else if flags.pluspositive then 0x2B
          else if flags.spacepositive then 0x20
          else 0
        if sign ≠ 0 then 1 else 0) := by
  unfold signOf
  split
  · rfl
  · split
    · rfl
    · split
      · rfl
      · rfl

/-- The length that a text is cut to. -/
theorem cut_length (precision : Int) (data : List UInt8) :
    (if 0 ≤ precision then min (data.length : Int) precision else data.length)
      = ((if 0 ≤ precision then data.take precision.toNat else data).length : Int) := by
  split
  · rw [List.length_take]
    omega
  · rfl

theorem take_cut_length (precision : Int) (data : List UInt8) :
    data.take (if 0 ≤ precision then data.take precision.toNat else data).length
      = if 0 ≤ precision then data.take precision.toNat else data := by
  split
  · rw [List.length_take]
    rcases Nat.le_total precision.toNat data.length with hle | hle
    · rw [Nat.min_eq_left hle]
    · rw [Nat.min_eq_right hle, List.take_length, List.take_of_length_le hle]
  · exact List.take_length

/-- The zeros, as `layout` computes them. -/
theorem zeros_eq (flags : Flags) {width precision : Int} {numeric : Bool} {len signLen : Nat}
    (hlen : 0 ≤ precision → (len : Int) ≤ precision) :
    (if numeric && precision > len then precision - len
      else if flags.zero && !flags.leftjustify && numeric && precision < 0
        && len + signLen < width then width - len - signLen
      else 0 : Int)
      = ((if !numeric then 0
        else if 0 ≤ precision then precision.toNat - len
        else if flags.zero && !flags.leftjustify then width.toNat - (signLen + len)
        else 0 : Nat) : Int) := by
  cases numeric with
  | false => simp
  | true =>
    by_cases hp : 0 ≤ precision
    · have hle := hlen hp
      simp only [Bool.true_and, decide_eq_true_eq, Bool.not_true, if_neg Bool.false_ne_true, hp,
        if_true, show ¬ precision < 0 by omega, decide_false, Bool.and_false, Bool.false_and]
      split <;> omega
    · have hneg : precision < 0 := by omega
      simp only [Bool.true_and, decide_eq_true_eq, Bool.not_true, if_neg Bool.false_ne_true, hp,
        if_false, hneg, show ¬ precision > (len : Int) by omega, decide_true, Bool.and_true]
      cases flags.zero && !flags.leftjustify with
      | false => simp
      | true =>
        simp only [Bool.true_and, decide_eq_true_eq, if_true]
        split <;> omega

/-- **The loops that print a field**, with the counters that they share. -/
theorem layout_eq (flags : Flags) (width precision : Int) (data : List UInt8)
    (negative numeric : Bool) (color : Int32) (s : Screen) :
    layout flags width precision data negative numeric color s
      = printText color (fieldOf flags width precision data negative numeric).text s := by
  have hsign := length_signOf flags (numeric && negative)
  have hprint := printSign color flags (numeric && negative)
  dsimp only at hsign hprint
  unfold layout fieldOf
  dsimp only [Field.text]
  rw [← hsign, cut_length, Int.toNat_natCast, take_cut_length]
  simp only [← hprint, consolePutMany_eq, foldl_consolePutc, ← printText_append,
    List.append_assoc]
  have hlen : 0 ≤ precision →
      ((if 0 ≤ precision then data.take precision.toNat else data).length : Int) ≤ precision := by
    intro hp
    rw [if_pos hp, List.length_take]
    omega
  generalize (if 0 ≤ precision then data.take precision.toNat else data) = body at hlen ⊢
  generalize signOf flags (numeric && negative) = sign
  rw [zeros_eq flags hlen, Int.toNat_natCast]
  generalize (if !numeric then 0
    else if 0 ≤ precision then precision.toNat - body.length
    else if flags.zero && !flags.leftjustify then width.toNat - (sign.length + body.length)
    else 0 : Nat) = zeros
  -- what the width leaves for the blanks, negative if it is too small
  have hpad : (width - ((body.length + zeros : Int) + sign.length)).toNat
      = width.toNat - (sign.length + zeros + body.length) := by omega
  cases flags.leftjustify with
  | true =>
    simp only [if_true, Int.sub_zero, Nat.cast_zero, hpad]
  | false =>
    have hnone : (width - ((body.length + zeros : Int) + sign.length)
        - ((width.toNat - (sign.length + zeros + body.length) : Nat) : Int)).toNat = 0 := by omega
    simp only [if_neg Bool.false_ne_true, hpad, hnone]

end Print

/-! ## A piece -/

section Step

variable {fmt : List UInt8} {args : Nat → UInt32} {strs : UInt32 → List UInt8} {v : Vprintf}
  {c : UInt8} {cs : List UInt8}

/-- Where `console_vprintf` is behind a piece. -/
def Vprintf.after (v : Vprintf) (args : Nat → UInt32) (strs : UInt32 → List UInt8) (x : Piece) :
    Vprintf where
  place := ⟨v.place.format + x.source.length, v.place.val + x.demands.length⟩
  color := x.color (fun i => args (v.place.val + i)) strs v.color
  screen := printText v.color (x.text (fun i => args (v.place.val + i)) strs) v.screen

theorem vprintfStep_char (hc : c ≠ 0x25) :
    vprintfStep fmt args strs v c = some (v.after args strs (.char c)) := by
  rw [vprintfStep, if_pos hc]
  rfl

theorem Directive.length_demands (d : Directive) :
    d.demands.length = d.sizes + (d.conversion.toList.filter takesArgument).length := by
  simp [Directive.demands, Directive.sizes, Nat.add_assoc]

/-- What is scanned of a directive before its conversion character. -/
theorem scan_directive (args : Nat → UInt32) {p : Place} (h : At fmt p.format (0x25 :: cs))
    (h0 : 0 ∉ cs) :
    ∃ (format : Nat) (q : Place),
      scanFlags fmt fmt.length (p.format + 1) ⟨false, false, false, false, false⟩
        = some (format, .of (cutDirective cs).1.flags) ∧
      scanWidth fmt args { p with format := format }
        = some (q, (cutDirective cs).1.width.value fun i => args (p.val + i)) ∧
      scanPrecision fmt args q
        = some (⟨p.format + (cutDirective cs).1.source.length
              - (cutDirective cs).1.conversion.toList.length, p.val + (cutDirective cs).1.sizes⟩,
            (cutDirective cs).1.precisionValue fun i => args (p.val + i)) ∧
      At fmt (p.format + (cutDirective cs).1.source.length
        - (cutDirective cs).1.conversion.toList.length)
        (cutPrecision (cutSize isWidthDigit (cs.dropWhile isFlag)).2).2 := by
  -- each part leaves off where the next one begins
  have hstart : At fmt (p.format + 1) cs := At.advance [0x25] h
  have hwidth : At fmt (p.format + 1 + (cs.takeWhile isFlag).length) (cs.dropWhile isFlag) := by
    refine At.advance (cs.takeWhile isFlag) ?_
    rwa [List.takeWhile_append_dropWhile]
  have hprecision : At fmt (p.format + 1 + (cs.takeWhile isFlag).length
      + (cutSize isWidthDigit (cs.dropWhile isFlag)).1.source.length)
      (cutSize isWidthDigit (cs.dropWhile isFlag)).2 := by
    refine At.advance (cutSize isWidthDigit (cs.dropWhile isFlag)).1.source ?_
    rwa [cutSize_source]
  have hconversion := At.advance
    ((cutPrecision (cutSize isWidthDigit (cs.dropWhile isFlag)).2).1.elim []
      fun q => 0x2E :: q.source)
    (by rw [cutPrecision_source]; exact hprecision)
  have hformat : p.format + 1 + (cs.takeWhile isFlag).length
      + (cutSize isWidthDigit (cs.dropWhile isFlag)).1.source.length
      + ((cutPrecision (cutSize isWidthDigit (cs.dropWhile isFlag)).2).1.elim []
          fun q => 0x2E :: q.source).length
      = p.format + (cutDirective cs).1.source.length
        - (cutDirective cs).1.conversion.toList.length := by
    simp only [Directive.source, List.length_cons, List.length_append, cutDirective]
    omega
  rw [hformat] at hconversion
  refine ⟨p.format + 1 + (cs.takeWhile isFlag).length, _, ?_,
    scanWidth_eq (p := ⟨_, p.val⟩) hwidth, ?_, hconversion⟩
  · rw [scanFlags_eq cs _ hstart h0 hstart.length_lt, Flags.of_or]
    rfl
  · rw [scanPrecision_eq (p := ⟨_, _⟩) hprecision, hformat]
    simp only [Directive.sizes, Directive.precisionValue, cutDirective, Nat.add_assoc]

/-- The conversion of the directive, and the step back at the end of the format. -/
theorem convert_directive (strs : UInt32 → List UInt8) (precision : Int) {p : Place} (h0 : 0 ∉ cs)
    (h : At fmt (p.format + (cutDirective cs).1.source.length
        - (cutDirective cs).1.conversion.toList.length)
      (cutPrecision (cutSize isWidthDigit (cs.dropWhile isFlag)).2).2) :
    convert fmt args strs precision
        ⟨p.format + (cutDirective cs).1.source.length
          - (cutDirective cs).1.conversion.toList.length, p.val + (cutDirective cs).1.sizes⟩
      = some (⟨p.format + (cutDirective cs).1.source.length - 1,
          p.val + (cutDirective cs).1.demands.length⟩,
        conversionOf strs precision (args (p.val + (cutDirective cs).1.sizes))
          (cutDirective cs).1.conversion) := by
  have hrest : 0 ∉ (cutPrecision (cutSize isWidthDigit (cs.dropWhile isFlag)).2).2 := by
    intro hmem
    refine h0 (List.dropWhile_subset isFlag ?_)
    rw [← cutSize_source (cs.dropWhile isFlag),
      ← cutPrecision_source (cutSize isWidthDigit (cs.dropWhile isFlag)).2]
    exact List.mem_append_right _ (List.mem_append_right _ hmem)
  have hle : (cutDirective cs).1.conversion.toList.length
      ≤ (cutDirective cs).1.source.length := by
    simp only [Directive.source, List.length_cons, List.length_append]
    omega
  have hback : p.format + (cutDirective cs).1.source.length
      - (cutDirective cs).1.conversion.toList.length
      + (cutDirective cs).1.conversion.toList.length - 1
      = p.format + (cutDirective cs).1.source.length - 1 := by omega
  rw [convert_eq (p := ⟨_, _⟩) h hrest, Directive.length_demands, ← Nat.add_assoc, ← hback]
  rfl

theorem vprintfStep_directive (h : At fmt v.place.format (0x25 :: cs)) (h0 : 0 ∉ cs) :
    vprintfStep fmt args strs v 0x25
      = some (v.after args strs (.directive (cutDirective cs).1)) := by
  obtain ⟨f, p, hflags, hwidth, hprecision, hat⟩ := scan_directive args h h0
  have hsource : v.place.format + (cutDirective cs).1.source.length - 1 + 1
      = v.place.format + (cutDirective cs).1.source.length := by
    simp only [Directive.source, List.length_cons]
    omega
  rw [vprintfStep, if_neg (not_not_intro rfl), hflags]
  simp only [Option.bind_eq_bind, Option.bind_some]
  rw [hwidth]
  simp only [Option.bind_some]
  rw [hprecision]
  simp only [Option.bind_some]
  rw [convert_directive strs _ h0 hat]
  simp only [Option.bind_some, hsource, Vprintf.after, Piece.source, Piece.demands, Piece.color,
    Piece.text, Directive.conversionValue]
  cases conversionOf strs ((cutDirective cs).1.precisionValue fun i => args (v.place.val + i))
      (args (v.place.val + (cutDirective cs).1.sizes)) (cutDirective cs).1.conversion with
  | field data negative numeric => simp only [layout_eq]
  | color color => simp only [printText_nil]

end Step

/-! ## The outer loop -/

section Loop

variable {fmt : List UInt8} {args : Nat → UInt32} {strs : UInt32 → List UInt8}

/-- What `console_vprintf` has done when it has come to the end of a format that begins with the
pieces `xs`. -/
def Vprintf.end (v : Vprintf) (args : Nat → UInt32) (strs : UInt32 → List UInt8)
    (xs : List Piece) : Vprintf where
  place := ⟨v.place.format + (xs.flatMap Piece.source).length,
    v.place.val + (xs.flatMap Piece.demands).length⟩
  color := lastColor strs xs (fun i => args (v.place.val + i)) v.color
  screen := printAll (output strs xs (fun i => args (v.place.val + i)) v.color) v.screen

theorem Vprintf.end_cons (v : Vprintf) (x : Piece) (xs : List Piece) :
    (v.after args strs x).end args strs xs = v.end args strs (x :: xs) := by
  simp only [Vprintf.end, Vprintf.after, lastColor, output, printAll_append, List.flatMap_cons,
    List.length_append, Nat.add_assoc]
  rfl

/-- **The outer loop**, piece by piece. -/
theorem vprintfLoop_eq (cs : List UInt8) : ∀ {fuel : Nat} {v : Vprintf},
    At fmt v.place.format cs → 0 ∉ cs → cs.length < fuel →
    vprintfLoop fmt args strs fuel v = some (v.end args strs (pieces cs)) := by
  fun_induction pieces cs with
  | case1 =>
    intro fuel v h _ hfuel
    obtain ⟨fuel, rfl⟩ := Nat.exists_eq_succ_of_ne_zero (Nat.ne_zero_of_lt hfuel)
    rw [vprintfLoop, h.getElem?_nil]
    rfl
  | case2 cs ih =>
    intro fuel v h h0 hfuel
    obtain ⟨fuel, rfl⟩ := Nat.exists_eq_succ_of_ne_zero (Nat.ne_zero_of_lt hfuel)
    have hcs : 0 ∉ cs := fun hmem => h0 (List.mem_cons_of_mem _ hmem)
    have hnext : At fmt (v.after args strs (.directive (cutDirective cs).1)).place.format
        (cutDirective cs).2 := by
      refine At.advance (cutDirective cs).1.source ?_
      rwa [cutDirective_source]
    have hrest : 0 ∉ (cutDirective cs).2 := by
      intro hmem
      refine h0 ?_
      rw [← cutDirective_source]
      exact List.mem_append_right _ hmem
    have hlt : (cutDirective cs).2.length < fuel :=
      Nat.lt_of_le_of_lt (length_cutDirective_le cs) (Nat.lt_of_succ_lt_succ hfuel)
    rw [vprintfLoop, h.getElem?_cons]
    simp only [Option.bind_eq_bind, Option.bind_some]
    rw [if_neg (by decide), vprintfStep_directive h hcs]
    simp only [Option.bind_some]
    rw [ih hnext hrest hlt, Vprintf.end_cons]
  | case3 c cs hc ih =>
    intro fuel v h h0 hfuel
    obtain ⟨fuel, rfl⟩ := Nat.exists_eq_succ_of_ne_zero (Nat.ne_zero_of_lt hfuel)
    have hne : c ≠ 0 := fun hc => h0 (hc ▸ List.mem_cons_self)
    have hcs : 0 ∉ cs := fun hmem => h0 (List.mem_cons_of_mem _ hmem)
    have hnext : At fmt (v.after args strs (.char c)).place.format cs := At.advance [c] h
    rw [vprintfLoop, h.getElem?_cons]
    simp only [Option.bind_eq_bind, Option.bind_some]
    rw [if_neg hne, vprintfStep_char hc]
    simp only [Option.bind_some]
    rw [ih hnext hcs (Nat.lt_of_succ_lt_succ hfuel), Vprintf.end_cons]

theorem Vprintf.end_pieces (s : Screen) (color : Int32) (format : List UInt8) :
    Vprintf.end ⟨⟨0, 0⟩, color, s⟩ args strs (pieces format)
      = ⟨⟨format.length, (demands format).length⟩, lastColor strs (pieces format) args color,
          printAll (output strs (pieces format) args color) s⟩ := by
  simp only [Vprintf.end, pieces_source, Nat.zero_add]
  rfl

/-- **What `console_vprintf` does.** -/
theorem vprintf_eq (s : Screen) (color : Int32) {format : List UInt8} (h0 : 0 ∉ format)
    (args : Nat → UInt32) (strs : UInt32 → List UInt8) :
    consoleVprintf s color format args strs
      = some ⟨⟨format.length, (demands format).length⟩,
          lastColor strs (pieces format) args color,
          printAll (output strs (pieces format) args color) s⟩ := by
  have hstart : At (format ++ [0]) 0 format := List.drop_zero
  rw [consoleVprintf, vprintfLoop_eq (v := ⟨⟨0, 0⟩, color, s⟩) format hstart h0
    (Nat.lt_succ_self _), Vprintf.end_pieces]

end Loop

/-! ## Only what is demanded is taken -/

section Congr

variable {args args' : Nat → UInt32} {strs : UInt32 → List UInt8}

theorem Size.value_congr {z : Size} (h : ∀ i, i < z.count → args' i = args i) :
    z.value args' = z.value args := by
  cases z with
  | star => rw [Size.value, Size.value, h 0 (Nat.one_pos)]
  | absent => rfl
  | digits text => rfl

variable {d : Directive} (h : ∀ i, i < d.demands.length → args' i = args i)
include h

theorem Directive.width_congr : d.width.value args' = d.width.value args :=
  Size.value_congr fun i hi => h i (by rw [d.length_demands, Directive.sizes]; omega)

theorem Directive.precisionValue_congr : d.precisionValue args' = d.precisionValue args := by
  unfold Directive.precisionValue
  cases hp : d.precision with
  | none => rw [Option.elim_none, Option.elim_none]
  | some p =>
    have hvalue : p.value (fun i => args' (d.width.count + i))
        = p.value fun i => args (d.width.count + i) := by
      refine Size.value_congr fun i hi => h _ ?_
      rw [d.length_demands, Directive.sizes, hp, Option.elim_some]
      omega
    rw [Option.elim_some, Option.elim_some, hvalue]

theorem Directive.conversionValue_congr :
    d.conversionValue args' strs = d.conversionValue args strs := by
  unfold Directive.conversionValue
  rw [Directive.precisionValue_congr h]
  refine conversionOf_congr _ fun htakes => h _ ?_
  rw [d.length_demands]
  omega

end Congr

theorem output_congr (strs : UInt32 → List UInt8) : ∀ (xs : List Piece)
    (args args' : Nat → UInt32) (color : Int32),
    (∀ i, i < (xs.flatMap Piece.demands).length → args' i = args i) →
    output strs xs args' color = output strs xs args color ∧
      lastColor strs xs args' color = lastColor strs xs args color
  | [], _, _, _, _ => ⟨rfl, rfl⟩
  | x :: xs, args, args', color, h => by
    simp only [List.flatMap_cons, List.length_append] at h
    have hpiece : x.text args' strs = x.text args strs ∧
        x.color args' strs color = x.color args strs color := by
      cases x with
      | char c => exact ⟨rfl, rfl⟩
      | directive d =>
        have hd : ∀ i, i < d.demands.length → args' i = args i :=
          fun i hi => h i (Nat.lt_add_right _ hi)
        simp only [Piece.text, Piece.color, Directive.conversionValue_congr hd,
          Directive.width_congr hd, Directive.precisionValue_congr hd, and_self]
    have hrest := output_congr strs xs (fun i => args (x.demands.length + i))
      (fun i => args' (x.demands.length + i)) (x.color args strs color)
      fun i hi => h _ (Nat.add_lt_add_left hi _)
    simp only [output, lastColor, hpiece, hrest, and_self]

/-- **The format is followed to its end and no further.** It is made up of the pieces, each of
which gets its own arguments, in order, and no other arguments are looked at. -/
theorem vprintf_in_step (s : Screen) (color : Int32) (format : List UInt8) (h0 : 0 ∉ format)
    (args : Nat → UInt32) (strs : UInt32 → List UInt8) :
    (pieces format).flatMap Piece.source = format ∧
    ∃ v, consoleVprintf s color format args strs = some v ∧
      v.place = ⟨format.length, (demands format).length⟩ ∧
      v.screen = printAll (output strs (pieces format) args color) s ∧
      ∀ args', (∀ i, i < (demands format).length → args' i = args i) →
        consoleVprintf s color format args' strs = some v := by
  refine ⟨pieces_source format, _, vprintf_eq s color h0 args strs, rfl, rfl, fun args' h => ?_⟩
  obtain ⟨houtput, hcolor⟩ := output_congr strs (pieces format) args args' color h
  rw [vprintf_eq s color h0, houtput, hcolor]

/-- A format that breaks off in a directive, which is printed as a `%`. -/
theorem vprintf_in_step_cut : ∃ v,
    consoleVprintf ⟨consoleBegin, fun _ => 0⟩ 0x0700 (literal "%-*d|%0") (fun _ => 5)
      (fun _ => []) = some v ∧ v.place = ⟨7, 2⟩ := by
  obtain ⟨-, v, hv, hplace, -⟩ := vprintf_in_step ⟨consoleBegin, fun _ => 0⟩ 0x0700
    (literal "%-*d|%0") (by decide) (fun _ => 5) fun _ => []
  have hdemands : (demands (literal "%-*d|%0")).length = 2 := by decide +kernel
  rw [hdemands] at hplace
  exact ⟨v, hv, hplace⟩

end SchedOS
