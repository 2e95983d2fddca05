import SchedOS.Properties.Numerals

/-!
# The digits of `fill_numbuf`

`fill_numbuf` stores the digits of a number from the last one on, downwards from the end of
`numbuf`. There is room for all of them, and they denote the number.

* `fill_numbuf_encodes` — for every number, in both bases and with both tables of digits
-/

namespace SchedOS

open Infra

/-- The text is what `val` is encoded as: it fits `numbuf` together with its NUL, denotes `val`
and has no digits that could be left out. -/
structure Encodes (base : Nat) (val : UInt32) (precision : Int) (text : List UInt8) : Prop where
  fits : text.length + 1 ≤ numbufsiz
  noNul : 0 ∉ text
  value : readDigits base text = some val.toNat
  leading : text.head? = some 0x30 → text = [0x30]
  empty : text = [] ↔ precision = 0 ∧ val = 0

/-- The tables of digits. -/
def IsDigitTable (digits : List UInt8) : Prop := digits = upperDigits ∨ digits = lowerDigits

theorem IsDigitTable.digitValue {digits : List UInt8} (h : IsDigitTable digits) :
    ∀ d, d < 16 → digitValue (digits.getD d 0) = d := by
  rcases h with rfl | rfl
  · exact digitValue_upperDigits
  · exact digitValue_lowerDigits

section Numeral

variable {base val : Nat} {digits : List UInt8}

/-- A number that is not 0 does not begin with a 0. -/
theorem numeralDigits_getLast (hval : val ≠ 0) {d : Nat}
    (h : (numeralDigits base val).getLast? = some d) : d ≠ 0 := by
  rw [numeralDigits, if_neg hval] at h
  have hne : Nat.digits base val ≠ [] := Nat.digits_ne_nil_iff_ne_zero.mpr hval
  rw [← (List.getLast_eq_iff_getLast?_eq_some hne).mpr h]
  exact Nat.getLast_digit_ne_zero base hval

variable (hb : 1 < base) (hdigits : ∀ d, d < base → digitValue (digits.getD d 0) = d)
include hb hdigits

theorem numeral_head? (h : (numeral base digits val).head? = some 0x30) :
    numeral base digits val = [0x30] := by
  rw [numeral_eq_map, List.head?_map, List.head?_reverse, Option.map_eq_some_iff] at h
  obtain ⟨d, hlast, hd⟩ := h
  have hlt := numeralDigits_lt hb (List.mem_of_getLast? hlast)
  have hzero : d = 0 := by
    rw [← hdigits d hlt, hd]
    decide
  by_cases hval : val = 0
  · rw [numeral, if_pos hval, ← hzero, hd]
  · exact absurd hzero (numeralDigits_getLast hval hlast)

theorem readDigits_numeral : readDigits base (numeral base digits val) = some val := by
  rw [numeral_eq_map, readDigits_map hdigits fun d hd => numeralDigits_lt hb hd,
    ofDigits_numeralDigits]

omit hdigits in
theorem length_numeral_le (hval : val < base ^ 19) : (numeral base digits val).length ≤ 19 := by
  rw [numeral_eq_map, List.length_map, List.length_reverse]
  exact (length_numeralDigits_le_iff hb val 19 (by omega)).mpr hval

omit hb hdigits in
theorem numeral_ne_nil : numeral base digits val ≠ [] := by
  rw [numeral_eq_map]
  simpa using List.ne_nil_of_length_pos (length_numeralDigits_pos base val)

end Numeral

/-- What can be read as a number does not contain the byte that ends a string. -/
theorem nul_notMem_of_readDigits {base : Nat} (hb : base ≤ 16) {text : List UInt8} {v : Nat}
    (h : readDigits base text = some v) : 0 ∉ text := by
  intro hmem
  rw [readDigits_of_not_all] at h
  · cases h
  · intro hall
    have hnul : digitValue 0 = 16 := by decide
    have hlt := hall 0 hmem
    omega

theorem encodes_numeral {base : UInt32} {digits : List UInt8} (hbase : base = 10 ∨ base = 16)
    (hdigits : IsDigitTable digits) (val : UInt32) (precision : Int) :
    Encodes base.toNat val precision
      (if precision = 0 ∧ val.toNat = 0 then [] else numeral base.toNat digits val.toNat) := by
  have hten : 10 ≤ base.toNat ∧ base.toNat ≤ 16 := by
    rcases hbase with rfl | rfl
    · decide
    · decide
  have htable : ∀ d, d < base.toNat → digitValue (digits.getD d 0) = d :=
    fun d hd => hdigits.digitValue d (by omega)
  have hread : readDigits base.toNat (numeral base.toNat digits val.toNat) = some val.toNat :=
    readDigits_numeral (by omega) htable
  have hfits : val.toNat < base.toNat ^ 19 :=
    calc val.toNat < 2 ^ 32 := val.toNat_lt
      _ ≤ 10 ^ 19 := by norm_num
      _ ≤ base.toNat ^ 19 := Nat.pow_le_pow_left hten.1 19
  have hzero : val = 0 ↔ val.toNat = 0 := by rw [← UInt32.toNat_inj]; rfl
  by_cases hnone : precision = 0 ∧ val.toNat = 0
  · rw [if_pos hnone]
    exact {
      fits := by decide
      noNul := List.not_mem_nil
      value := by rw [hnone.2]; rfl
      leading := fun h => by cases h
      empty := iff_of_true rfl ⟨hnone.1, hzero.mpr hnone.2⟩ }
  · rw [if_neg hnone]
    exact {
      fits := Nat.succ_le_succ (length_numeral_le (by omega) hfits)
      noNul := nul_notMem_of_readDigits hten.2 hread
      value := hread
      leading := numeral_head? (by omega) htable
      empty := iff_of_false numeral_ne_nil fun h => hnone ⟨h.1, hzero.mp h.2⟩ }

/-- **`fill_numbuf` encodes numbers faithfully**, in both bases and with both tables. The text
is an encoding of `val`; numbers with the same text are the same; and what `%d` hands over is the
absolute value of its argument. -/
theorem fill_numbuf_encodes (base : UInt32) (hbase : base = 10 ∨ base = 16)
    (digits : List UInt8) (hdigits : IsDigitTable digits) :
    (∀ val precision, ∃ text, fillNumbuf numbufsiz val base digits precision = some text ∧
      Encodes base.toNat val precision text) ∧
    (∀ val val' precision precision' digits', IsDigitTable digits' →
      fillNumbuf numbufsiz val base digits precision
        = fillNumbuf numbufsiz val' base digits' precision' → val = val') ∧
    ∀ fmt args strs precision (p : Place), fmt[p.format]? = some 0x64 →
      ∃ magnitude text, magnitude.toNat = (args p.val).toInt32.toInt.natAbs ∧
        fillNumbuf numbufsiz magnitude 10 upperDigits precision = some text ∧
        convert fmt args strs precision p = some ({ p with val := p.val + 1 },
          .field text (decide ((args p.val).toInt32 < 0)) true) := by
  have hten : 10 ≤ base.toNat := by
    rcases hbase with rfl | rfl
    · decide
    · decide
  refine ⟨fun val precision => ?_, fun val val' precision precision' digits' hdigits' h => ?_,
    fun fmt args strs precision p hp => ?_⟩
  · exact ⟨_, fillNumbuf_eq hten val precision, encodes_numeral hbase hdigits val precision⟩
  · rw [fillNumbuf_eq hten, fillNumbuf_eq hten] at h
    have hval := (encodes_numeral hbase hdigits val precision).value
    rw [Option.some.inj h, (encodes_numeral hbase hdigits' val' precision').value] at hval
    exact UInt32.toNat_inj.mp (Option.some.inj hval).symm
  · have htext := @fillNumbuf_eq 10 upperDigits (by decide)
      (if 0 < (args p.val).toInt32 then (args p.val).toInt32
        else -(args p.val).toInt32).toUInt32 precision
    refine ⟨_, _, toNat_abs (args p.val).toInt32, htext, ?_⟩
    rw [convert, hp]
    simp only [Option.bind_eq_bind, Option.bind_some, if_true, htext]

/-- The largest number, in the base and with the table of `%x`. -/
theorem fill_numbuf_encodes_hex : ∃ text,
    fillNumbuf numbufsiz 0xFFFFFFFF 16 lowerDigits (-1) = some text ∧
      Encodes 16 0xFFFFFFFF (-1) text :=
  (fill_numbuf_encodes 16 (Or.inr rfl) lowerDigits (Or.inr rfl)).1 0xFFFFFFFF (-1)

end SchedOS
