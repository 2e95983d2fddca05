import Mathlib.Tactic

/-!
# Bit-fields

A record of bit-fields lies in a number with its first field in the lowest bits. Whoever knows
where the bits of a field are cuts it out again (`cut_pack`), also if it knows the record only as
a number; a value that has been split over several fields is put together with `++`
(`cut_append_cut`).
-/

namespace Infra

/-- A value with its width. -/
structure Bitfield where
  {width : Nat}
  value : BitVec width

/-- The number of bits of a record. -/
def totalWidth (fs : List Bitfield) : Nat := (fs.map Bitfield.width).sum

/-- The number that a record makes up. -/
def pack : List Bitfield → Nat
  | [] => 0
  | f :: fs => f.value.toNat + 2 ^ f.width * pack fs

/-- The `len` bits of `n` from bit `lo` on. -/
def cut (n lo len : Nat) : BitVec len := BitVec.ofNat len (n / 2 ^ lo)

@[simp] theorem totalWidth_cons (f : Bitfield) (fs : List Bitfield) :
    totalWidth (f :: fs) = f.width + totalWidth fs := by
  simp [totalWidth]

theorem cut_add_mul (n m : Nat) {w lo len : Nat} (h : lo + len ≤ w) :
    cut (n + 2 ^ w * m) lo len = cut n lo len := by
  obtain ⟨d, rfl⟩ := Nat.exists_eq_add_of_le h
  refine BitVec.eq_of_toNat_eq ?_
  rw [cut, cut, BitVec.toNat_ofNat, BitVec.toNat_ofNat,
    show n + 2 ^ (lo + len + d) * m = n + 2 ^ lo * (2 ^ len * (2 ^ d * m)) by ring,
    Nat.add_mul_div_left _ _ (Nat.two_pow_pos lo), Nat.add_mul_mod_self_left]

/-- The fields behind the first one. -/
theorem cut_cons (f : Bitfield) (fs : List Bitfield) (lo len : Nat) :
    cut (pack (f :: fs)) (f.width + lo) len = cut (pack fs) lo len := by
  rw [cut, cut, pack, Nat.pow_add, ← Nat.div_div_eq_div_mul,
    Nat.add_mul_div_left _ _ (Nat.two_pow_pos _), Nat.div_eq_of_lt f.value.isLt, Nat.zero_add]

/-- **What has been packed is found where the widths before it add up to.** -/
theorem cut_pack : ∀ (fs : List Bitfield) (i : Nat) (h : i < fs.length),
    cut (pack fs) (totalWidth (fs.take i)) (fs[i]).width = (fs[i]).value
  | f :: fs, 0, _ => by
    have hf : f.value.toNat % 2 ^ f.width = f.value.toNat := Nat.mod_eq_of_lt f.value.isLt
    refine BitVec.eq_of_toNat_eq ?_
    show (cut (pack (f :: fs)) 0 f.width).toNat = f.value.toNat
    rw [cut, BitVec.toNat_ofNat, pack, Nat.pow_zero, Nat.div_one, Nat.add_mul_mod_self_left, hf]
  | f :: fs, i + 1, h => by
    have hi : i < fs.length := Nat.lt_of_succ_lt_succ h
    show cut (pack (f :: fs)) (totalWidth (f :: fs.take i)) (fs[i]).width = (fs[i]).value
    rw [totalWidth_cons, cut_cons, cut_pack fs i hi]

/-- Two cuts that meet are one. -/
theorem cut_append_cut (n lo a b : Nat) : cut n (lo + a) b ++ cut n lo a = cut n lo (b + a) := by
  refine BitVec.eq_of_toNat_eq ?_
  rw [BitVec.toNat_append, cut, cut, cut, BitVec.toNat_ofNat, BitVec.toNat_ofNat,
    BitVec.toNat_ofNat, ← Nat.shiftLeft_add_eq_or_of_lt (Nat.mod_lt _ (Nat.two_pow_pos a)),
    Nat.shiftLeft_eq, Nat.pow_add 2 lo a, ← Nat.div_div_eq_div_mul, Nat.add_comm b a,
    Nat.pow_add, Nat.mod_mul]
  ring

theorem getLsbD_cut (n lo : Nat) {len i : Nat} (hi : i < len) :
    (cut n lo len).getLsbD i = n.testBit (lo + i) := by
  rw [cut, BitVec.getLsbD_ofNat, Nat.testBit_div_two_pow, Nat.add_comm i lo]
  simp [hi]

theorem cut_or (n m lo len : Nat) : cut (n ||| m) lo len = cut n lo len ||| cut m lo len := by
  refine BitVec.eq_of_getLsbD_eq fun i hi => ?_
  rw [BitVec.getLsbD_or, getLsbD_cut _ _ hi, getLsbD_cut _ _ hi, getLsbD_cut _ _ hi,
    Nat.testBit_or]

/-- A bit that is set elsewhere makes no difference. -/
theorem cut_or_two_pow (n : Nat) {b lo len : Nat} (h : b < lo ∨ lo + len ≤ b) :
    cut (n ||| 2 ^ b) lo len = cut n lo len := by
  refine BitVec.eq_of_getLsbD_eq fun i hi => ?_
  have hne : b ≠ lo + i := by omega
  rw [getLsbD_cut _ _ hi, getLsbD_cut _ _ hi, Nat.testBit_or, Nat.testBit_two_pow_of_ne hne,
    Bool.or_false]

theorem cut_self (n : Nat) {w : Nat} (v : BitVec w) (h : n = v.toNat) : cut n 0 w = v := by
  subst h
  simp [cut]

end Infra
