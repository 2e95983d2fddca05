import Mathlib.Tactic

/-!
# Byte memory with 32-bit addresses

A memory is a function from addresses to bytes; addresses wrap around at `2 ^ 32`. Words are
stored little-endian. Everything that is written is written byte by byte (`writeBytes`), so
one lemma says what any store does to any address (`writeBytes_apply`); the word accesses
follow from it.

A span is a start address with a length. `InSpan a n x` measures `x` from `a`, modulo
`2 ^ 32`, so that it is right for spans that wrap as well.
-/

namespace Infra

/-- Memory contents. -/
abbrev Mem := UInt32 → UInt8

/-! ## Spans -/

/-- `x` is one of the `n` addresses from `a` on. -/
def InSpan (a : UInt32) (n : Nat) (x : UInt32) : Prop := (x - a).toNat < n

instance (a : UInt32) (n : Nat) (x : UInt32) : Decidable (InSpan a n x) :=
  inferInstanceAs (Decidable (_ < _))

/-- No address lies in both spans. -/
def Apart (a : UInt32) (n : Nat) (b : UInt32) (m : Nat) : Prop :=
  ∀ x, InSpan a n x → ¬ InSpan b m x

theorem Apart.symm {a b : UInt32} {n m : Nat} (h : Apart a n b m) : Apart b m a n :=
  fun x hb ha => h x ha hb

/-- The distance from `a` to `x`, as the subtraction of two addresses computes it. -/
theorem toNat_sub_eq (x a : UInt32) :
    (x - a).toNat = if a.toNat ≤ x.toNat then x.toNat - a.toNat
      else 2 ^ 32 + x.toNat - a.toNat := by
  have hx := x.toNat_lt
  have ha := a.toNat_lt
  rw [UInt32.toNat_sub]
  split <;> omega

/-- In a span that does not wrap, addresses are compared as numbers. -/
theorem inSpan_iff {a x : UInt32} {n : Nat} (h : a.toNat + n ≤ 2 ^ 32) :
    InSpan a n x ↔ a.toNat ≤ x.toNat ∧ x.toNat < a.toNat + n := by
  have hx := x.toNat_lt
  unfold InSpan
  rw [toNat_sub_eq]
  split <;> omega

/-- Two spans one above the other are apart. -/
theorem apart_of_le {a b : UInt32} {n m : Nat} (h : a.toNat + n ≤ b.toNat)
    (hm : b.toNat + m ≤ 2 ^ 32) : Apart a n b m := by
  have hb := b.toNat_lt
  intro x ha hx
  rw [inSpan_iff (by omega)] at ha
  rw [inSpan_iff hm] at hx
  omega

/-- A span that lies in another one, at a distance `d` from its beginning. -/
theorem inSpan_of_add {a d x : UInt32} {n m : Nat} (h : d.toNat + m ≤ n)
    (hx : InSpan (a + d) m x) : InSpan a n x := by
  unfold InSpan at hx ⊢
  rw [show x - a = (x - (a + d)) + d by grind, UInt32.toNat_add]
  omega

theorem inSpan_add {a : UInt32} {n k : Nat} (hk : k < n) (hn : n ≤ 2 ^ 32) :
    InSpan a n (a + UInt32.ofNat k) := by
  unfold InSpan
  rw [show a + UInt32.ofNat k - a = UInt32.ofNat k by grind, UInt32.toNat_ofNat']
  omega

/-! ## Bytes -/

/-- `*a = b` for a byte. -/
def Mem.write (m : Mem) (a : UInt32) (b : UInt8) : Mem := Function.update m a b

/-- Stores a list of bytes at ascending addresses. -/
def writeBytes : Mem → UInt32 → List UInt8 → Mem
  | m, _, [] => m
  | m, a, b :: bs => writeBytes (m.write a b) (a + 1) bs

/-- The `n` bytes from `a` on. -/
def readBytes (m : Mem) (a : UInt32) (n : Nat) : List UInt8 :=
  (List.range n).map fun k => m (a + UInt32.ofNat k)

@[simp] theorem Mem.write_self (m : Mem) (a : UInt32) (b : UInt8) : m.write a b a = b :=
  Function.update_self ..

theorem Mem.write_of_ne {a x : UInt32} (h : x ≠ a) (m : Mem) (b : UInt8) :
    m.write a b x = m x :=
  Function.update_of_ne h ..

@[simp] theorem length_readBytes (m : Mem) (a : UInt32) (n : Nat) :
    (readBytes m a n).length = n := by
  simp [readBytes]

theorem toNat_sub_self (a : UInt32) : (a - a).toNat = 0 := by
  rw [UInt32.sub_self]
  rfl

/-- One goes all the way round to get from the next address back to `a`. -/
theorem toNat_sub_next (a : UInt32) : (a - (a + 1)).toNat = 2 ^ 32 - 1 := by
  rw [show a - (a + 1) = (-1 : UInt32) by grind]
  rfl

theorem toNat_sub_succ {a x : UInt32} (h : x ≠ a) : (x - a).toNat = (x - (a + 1)).toNat + 1 := by
  have hx := x.toNat_lt
  have ha := a.toNat_lt
  have hne : x.toNat ≠ a.toNat := fun he => h (UInt32.toNat_inj.mp he)
  have h1 : (a + 1).toNat = (a.toNat + 1) % 2 ^ 32 := by rw [UInt32.toNat_add]; rfl
  rw [toNat_sub_eq, toNat_sub_eq, h1]
  split <;> split <;> omega

/-- **What a store does.** Inside its span the stored bytes are found, outside the memory is
as it was. -/
theorem writeBytes_apply (x : UInt32) : ∀ (bs : List UInt8) (m : Mem) (a : UInt32),
    bs.length ≤ 2 ^ 32 → writeBytes m a bs x = (bs[(x - a).toNat]?).getD (m x)
  | [], _, _, _ => rfl
  | b :: bs, m, a, hlen => by
    have hlen' : bs.length + 1 ≤ 2 ^ 32 := hlen
    rw [writeBytes, writeBytes_apply x bs _ _ (by omega)]
    by_cases hx : x = a
    · -- the remaining bytes would have to wrap all the way round to reach `a` again
      subst hx
      have hlast : bs.length ≤ (x - (x + 1)).toNat := by
        rw [toNat_sub_next]
        omega
      rw [List.getElem?_eq_none hlast, toNat_sub_self]
      simp
    · rw [toNat_sub_succ hx, List.getElem?_cons_succ, Mem.write_of_ne hx]

/-- The frame of a store. -/
theorem writeBytes_of_not_inSpan {a x : UInt32} {bs : List UInt8} (m : Mem)
    (hlen : bs.length ≤ 2 ^ 32) (hx : ¬ InSpan a bs.length x) : writeBytes m a bs x = m x := by
  rw [writeBytes_apply x bs m a hlen, List.getElem?_eq_none (Nat.le_of_not_lt hx)]
  rfl

theorem writeBytes_add {a : UInt32} {bs : List UInt8} (m : Mem) (hlen : bs.length ≤ 2 ^ 32)
    {k : Nat} (hk : k < bs.length) : writeBytes m a bs (a + UInt32.ofNat k) = bs[k] := by
  have hd : (a + UInt32.ofNat k - a).toNat = k := by
    rw [show a + UInt32.ofNat k - a = UInt32.ofNat k by grind, UInt32.toNat_ofNat']
    omega
  rw [writeBytes_apply _ bs m a hlen, hd, List.getElem?_eq_getElem hk]
  rfl

/-- Bytes just written are read back. -/
theorem readBytes_writeBytes (m : Mem) (a : UInt32) (bs : List UInt8)
    (hlen : bs.length ≤ 2 ^ 32) : readBytes (writeBytes m a bs) a bs.length = bs := by
  refine List.ext_getElem (length_readBytes ..) fun k hk _ => ?_
  rw [length_readBytes] at hk
  simp only [readBytes, List.getElem_map, List.getElem_range]
  exact writeBytes_add m hlen hk

/-- Reading depends only on the span that is read. -/
theorem readBytes_congr {m m' : Mem} {a : UInt32} {n : Nat} (hn : n ≤ 2 ^ 32)
    (h : ∀ x, InSpan a n x → m x = m' x) : readBytes m a n = readBytes m' a n := by
  refine List.map_congr_left fun k hk => ?_
  exact h _ (inSpan_add (List.mem_range.mp hk) hn)

theorem readBytes_succ (m : Mem) (a : UInt32) (n : Nat) :
    readBytes m a (n + 1) = m a :: readBytes m (a + 1) n := by
  rw [readBytes, readBytes, List.range_succ_eq_map, List.map_cons, List.map_map,
    show a + UInt32.ofNat 0 = a by grind]
  congr 1
  refine List.map_congr_left fun k _ => ?_
  rw [Function.comp_apply, Nat.succ_eq_add_one, Nat.add_comm, UInt32.ofNat_add,
    show UInt32.ofNat 1 = 1 from rfl, UInt32.add_assoc]

theorem readBytes_add (m : Mem) (a : UInt32) (n k : Nat) :
    readBytes m a (n + k) = readBytes m a n ++ readBytes m (a + UInt32.ofNat n) k := by
  rw [readBytes, readBytes, readBytes, List.range_add, List.map_append, List.map_map]
  refine congrArg _ (List.map_congr_left fun i _ => ?_)
  rw [Function.comp_apply, UInt32.ofNat_add, UInt32.add_assoc]

theorem readBytes_concat (m : Mem) (a : UInt32) (n : Nat) :
    readBytes m a (n + 1) = readBytes m a n ++ [m (a + UInt32.ofNat n)] := by
  rw [readBytes_add, readBytes_succ]
  rfl

/-- A byte behind the span of a store may as well be stored first. -/
theorem writeBytes_write {a b : UInt32} {bs : List UInt8} (m : Mem) (v : UInt8)
    (hlen : bs.length ≤ 2 ^ 32) (hb : ¬ InSpan a bs.length b) :
    writeBytes (m.write b v) a bs = (writeBytes m a bs).write b v := by
  funext x
  by_cases hx : x = b
  · rw [hx, writeBytes_of_not_inSpan _ hlen hb, Mem.write_self, Mem.write_self]
  · rw [Mem.write_of_ne hx, writeBytes_apply _ _ _ _ hlen, writeBytes_apply _ _ _ _ hlen,
      Mem.write_of_ne hx]

theorem writeBytes_append : ∀ (bs cs : List UInt8) (m : Mem) (a : UInt32),
    writeBytes m a (bs ++ cs) = writeBytes (writeBytes m a bs) (a + UInt32.ofNat bs.length) cs
  | [], cs, m, a => by
    rw [List.nil_append, writeBytes, List.length_nil, show a + UInt32.ofNat 0 = a by grind]
  | b :: bs, cs, m, a => by
    rw [List.cons_append, writeBytes, writeBytes, writeBytes_append, List.length_cons,
      UInt32.ofNat_add, show UInt32.ofNat 1 = 1 from rfl]
    congr 1
    grind

/-! ## Little-endian words -/

/-- The `w` low bytes of `n`, least significant first. -/
def leBytes : Nat → Nat → List UInt8
  | 0, _ => []
  | w + 1, n => UInt8.ofNat n :: leBytes w (n / 256)

/-- The number that little-endian bytes denote. -/
def ofLE : List UInt8 → Nat
  | [] => 0
  | b :: bs => b.toNat + 256 * ofLE bs

@[simp] theorem length_leBytes : ∀ w n : Nat, (leBytes w n).length = w
  | 0, _ => rfl
  | w + 1, n => by rw [leBytes, List.length_cons, length_leBytes w (n / 256)]

/-- Little-endian bytes denote the number they were made from, up to the width. -/
theorem ofLE_leBytes : ∀ w n : Nat, ofLE (leBytes w n) = n % 256 ^ w
  | 0, n => by rw [pow_zero, Nat.mod_one]; rfl
  | w + 1, n => by
    have hb : (UInt8.ofNat n).toNat = n % 256 := UInt8.toNat_ofNat'
    rw [leBytes, ofLE, ofLE_leBytes w (n / 256), hb, pow_succ', Nat.mod_mul]

theorem ofLE_append : ∀ a b : List UInt8, ofLE (a ++ b) = ofLE a + 256 ^ a.length * ofLE b
  | [], b => by simp [ofLE]
  | x :: a, b => by
    rw [List.cons_append, ofLE, ofLE, ofLE_append a b, List.length_cons, pow_succ']
    ring

def readU16 (m : Mem) (a : UInt32) : UInt16 := UInt16.ofNat (ofLE (readBytes m a 2))

def readU32 (m : Mem) (a : UInt32) : UInt32 := UInt32.ofNat (ofLE (readBytes m a 4))

def writeU16 (m : Mem) (a : UInt32) (v : UInt16) : Mem := writeBytes m a (leBytes 2 v.toNat)

def writeU32 (m : Mem) (a : UInt32) (v : UInt32) : Mem := writeBytes m a (leBytes 4 v.toNat)

@[simp] theorem readU16_writeU16 (m : Mem) (a : UInt32) (v : UInt16) :
    readU16 (writeU16 m a v) a = v := by
  have h := readBytes_writeBytes m a (leBytes 2 v.toNat) (by simp)
  rw [length_leBytes] at h
  rw [readU16, writeU16, h, ofLE_leBytes, show 256 ^ 2 = 2 ^ 16 from rfl,
    Nat.mod_eq_of_lt v.toNat_lt, UInt16.ofNat_toNat]

@[simp] theorem readU32_writeU32 (m : Mem) (a : UInt32) (v : UInt32) :
    readU32 (writeU32 m a v) a = v := by
  have h := readBytes_writeBytes m a (leBytes 4 v.toNat) (by simp)
  rw [length_leBytes] at h
  rw [readU32, writeU32, h, ofLE_leBytes, show 256 ^ 4 = 2 ^ 32 from rfl,
    Nat.mod_eq_of_lt v.toNat_lt, UInt32.ofNat_toNat]

theorem writeU16_of_not_inSpan {a x : UInt32} (m : Mem) (v : UInt16) (h : ¬ InSpan a 2 x) :
    writeU16 m a v x = m x :=
  writeBytes_of_not_inSpan m (by simp) (by rwa [length_leBytes])

theorem writeU32_of_not_inSpan {a x : UInt32} (m : Mem) (v : UInt32) (h : ¬ InSpan a 4 x) :
    writeU32 m a v x = m x :=
  writeBytes_of_not_inSpan m (by simp) (by rwa [length_leBytes])

theorem readU16_congr {m m' : Mem} {a : UInt32} (h : ∀ x, InSpan a 2 x → m x = m' x) :
    readU16 m a = readU16 m' a := by
  rw [readU16, readU16, readBytes_congr (by omega) h]

theorem readU32_congr {m m' : Mem} {a : UInt32} (h : ∀ x, InSpan a 4 x → m x = m' x) :
    readU32 m a = readU32 m' a := by
  rw [readU32, readU32, readBytes_congr (by omega) h]

/-! ## Bytes that lie in memory -/

/-- The bytes lie in memory from `a` on. -/
def Holds (m : Mem) (a : UInt32) (bs : List UInt8) : Prop :=
  ∀ k (hk : k < bs.length), m (a + UInt32.ofNat k) = bs[k]

section Holds

variable {m m' : Mem} {a b d : UInt32} {bs : List UInt8} (h : Holds m a bs)
include h

theorem Holds.congr (hlen : bs.length ≤ 2 ^ 32) (hsame : ∀ x, InSpan a bs.length x → m' x = m x) :
    Holds m' a bs := by
  intro k hk
  rw [hsame _ (inSpan_add hk hlen), h k hk]

/-- What is read of them. -/
theorem Holds.read {n : Nat} (hd : d.toNat + n ≤ bs.length) :
    readBytes m (a + d) n = (bs.drop d.toNat).take n := by
  refine List.ext_getElem (by simp; omega) fun k hk _ => ?_
  rw [length_readBytes] at hk
  have haddr : a + d + UInt32.ofNat k = a + UInt32.ofNat (d.toNat + k) := by
    rw [UInt32.ofNat_add, UInt32.ofNat_toNat, UInt32.add_assoc]
  simp only [readBytes, List.getElem_map, List.getElem_range, List.getElem_take,
    List.getElem_drop]
  rw [haddr]
  exact h _ (by omega)

/-- Wherever they lie, the same is read at the same distance from their beginning. -/
theorem Holds.readBytes_eq (h' : Holds m' b bs) {n : Nat} (hd : d.toNat + n ≤ bs.length) :
    readBytes m (a + d) n = readBytes m' (b + d) n := by
  rw [h.read hd, h'.read hd]

theorem Holds.readU16_eq (h' : Holds m' b bs) (hd : d.toNat + 2 ≤ bs.length) :
    readU16 m (a + d) = readU16 m' (b + d) := by
  rw [readU16, readU16, h.readBytes_eq h' hd]

theorem Holds.readU32_eq (h' : Holds m' b bs) (hd : d.toNat + 4 ≤ bs.length) :
    readU32 m (a + d) = readU32 m' (b + d) := by
  rw [readU32, readU32, h.readBytes_eq h' hd]

end Holds

/-! ## Accesses that do not meet -/

theorem readU32_writeU16_of_apart {m : Mem} {a b : UInt32} (v : UInt16) (h : Apart a 2 b 4) :
    readU32 (writeU16 m a v) b = readU32 m b :=
  readU32_congr fun x hx => writeU16_of_not_inSpan m v fun ha => h x ha hx

theorem readU32_writeU32_of_apart {m : Mem} {a b : UInt32} (v : UInt32) (h : Apart a 4 b 4) :
    readU32 (writeU32 m a v) b = readU32 m b :=
  readU32_congr fun x hx => writeU32_of_not_inSpan m v fun ha => h x ha hx

theorem readU16_writeU16_of_apart {m : Mem} {a b : UInt32} (v : UInt16) (h : Apart a 2 b 2) :
    readU16 (writeU16 m a v) b = readU16 m b :=
  readU16_congr fun x hx => writeU16_of_not_inSpan m v fun ha => h x ha hx

theorem readU16_writeU32_of_apart {m : Mem} {a b : UInt32} (v : UInt32) (h : Apart a 4 b 2) :
    readU16 (writeU32 m a v) b = readU16 m b :=
  readU16_congr fun x hx => writeU32_of_not_inSpan m v fun ha => h x ha hx

end Infra
