import SchedOS.Infra.Memory

/-!
# Block devices

A device is a sequence of bytes that is read in blocks of a fixed size. Blocks that are stored one
after the other make up a contiguous part of the device in memory (`storeBlocks_apply`). To get at
arbitrary bytes, one has to read from a block boundary to a block boundary: `alignDown` and
`alignUp` say from where to where, and `and_mask` how the former is computed.
-/

namespace Infra

/-! ## Alignment -/

/-- The last multiple of `size` that is not above `n`. -/
def alignDown (size n : Nat) : Nat := n / size * size

/-- The first multiple of `size` that is not below `n`. -/
def alignUp (size n : Nat) : Nat := (n + (size - 1)) / size * size

section Align

variable {size n : Nat}

theorem alignDown_le : alignDown size n ≤ n := Nat.div_mul_le_self n size

theorem alignDown_add_mod : alignDown size n + n % size = n := Nat.div_add_mod' n size

theorem le_alignUp (hsize : 0 < size) : n ≤ alignUp size n := by
  have h := Nat.div_add_mod' (n + (size - 1)) size
  have hlt := Nat.mod_lt (n + (size - 1)) hsize
  unfold alignUp
  omega

theorem alignUp_lt (hsize : 0 < size) : alignUp size n < n + size := by
  have h : alignUp size n ≤ n + (size - 1) := Nat.div_mul_le_self _ _
  omega

theorem dvd_alignDown : size ∣ alignDown size n := Dvd.intro_left _ rfl

theorem dvd_alignUp : size ∣ alignUp size n := Dvd.intro_left _ rfl

/-- Clearing the low bits rounds down. -/
theorem and_mask {x : Nat} (hn : n ≤ 32) (h : x < 2 ^ 32) :
    x &&& (2 ^ (32 - n) - 1) <<< n = alignDown (2 ^ n) x := by
  have hx : alignDown (2 ^ n) x = (x >>> n) <<< n := by
    rw [Nat.shiftRight_eq_div_pow, Nat.shiftLeft_eq, alignDown]
  rw [hx]
  refine Nat.eq_of_testBit_eq fun i => ?_
  rw [Nat.testBit_and, Nat.testBit_shiftLeft, Nat.testBit_shiftLeft, Nat.testBit_shiftRight,
    Nat.testBit_two_pow_sub_one]
  by_cases hi : n ≤ i
  · rw [show n + (i - n) = i by omega]
    by_cases hlt : i - n < 32 - n
    · simp [hi, hlt]
    · have hbig : x.testBit i = false :=
        Nat.testBit_lt_two_pow (Nat.lt_of_lt_of_le h (Nat.pow_le_pow_right (by decide) (by omega)))
      simp [hbig]
  · simp [hi]

end Align

/-! ## Blocks -/

section Blocks

variable (device : Nat → UInt8) (size : Nat)

/-- The `len` bytes of the device from `start` on. -/
def contents (start len : Nat) : List UInt8 := (List.range len).map fun k => device (start + k)

/-- Block `n`. -/
def block (n : Nat) : List UInt8 := contents device (size * n) size

/-- Stores `count` blocks from block `n` on, one after the other. -/
def storeBlocks : Nat → UInt32 → Nat → Mem → Mem
  | 0, _, _, m => m
  | count + 1, a, n, m =>
    storeBlocks count (a + UInt32.ofNat size) (n + 1) (writeBytes m a (block device size n))

variable {device size}

@[simp] theorem length_contents (start len : Nat) : (contents device start len).length = len := by
  simp [contents]

theorem contents_add (start len len' : Nat) : contents device start (len + len')
    = contents device start len ++ contents device (start + len) len' := by
  simp [contents, List.range_add, Function.comp_def, Nat.add_assoc]

theorem storeBlocks_eq : ∀ (count : Nat) (a : UInt32) (n : Nat) (m : Mem),
    storeBlocks device size count a n m = writeBytes m a (contents device (size * n) (count * size))
  | 0, a, n, m => by
    rw [storeBlocks, Nat.zero_mul]
    rfl
  | count + 1, a, n, m => by
    rw [storeBlocks, storeBlocks_eq count, Nat.add_mul, Nat.one_mul, Nat.add_comm (count * size),
      contents_add, writeBytes_append, length_contents, Nat.mul_add, Nat.mul_one]
    rfl

/-- **What is found in memory** after some blocks have been stored. -/
theorem storeBlocks_apply {count : Nat} (h : count * size ≤ 2 ^ 32) (a : UInt32) (n : Nat) (m : Mem)
    (x : UInt32) : storeBlocks device size count a n m x
      = if InSpan a (count * size) x then device (size * n + (x - a).toNat) else m x := by
  rw [storeBlocks_eq, writeBytes_apply _ _ _ _ (by rw [length_contents]; exact h)]
  by_cases hin : InSpan a (count * size) x
  · have hlt : (x - a).toNat < count * size := hin
    rw [if_pos hin, List.getElem?_eq_getElem (by rwa [length_contents])]
    simp [contents]
  · have hle : count * size ≤ (x - a).toNat := Nat.le_of_not_lt hin
    rw [if_neg hin, List.getElem?_eq_none (by rwa [length_contents])]
    rfl

end Blocks

end Infra
