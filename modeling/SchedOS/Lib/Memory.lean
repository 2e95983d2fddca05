import SchedOS.Infra.Memory

/-!
# `memcpy`, `memmove` and the clearing loops

The functions of `lib.c` that copy and fill memory. A pointer is an address, `size_t` is a
32-bit number; `while (n-- > 0)` makes `n` rounds.
-/

namespace SchedOS

open Infra

/-- The rounds of `memcpy`: `*d++ = *s++`, byte by byte and in ascending order. -/
def memcpyLoop : Nat → UInt32 → UInt32 → Mem → Mem
  | 0, _, _, m => m
  | n + 1, d, s, m => memcpyLoop n (d + 1) (s + 1) (m.write d (m s))

/-- `memcpy(dst, src, n)`. -/
def memcpy (dst src n : UInt32) (m : Mem) : Mem := memcpyLoop n.toNat dst src m

/-- The rounds of `memmove` from the end of the regions on: `*--d = *--s`. -/
def memmoveLoop : Nat → UInt32 → UInt32 → Mem → Mem
  | 0, _, _, m => m
  | n + 1, d, s, m =>
    let d := d - 1
    let s := s - 1
    memmoveLoop n d s (m.write d (m s))

/-- `memmove(dst, src, n)`. -/
def memmove (dst src n : UInt32) (m : Mem) : Mem :=
  if src < dst ∧ src + n > dst then memmoveLoop n.toNat (dst + n) (src + n) m
  else memcpyLoop n.toNat dst src m

/-- `n` rounds of `*a++ = 0`. -/
def clearLoop : Nat → UInt32 → Mem → Mem
  | 0, _, m => m
  | n + 1, a, m => clearLoop n (a + 1) (m.write a 0)

/-! ## What they do -/

/-- Copying writes nothing outside the destination. -/
theorem memcpyLoop_of_not_inSpan {x : UInt32} : ∀ (n : Nat) (d s : UInt32) (m : Mem),
    n ≤ 2 ^ 32 → ¬ InSpan d n x → memcpyLoop n d s m x = m x
  | 0, _, _, _, _, _ => rfl
  | n + 1, d, s, m, hn, hx => by
    have hxd : x ≠ d := by
      rintro rfl
      exact hx (by unfold InSpan; rw [toNat_sub_self]; exact Nat.succ_pos n)
    have hrest : ¬ InSpan (d + 1) n x := by
      unfold InSpan at hx ⊢
      rw [toNat_sub_succ hxd] at hx
      omega
    rw [memcpyLoop, memcpyLoop_of_not_inSpan n _ _ _ (by omega) hrest, Mem.write_of_ne hxd]

/-- **Upwards.** What is overwritten has been read, if the destination does not begin at one of
the bytes of the source behind the first. -/
theorem memcpyLoop_eq : ∀ (n : Nat) (d s : UInt32) (m : Mem), n ≤ 2 ^ 32 →
    (d = s ∨ n ≤ (d - s).toNat) → memcpyLoop n d s m = writeBytes m d (readBytes m s n)
  | 0, _, _, _, _, _ => rfl
  | n + 1, d, s, m, hn, h => by
    have hdist : d + 1 - (s + 1) = d - s := by grind
    have hrest : d + 1 = s + 1 ∨ n ≤ (d + 1 - (s + 1)).toNat := by
      rw [hdist]
      rcases h with rfl | h
      · exact Or.inl rfl
      · exact Or.inr (by omega)
    have hread : readBytes (m.write d (m s)) (s + 1) n = readBytes m (s + 1) n := by
      refine readBytes_congr (by omega) fun x hx => ?_
      by_cases hxd : x = d
      · subst hxd
        rcases h with rfl | h
        · exact Mem.write_self ..
        · -- `d` would be one of the bytes behind `s`
          have hne : x ≠ s := by
            rintro rfl
            rw [toNat_sub_self] at h
            omega
          unfold InSpan at hx
          rw [toNat_sub_succ hne] at h
          omega
      · exact Mem.write_of_ne hxd m (m s)
    rw [memcpyLoop, memcpyLoop_eq n (d + 1) (s + 1) _ (by omega) hrest, hread, readBytes_succ,
      writeBytes]

/-- Copying from a source that the destination does not meet: byte `k` arrives at byte `k`. -/
theorem memcpyLoop_apply {n : Nat} {d s : UInt32} (m : Mem) (hn : n ≤ 2 ^ 32)
    (hap : Apart d n s n) {k : Nat} (hk : k < n) :
    memcpyLoop n d s m (d + UInt32.ofNat k) = m (s + UInt32.ofNat k) := by
  have hd : InSpan d n d := by
    unfold InSpan
    rw [toNat_sub_self]
    omega
  have hfar : n ≤ (d - s).toNat := Nat.le_of_not_lt (hap d hd)
  rw [memcpyLoop_eq n d s m hn (Or.inr hfar),
    writeBytes_add m (by rwa [length_readBytes]) (by rwa [length_readBytes])]
  simp [readBytes]

/-- Clearing is storing zeros. -/
theorem clearLoop_eq_writeBytes : ∀ (n : Nat) (a : UInt32) (m : Mem),
    clearLoop n a m = writeBytes m a (List.replicate n 0)
  | 0, _, _ => rfl
  | n + 1, a, m => by
    rw [clearLoop, clearLoop_eq_writeBytes n, List.replicate_succ, writeBytes]

end SchedOS
