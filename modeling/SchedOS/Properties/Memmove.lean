import SchedOS.Lib.Memory

/-!
# `memmove` on regions that overlap

Copying in place amounts to reading the whole source and then storing it, as long as no byte is
overwritten that is still to be read. Going upwards that is so unless the destination begins
inside the source, behind its first byte (`memcpyLoop_eq`), going downwards unless the source
begins so inside the destination (`memmoveLoop_eq`). `memmove` goes the right way.
-/

namespace SchedOS

open Infra

/-- **Downwards.** What is overwritten has been read, if the source does not begin at one of the
bytes of the destination behind the first. The pointers begin at the ends of the regions. -/
theorem memmoveLoop_eq : ∀ (n : Nat) (d s : UInt32) (m : Mem), n ≤ 2 ^ 32 →
    (d = s ∨ n ≤ (s - d).toNat) →
    memmoveLoop n (d + UInt32.ofNat n) (s + UInt32.ofNat n) m
      = writeBytes m d (readBytes m s n)
  | 0, _, _, _, _, _ => rfl
  | n + 1, d, s, m, hn, h => by
    have hpred : ∀ a : UInt32, a + UInt32.ofNat (n + 1) - 1 = a + UInt32.ofNat n := by
      intro a
      rw [UInt32.ofNat_add, show UInt32.ofNat 1 = 1 from rfl]
      grind
    have hmod : (UInt32.ofNat n).toNat = n := by
      rw [UInt32.toNat_ofNat']
      omega
    have hread : readBytes (m.write (d + UInt32.ofNat n) (m (s + UInt32.ofNat n))) s n
        = readBytes m s n := by
      refine readBytes_congr (by omega) fun x hx => Mem.write_of_ne ?_ m _
      rintro rfl
      -- the last byte of the destination would be a byte of the source, and not its last
      unfold InSpan at hx
      rcases h with rfl | h
      · rw [show d + UInt32.ofNat n - d = UInt32.ofNat n by grind, hmod] at hx
        omega
      · rw [show d + UInt32.ofNat n - s = UInt32.ofNat n - (s - d) by grind, toNat_sub_eq,
          hmod] at hx
        have hlt := (s - d).toNat_lt
        split at hx <;> omega
    have hout : ¬ InSpan d (readBytes m s n).length (d + UInt32.ofNat n) := by
      unfold InSpan
      rw [show d + UInt32.ofNat n - d = UInt32.ofNat n by grind, hmod, length_readBytes]
      omega
    have hrest : d = s ∨ n ≤ (s - d).toNat := h.imp_right (by omega)
    rw [memmoveLoop, hpred, hpred, memmoveLoop_eq n d s _ (by omega) hrest, hread,
      writeBytes_write m _ (by rw [length_readBytes]; omega) hout, readBytes_concat,
      writeBytes_append, length_readBytes]
    rfl

section Regions

variable {dst src n : UInt32} (hsrc : src.toNat + n.toNat ≤ 2 ^ 32)
  (hdst : dst.toNat + n.toNat ≤ 2 ^ 32)
include hsrc

/-- The test whether the destination begins inside the source is not led astray by a source that
ends at the end of the memory. -/
theorem memmove_test_iff (hdst : dst.toNat + n.toNat ≤ 2 ^ 32) :
    src < dst ∧ src + n > dst ↔ src.toNat < dst.toNat ∧ dst.toNat < src.toNat + n.toNat := by
  have hn := n.toNat_lt
  rw [gt_iff_lt, UInt32.lt_iff_toNat_lt, UInt32.lt_iff_toNat_lt, UInt32.toNat_add]
  omega

theorem memcpy_eq (h : ¬(src.toNat < dst.toNat ∧ dst.toNat < src.toNat + n.toNat)) (m : Mem) :
    memcpy dst src n m = writeBytes m dst (readBytes m src n.toNat) := by
  refine memcpyLoop_eq _ _ _ m (Nat.le_of_lt n.toNat_lt) ?_
  by_cases heq : dst = src
  · exact Or.inl heq
  · have hne : dst.toNat ≠ src.toNat := fun he => heq (UInt32.toNat_inj.mp he)
    refine Or.inr ?_
    rw [toNat_sub_eq]
    split <;> omega

include hdst

/-- **`memmove` moves.** It amounts to reading the source and then storing it. -/
theorem memmove_eq (m : Mem) :
    memmove dst src n m = writeBytes m dst (readBytes m src n.toNat) := by
  unfold memmove
  rw [if_congr (memmove_test_iff hsrc hdst) rfl rfl]
  split
  · next h =>
    have hdown := memmoveLoop_eq n.toNat dst src m (Nat.le_of_lt n.toNat_lt) (Or.inr (by
      rw [toNat_sub_eq]
      split <;> omega))
    rwa [UInt32.ofNat_toNat] at hdown
  · next h => exact memcpy_eq hsrc h m

end Regions

/-- **`memmove` on overlapping regions.** Every byte of the source arrives, as it was before, and
nothing else changes; `memcpy` does the same unless the destination begins inside the source,
behind its first byte. -/
theorem memmove_overlapping (m : Mem) (dst src n : UInt32) (hsrc : src.toNat + n.toNat ≤ 2 ^ 32)
    (hdst : dst.toNat + n.toNat ≤ 2 ^ 32) :
    (∀ k, k < n.toNat →
      memmove dst src n m (dst + UInt32.ofNat k) = m (src + UInt32.ofNat k)) ∧
    (∀ x, ¬ InSpan dst n.toNat x → memmove dst src n m x = m x) ∧
    (Apart dst n.toNat src n.toNat ∨
        ¬(src.toNat < dst.toNat ∧ dst.toNat < src.toNat + n.toNat) →
      memcpy dst src n m = memmove dst src n m) := by
  have hn := n.toNat_lt
  have hlen : (readBytes m src n.toNat).length ≤ 2 ^ 32 := by
    rw [length_readBytes]
    omega
  refine ⟨fun k hk => ?_, fun x hx => ?_, fun h => ?_⟩
  · rw [memmove_eq hsrc hdst, writeBytes_add m hlen (by rwa [length_readBytes])]
    simp [readBytes]
  · rw [memmove_eq hsrc hdst, writeBytes_of_not_inSpan m hlen (by rwa [length_readBytes])]
  · have hbegin : ¬(src.toNat < dst.toNat ∧ dst.toNat < src.toNat + n.toNat) := by
      rcases h with hap | h
      · rintro ⟨hlt, hin⟩
        refine hap dst ?_ ?_
        · unfold InSpan
          rw [toNat_sub_self]
          omega
        · rw [inSpan_iff hsrc]
          omega
      · exact h
    rw [memcpy_eq hsrc hbegin, memmove_eq hsrc hdst]

/-- Five bytes are moved upwards by two. -/
theorem memmove_overlapping_up :
    memmove 0x1002 0x1000 5 (fun x => x.toUInt8) 0x1006 = 4 :=
  (memmove_overlapping (fun x => x.toUInt8) 0x1002 0x1000 5 (by decide) (by decide)).1 4 (by decide)

end SchedOS
