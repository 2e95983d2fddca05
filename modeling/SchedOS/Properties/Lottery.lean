import SchedOS.Properties.Lifecycle
import SchedOS.Infra.Draws
import Mathlib.Data.FinEnum
import Mathlib.Data.Int.CardIntervalMod

/-!
# The lottery is fair

Algorithm 4 takes the low half of the cycle counter modulo `NPROCS` and draws again if that
entry is not runnable. 2^32 is one more than a multiple of `NPROCS`: entry 0 has one value more
than the others, but it is never runnable.

* `lottery_unbiased` — all runnable processes have equally many winning sequences of draws
-/

namespace SchedOS

open Infra

/-! ## One draw -/

/-- The entry that a 32-bit value stands for: `u32 % NPROCS`. -/
def drawnPid (u32 : UInt32) : Pid := ⟨u32.toNat % nprocs, Nat.mod_lt _ (by decide)⟩

/-- The 32-bit values that stand for `i`. -/
def drawnEquiv (i : Pid) :
    {u32 // drawnPid u32 = i} ≃ {n // n < 2 ^ 32 ∧ n ≡ i [MOD nprocs]} where
  toFun u32 := ⟨u32.1.toNat, u32.1.toNat_lt, by
    have hmod : u32.1.toNat % nprocs = i := congrArg Fin.val u32.2
    rw [Nat.ModEq, hmod, Nat.mod_eq_of_lt i.isLt]⟩
  invFun n := ⟨.ofNatLT n.1 n.2.1, by
    refine Fin.ext ?_
    have hmod : n.1 % nprocs = i % nprocs := n.2.2
    rwa [Nat.mod_eq_of_lt i.isLt] at hmod⟩
  left_inv u32 := by simp
  right_inv n := by simp

/-- Every entry but the first has as many values. -/
theorem card_drawn (i : Pid) : Nat.card {u32 // drawnPid u32 = i}
    = 2 ^ 32 / nprocs + if i = 0 then 1 else 0 := by
  let := Nat.CountSet.fintype (· ≡ i [MOD nprocs]) (2 ^ 32)
  have hextra : (i : Nat) < 2 ^ 32 % nprocs ↔ i = 0 := Fin.lt_one_iff i
  calc Nat.card {u32 // drawnPid u32 = i}
      = Nat.card {n // n < 2 ^ 32 ∧ n ≡ i [MOD nprocs]} := Nat.card_congr (drawnEquiv i)
    _ = Nat.count (· ≡ i [MOD nprocs]) (2 ^ 32) := by
      rw [Nat.count_eq_card_fintype, Nat.card_eq_fintype_card]
    _ = 2 ^ 32 / nprocs + if i = 0 then 1 else 0 := by
      rw [Nat.count_modEq_card _ (by decide), Nat.mod_eq_of_lt i.isLt]
      simp only [hextra]

/-! ## The loop -/

variable {k : Machine} {tsc : Nat → UInt64}

/-- The scheduling loop draws until the drawn entry is runnable. -/
theorem lotteryBody_eq : lotteryBody tsc k
    = drawBody drawnPid k.Runnable (fun pid => run pid k) fun i => (tsc i).toUInt32 := by
  funext i
  have hlow : (tsc i &&& 0xFFFFFFFF).toUInt32 = (tsc i).toUInt32 := by
    rw [UInt64.toUInt32_and]
    exact UInt32.and_neg_one
  unfold lotteryBody drawBody drawnPid
  simp only [hlow]

theorem run_injective (k : Machine) : Function.Injective fun pid => run pid k := by
  intro p q h
  cases h
  rfl

/-- The call of `schedule` in `k` runs `i`, and it does so at the draw number `d`: it has still
been in its loop with one draw less. -/
def Machine.Selects (k : Machine) (tsc : Nat → UInt64) (d : Nat) (i : Pid) : Prop :=
  schedule d tsc k = .error (.spinning k) ∧ schedule (d + 1) tsc k = .error (run i k)

theorem selects_iff_loop (halg : k.schedulingAlgorithm = 4) {d : Nat} {i : Pid} :
    k.Selects tsc d i ↔ (∃ s, loop (lotteryBody tsc k) d 0 = .again s) ∧
      loop (lotteryBody tsc k) (d + 1) 0 = .leave (run i k) := by
  have hruns : ∀ s c, lotteryBody tsc k s = .leave c → RunsIn k c := fun _ _ => lotteryBody_runsIn
  rw [Machine.Selects, schedule_lottery halg, schedule_lottery halg]
  constructor
  · rintro ⟨hspin, hrun⟩
    constructor
    · rcases whileLoop_cases hspin with hl | ⟨s, hl, -⟩
      · obtain ⟨pid, hpid, -⟩ := loop_const_runsIn hruns hl
        cases hpid
      · exact ⟨s, hl⟩
    · rcases whileLoop_cases hrun with hl | ⟨s, -, hs⟩
      · exact hl
      · cases hs
  · rintro ⟨⟨s, hs⟩, hrun⟩
    exact ⟨by rw [whileLoop, hs], whileLoop_leave hrun⟩

/-- **When a process is selected**: all draws before the last are rejected. -/
theorem selects_iff (halg : k.schedulingAlgorithm = 4) {d : Nat} {i : Pid} (hi : k.Runnable i)
    {draws : Fin (d + 1) → UInt32} (htsc : ∀ j : Fin (d + 1), (tsc j).toUInt32 = draws j) :
    k.Selects tsc d i ↔ FirstAccepted drawnPid k.Runnable draws i := by
  have hloop : ∀ j : Fin (d + 1), (fun n => (tsc n).toUInt32) j = draws j := htsc
  rw [selects_iff_loop halg, lotteryBody_eq]
  exact loop_draw_iff (run_injective k) hi hloop

/-! ## Counting the draws -/

/-- The sequences of low halves of `d + 1` readings of the cycle counter with which `i` is
selected at the last one, whatever the high halves and the readings after them are. -/
def Machine.Winning (k : Machine) (d : Nat) (i : Pid) : Set (Fin (d + 1) → UInt32) :=
  {draws | ∀ tsc : Nat → UInt64,
    (∀ j : Fin (d + 1), (tsc j).toUInt32 = draws j) → k.Selects tsc d i}

/-- Some readings with the given low halves. -/
theorem exists_readings {d : Nat} (draws : Fin (d + 1) → UInt32) :
    ∃ tsc : Nat → UInt64, ∀ j : Fin (d + 1), (tsc j).toUInt32 = draws j :=
  ⟨fun n => (draws (Fin.ofNat (d + 1) n)).toUInt64, fun j => by simp⟩

theorem mem_winning (halg : k.schedulingAlgorithm = 4) {d : Nat} {i : Pid} (hi : k.Runnable i)
    (draws : Fin (d + 1) → UInt32) :
    draws ∈ k.Winning d i ↔ FirstAccepted drawnPid k.Runnable draws i := by
  constructor
  · intro h
    obtain ⟨tsc, htsc⟩ := exists_readings draws
    exact (selects_iff halg hi htsc).mp (h tsc htsc)
  · intro h tsc htsc
    exact (selects_iff halg hi htsc).mpr h

/-- **How many sequences select `i`**: as many as select any other runnable process, if entry 0
is not one. -/
theorem card_winning (halg : k.schedulingAlgorithm = 4) (h0 : ∀ i, k.Runnable i → i ≠ 0)
    (d : Nat) {i : Pid} (hi : k.Runnable i) : Nat.card (k.Winning d i)
      = (2 ^ 32 - 2 ^ 32 / nprocs * (Finset.univ.filter k.Runnable).card) ^ d
        * (2 ^ 32 / nprocs) := by
  have hdrawn : ∀ i, k.Runnable i → Nat.card {u32 // drawnPid u32 = i} = 2 ^ 32 / nprocs := by
    intro i hi
    rw [card_drawn, if_neg (h0 i hi), Nat.add_zero]
  have hall : Nat.card UInt32 = 2 ^ 32 := by
    rw [Nat.card_eq_fintype_card, ← FinEnum.card_eq_fintypeCard, FinEnum.card_UInt32]
  calc Nat.card (k.Winning d i)
      = Nat.card {draws : Fin (d + 1) → UInt32 //
          FirstAccepted drawnPid k.Runnable draws i} :=
        Nat.card_congr (Equiv.subtypeEquivRight (mem_winning halg hi))
    _ = Nat.card {u32 // ¬ k.Runnable (drawnPid u32)} ^ d
          * Nat.card {u32 // drawnPid u32 = i} := card_firstAccepted ..
    _ = (2 ^ 32 - 2 ^ 32 / nprocs * (Finset.univ.filter k.Runnable).card) ^ d
          * (2 ^ 32 / nprocs) := by
        rw [card_rejected _ _ hdrawn, hdrawn i hi, hall]

/-- **The lottery is fair.** Whenever `schedule` is called, all runnable processes have equally
many sequences of `d + 1` draws of which the last one selects them. -/
theorem lottery_unbiased {ramimages : Fin 4 → Ramimage} {k₀ : Machine} {traps : Nat → Trap}
    {n : Nat} {p : Pid} {cpu : Registers} (h : system ramimages 4 k₀ traps n = .user p k cpu)
    (t : Trap) (d : Nat) {i j : Pid} (hi : (t.call k).Runnable i) (hj : (t.call k).Runnable j) :
    Nat.card ((t.call k).Winning d i) = Nat.card ((t.call k).Winning d j) := by
  have hr := system_running h
  have halg := hr.call_algorithm t
  have h0 : ∀ i, (t.call k).Runnable i → i ≠ 0 := fun i hi =>
    hr.ne_zero_of_runnable (Trap.call_runnable.mp hi).1
  rw [card_winning halg h0 d hi, card_winning halg h0 d hj]

/-- Process 1 yields, and the fourth draw decides between 1 and 2. -/
theorem lottery_unbiased_bare : ∃ k cpu,
    system bareImages 4 bareMachine (fun _ => yieldTrap) 0 = .user 1 k cpu ∧
      Nat.card ((yieldTrap.call k).Winning 3 1) = Nat.card ((yieldTrap.call k).Winning 3 2) := by
  obtain ⟨entry, ram, h₀⟩ := system_bare_zero 4 fun _ => yieldTrap
  have hrun : ∀ i, i ≠ 0 → (yieldTrap.call ⟨bootTable entry, 1, 4, ram⟩).Runnable i :=
    fun i hi => yieldTrap_runnable.mpr (bootTable_pState.mpr hi)
  exact ⟨_, _, h₀,
    lottery_unbiased h₀ yieldTrap 3 (hrun 1 (by decide)) (hrun 2 (by decide))⟩

end SchedOS
