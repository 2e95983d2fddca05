import SchedOS.Properties.Lottery

/-!
# The lottery comes to an end

Nothing keeps the cycle counter from standing for a process that has exited, again and again. But
only few sequences of readings do so, and the longer they are the fewer.

* `lottery_ends` — how many sequences of `d` draws leave `schedule` in its loop, and that they
  become negligible
-/

namespace SchedOS

open Infra Filter

variable {k : Machine} {tsc : Nat → UInt64} {d : Nat}

/-- The sequences of low halves of `d` readings of the cycle counter after which `schedule` is
still in its loop, whatever the high halves are. -/
def Machine.Undecided (k : Machine) (d : Nat) : Set (Fin d → UInt32) :=
  {draws | ∀ tsc : Nat → UInt64,
    (∀ j : Fin d, (tsc j).toUInt32 = draws j) → schedule d tsc k = .error (.spinning k)}

theorem spins_iff_loop (halg : k.schedulingAlgorithm = 4) :
    schedule d tsc k = .error (.spinning k) ↔ ∃ s, loop (lotteryBody tsc k) d 0 = .again s := by
  rw [schedule_lottery halg]
  constructor
  · intro hspin
    rcases whileLoop_cases hspin with hl | ⟨s, hl, -⟩
    · obtain ⟨pid, hpid, -⟩ :=
        loop_const_runsIn (fun _ _ => lotteryBody_runsIn) hl
      cases hpid
    · exact ⟨s, hl⟩
  · rintro ⟨s, hs⟩
    rw [whileLoop, hs]

theorem mem_undecided (halg : k.schedulingAlgorithm = 4) (draws : Fin d → UInt32) :
    draws ∈ k.Undecided d ↔ ∀ j, ¬ k.Runnable (drawnPid (draws j)) := by
  have hspins : ∀ tsc : Nat → UInt64, (∀ j : Fin d, (tsc j).toUInt32 = draws j) →
      (schedule d tsc k = .error (.spinning k) ↔ ∀ j, ¬ k.Runnable (drawnPid (draws j))) := by
    intro tsc htsc
    have hloop : ∀ j : Fin d, (fun n => (tsc n).toUInt32) j = draws j := htsc
    rw [spins_iff_loop halg, lotteryBody_eq]
    exact loop_draw_undecided_iff hloop
  constructor
  · intro h
    have htsc : ∃ tsc : Nat → UInt64, ∀ j : Fin d, (tsc j).toUInt32 = draws j := by
      refine ⟨fun n => if hn : n < d then (draws ⟨n, hn⟩).toUInt64 else 0, fun j => ?_⟩
      simp
    obtain ⟨tsc, htsc⟩ := htsc
    exact (hspins tsc htsc).mp (h tsc htsc)
  · intro h tsc htsc
    exact (hspins tsc htsc).mpr h

theorem card_undecided_eq (halg : k.schedulingAlgorithm = 4) (d : Nat) : Nat.card (k.Undecided d)
    = Nat.card {draws : Fin d → UInt32 // ∀ j, ¬ k.Runnable (drawnPid (draws j))} :=
  Nat.card_congr (Equiv.subtypeEquivRight (mem_undecided halg))

theorem card_readings : Nat.card UInt32 = 2 ^ 32 := by
  rw [Nat.card_eq_fintype_card, ← FinEnum.card_eq_fintypeCard, FinEnum.card_UInt32]

/-- A draw is in vain if it stands for an entry that is not runnable. -/
theorem card_vain (h0 : ∀ i, k.Runnable i → i ≠ 0) :
    Nat.card {u32 // ¬ k.Runnable (drawnPid u32)}
      = 2 ^ 32 - 2 ^ 32 / nprocs * (Finset.univ.filter k.Runnable).card := by
  have hdrawn : ∀ i, k.Runnable i → Nat.card {u32 // drawnPid u32 = i} = 2 ^ 32 / nprocs := by
    intro i hi
    rw [card_drawn, if_neg (h0 i hi), Nat.add_zero]
  rw [card_rejected _ _ hdrawn, card_readings]

/-- Each entry is the result of some draw. -/
theorem exists_drawn (i : Pid) : ∃ u32, drawnPid u32 = i := by
  refine ⟨UInt32.ofNat i, Fin.ext ?_⟩
  have hi : (i : Nat) < 5 := i.isLt
  show (UInt32.ofNat i).toNat % 5 = i
  rw [UInt32.toNat_ofNat']
  omega

/-- **The lottery comes to an end, all but surely**: whenever `schedule` is called while somebody is
runnable. -/
theorem lottery_ends {ramimages : Fin 4 → Ramimage} {k₀ : Machine} {traps : Nat → Trap} {n : Nat}
    {p : Pid} {cpu : Registers} (h : system ramimages 4 k₀ traps n = .user p k cpu) (t : Trap)
    (hrun : ∃ i, (t.call k).Runnable i) :
    (∀ d, Nat.card ((t.call k).Undecided d)
        = (2 ^ 32 - 2 ^ 32 / nprocs * (Finset.univ.filter (t.call k).Runnable).card) ^ d) ∧
      Tendsto (fun d => (Nat.card ((t.call k).Undecided d) : ℝ) / (2 ^ 32) ^ d) atTop
        (nhds 0) := by
  have hr := system_running h
  have halg := hr.call_algorithm t
  have h0 : ∀ i, (t.call k).Runnable i → i ≠ 0 := fun i hi =>
    hr.ne_zero_of_runnable (Trap.call_runnable.mp hi).1
  constructor
  · intro d
    rw [card_undecided_eq halg, card_undecided, card_vain h0]
  · obtain ⟨i, hi⟩ := hrun
    obtain ⟨u32, hu32⟩ := exists_drawn i
    have hlimit := tendsto_undecided drawnPid (t.call k).Runnable ⟨u32, hu32 ▸ hi⟩
    simp only [card_undecided_eq halg]
    simpa only [card_readings, Nat.cast_pow, Nat.cast_ofNat] using hlimit

/-- Right after `start`. -/
theorem lottery_ends_bare : ∃ k cpu,
    system bareImages 4 bareMachine (fun _ => yieldTrap) 0 = .user 1 k cpu ∧
      Tendsto (fun d => (Nat.card ((yieldTrap.call k).Undecided d) : ℝ) / (2 ^ 32) ^ d) atTop
        (nhds 0) := by
  obtain ⟨entry, ram, h₀⟩ := system_bare_zero 4 fun _ => yieldTrap
  have hrun : (yieldTrap.call ⟨bootTable entry, 1, 4, ram⟩).Runnable 1 :=
    yieldTrap_runnable.mpr (bootTable_pState.mpr (by decide))
  exact ⟨_, _, h₀, (lottery_ends h₀ yieldTrap ⟨1, hrun⟩).2⟩

end SchedOS
