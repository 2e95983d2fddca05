import SchedOS.Properties.Share

/-!
# Turns under the share scheduler

While processes only yield or are interrupted by the clock, the share scheduler gives each
process a turn of consecutive dispatches and then goes on to the next one. The counter is
compared with `p_share` before it is incremented, and with `<=`, so that a turn has one
dispatch more than the process has shares (`turn_length`). Turns of exactly `p_share`
dispatches are to be had only where no turn is ever completed (`share_turns_iff`).
-/

namespace SchedOS

open Infra

/-- The process yields or is interrupted by the clock. -/
def Trap.Idle (t : Trap) : Prop := t.reg.regIntno = intSysYield ∨ t.reg.regIntno = intClock

theorem Trap.Idle.served {t : Trap} (h : t.Idle) : Served t.reg.regIntno := by
  rcases h with h | h
  · exact Or.inl h
  · exact Or.inr (Or.inr (Or.inr (Or.inr (Or.inl h))))

/-- The machine with other shares. -/
def Machine.withShares (k : Machine) (share : Pid → Int32) : Machine :=
  { k with procArray := fun i => { k.procArray i with pShare := share i } }

/-! ## What is expected of the turns -/

/-- A complete turn of `i`: the dispatches from `a` up to `b`, with others before and after. -/
structure IsTurn (sys : Nat → Config) (i : Pid) (a b : Nat) : Prop where
  lt : a < b
  before : ∃ a' r, a = a' + 1 ∧ r ≠ i ∧ (sys a').proc? = some r
  during : ∀ j, a ≤ j → j < b → (sys j).proc? = some i
  after : ∃ r, r ≠ i ∧ (sys b).proc? = some r

/-- A turn of `i` begins at `a`. -/
def TurnBegins (sys : Nat → Config) (i : Pid) (a : Nat) : Prop :=
  (sys a).proc? = some i ∧ ∃ a' r, a = a' + 1 ∧ r ≠ i ∧ (sys a').proc? = some r

/-- The number of dispatches of `i` from `a` up to `b`. -/
def dispatches (sys : Nat → Config) (i : Pid) (a b : Nat) : Nat :=
  ((Finset.Ico a b).filter fun j => (sys j).proc? = some i).card

/-- The processor is shared in proportion to `share`. -/
structure Proportional (share : Pid → Int32) (sys : Nat → Config) : Prop where
  /-- Every complete turn has as many dispatches as the process has shares. -/
  length : ∀ i a b, IsTurn sys i a b → ((b - a : Nat) : Int) = (share i).toInt
  /-- The turns follow in cyclic order. -/
  cyclic : ∀ j p k cpu q k' cpu', sys j = .user p k cpu → sys (j + 1) = .user q k' cpu' → q ≠ p →
    IsNext k'.Runnable p q
  /-- Over whole rounds the dispatches of two runnable processes are in the ratio of the shares. -/
  ratio : ∀ r a b i j, TurnBegins sys r a → TurnBegins sys r b → a ≤ b →
    (sys a).machine.Runnable i → (sys a).machine.Runnable j →
    (dispatches sys i a b : Int) * (share j).toInt = dispatches sys j a b * (share i).toInt

/-! ## Steps -/

/-- What is kept while processes only yield: `R` are the runnable ones. -/
structure Machine.Idling (share : Pid → Int32) (R : Pid → Prop) (p : Pid) (k : Machine)
    (cpu : Registers) : Prop where
  running : Running 3 p k cpu
  fresh : k.Fresh p
  share : ∀ i, (k.procArray i).pShare = share i
  runnable : ∀ i, k.Runnable i ↔ R i

section Steps

variable {share : Pid → Int32} {R : Pid → Prop} {p q : Pid} {k k' : Machine}
  {cpu cpu' : Registers} {t : Trap}

theorem Trap.Idle.call_runnable (ht : t.Idle) (i : Pid) : (t.call k).Runnable i ↔ k.Runnable i := by
  rw [Trap.call_runnable]
  refine ⟨And.left, fun h => ⟨h, fun he => ?_⟩⟩
  have hexit := he.1
  rcases ht with ht | ht
  · rw [ht] at hexit
    exact absurd hexit (by decide)
  · rw [ht] at hexit
    exact absurd hexit (by decide)

theorem Trap.Idle.ne_user2 (ht : t.Idle) : t.reg.regIntno ≠ intSysUser2 := by
  rcases ht with ht | ht
  · rw [ht]
    decide
  · rw [ht]
    decide

theorem Trap.Idle.call_pShare (ht : t.Idle) (i : Pid) :
    ((t.call k).procArray i).pShare = (k.procArray i).pShare := by
  rw [Trap.call_pShare, if_neg fun he => ht.ne_user2 he.1]

theorem Trap.Idle.call_pNumTimes (ht : t.Idle) (i : Pid) :
    ((t.call k).procArray i).pNumTimes = (k.procArray i).pNumTimes := by
  rw [Trap.call_pNumTimes, if_neg fun he => ht.ne_user2 he.1]

theorem Machine.Idling.willing_iff (hR : ∀ i, R i → 1 ≤ share i)
    (h : Machine.Idling share R p k cpu) (ht : t.Idle) (i : Pid) :
    (t.call k).Willing i ↔ R i := by
  have hrun := (ht.call_runnable i).trans (h.runnable i)
  refine ⟨fun hw => hrun.mp hw.1, fun hi => ⟨hrun.mpr hi, ?_⟩⟩
  rw [ht.call_pShare, h.share]
  exact Int32.le_trans (by decide) (hR i hi)

/-- The share of the process that runs has not been used up. -/
theorem Machine.Idling.hasShare_iff (h : Machine.Idling share R p k cpu) (ht : t.Idle) :
    (t.call k).HasShare p ↔ (k.procArray p).pNumTimes ≤ share p := by
  unfold Machine.HasShare
  rw [ht.call_pShare, ht.call_pNumTimes, h.share, ht.call_runnable]
  exact and_iff_right h.running.runnable

/-- **One dispatch after another.** The turn goes on as long as the counter is at most the
share; then the next runnable process begins, with its counter at 1. -/
theorem Machine.Idling.step (hR : ∀ i, R i → 1 ≤ share i)
    (h : Machine.Idling share R p k cpu) (ht : t.Idle)
    (hstep : (Config.user p k cpu).trap t = .user q k' cpu') :
    Machine.Idling share R q k' cpu' ∧
      ((q = p ∧ (k.procArray p).pNumTimes ≤ share p ∧
          (k'.procArray q).pNumTimes = (k.procArray p).pNumTimes + 1) ∨
        (¬ (k.procArray p).pNumTimes ≤ share p ∧ IsNext R p q ∧
          (k'.procArray q).pNumTimes = 1)) := by
  have hcur := h.running.current
  have hwill : (t.call k).Willing = R := funext fun i => propext (h.willing_iff hR ht i)
  have hok : Config.Ok 3 ((Config.user p k cpu).trap t) := ok_trap t _ h.running
  rw [hstep] at hok
  have hfresh : (t.call k).Fresh p := by
    intro r hr hrun
    rw [Trap.call_of_ne (hcur ▸ hr)]
    exact h.fresh r hr ((ht.call_runnable r).mp hrun)
  have hkept : ∀ k₁ : Machine, (t.call k).SameUpToTimes k₁ →
      (∀ i, (k₁.procArray i).pShare = share i) ∧ ∀ i, k₁.Runnable i ↔ R i := fun k₁ hs =>
    ⟨fun i => (hs.pShare i).trans ((ht.call_pShare i).trans (h.share i)),
      fun i => (hs.runnable_iff i).trans ((ht.call_runnable i).trans (h.runnable i))⟩
  rcases trap_share h.running h.fresh hstep with ⟨hs, rfl, rfl⟩ | ⟨hs, hnext, rfl⟩
  · -- `p` goes on: its own counter is the only one that changes
    have hsame := sameUpToTimes_tick (t.call k) q
    have hk := hkept _ hsame
    refine ⟨⟨hok, fun r hr hrun => ?_, hk.1, hk.2⟩,
      Or.inl ⟨rfl, (h.hasShare_iff ht).mp hs, ?_⟩⟩
    · show (((t.call k).tick q).procArray r).pNumTimes = 0
      rw [Machine.tick_of_ne hr]
      exact hfresh r hr ((hsame.runnable_iff r).mp hrun)
    · show (((t.call k).tick q).procArray q).pNumTimes = _
      rw [Machine.tick_self, ht.call_pNumTimes]
  · -- the turn of `p` is over: its counter goes back to 0 before that of `q` is incremented
    have hsame := (sameUpToTimes_restart (t.call k) p).trans (sameUpToTimes_tick _ q)
    have hk := hkept _ hsame
    have hcount := hfresh.move hnext.1
    exact ⟨⟨hok, hcount.fresh, hk.1, hk.2⟩, Or.inr ⟨fun hle => hs ((h.hasShare_iff ht).mpr hle),
      hwill ▸ hnext, hfresh.move_numTimes hnext.1⟩⟩

end Steps

/-! ## Runs -/

section Runs

variable {share : Pid → Int32} {R : Pid → Prop} {traps : Nat → Trap} {c₀ : Config}

/-- A run that begins in `c₀` and in which processes only yield. -/
structure IdleRun (share : Pid → Int32) (R : Pid → Prop) (traps : Nat → Trap) (c₀ : Config) :
    Prop where
  one_le : ∀ i, R i → 1 ≤ share i
  idle : ∀ j, (traps j).Idle
  first : ∃ p k cpu, c₀ = .user p k cpu ∧ Machine.Idling share R p k cpu

namespace IdleRun

variable (h : IdleRun share R traps c₀) {j : Nat} {p q : Pid} {k k' : Machine}
  {cpu cpu' : Registers}
include h

theorem idling : ∀ {j : Nat} {p : Pid} {k : Machine} {cpu : Registers},
    states Config.trap traps c₀ j = .user p k cpu → Machine.Idling share R p k cpu
  | 0, p, k, cpu, hj => by
    obtain ⟨p', k', cpu', hc, hk⟩ := h.first
    rw [states_zero, hc] at hj
    cases hj
    exact hk
  | j + 1, p, k, cpu, hj => by
    rw [states_succ] at hj
    cases hs : states Config.trap traps c₀ j with
    | spinning k' =>
      rw [hs] at hj
      cases hj
    | user p' k' cpu' =>
      rw [hs] at hj
      exact ((idling hs).step h.one_le (h.idle j) hj).1

omit h in
/-- A process was running before each process that runs. -/
theorem pred (hj : states Config.trap traps c₀ (j + 1) = .user p k cpu) :
    ∃ q k' cpu', states Config.trap traps c₀ j = .user q k' cpu' := by
  rw [states_succ] at hj
  cases hs : states Config.trap traps c₀ j with
  | spinning k' =>
    rw [hs] at hj
    cases hj
  | user q k' cpu' => exact ⟨q, k', cpu', rfl⟩

/-- The two ways in which one dispatch follows another. -/
theorem step (hj : states Config.trap traps c₀ j = .user p k cpu)
    (hj' : states Config.trap traps c₀ (j + 1) = .user q k' cpu') :
    (q = p ∧ (k.procArray p).pNumTimes ≤ share p ∧
        (k'.procArray q).pNumTimes = (k.procArray p).pNumTimes + 1) ∨
      (¬ (k.procArray p).pNumTimes ≤ share p ∧ IsNext R p q ∧ (k'.procArray q).pNumTimes = 1) := by
  rw [states_succ, hj] at hj'
  exact ((h.idling hj).step h.one_le (h.idle j) hj').2

theorem step_of_ne (hj : states Config.trap traps c₀ j = .user p k cpu)
    (hj' : states Config.trap traps c₀ (j + 1) = .user q k' cpu') (hne : q ≠ p) :
    ¬ (k.procArray p).pNumTimes ≤ share p ∧ IsNext R p q ∧ (k'.procArray q).pNumTimes = 1 := by
  rcases h.step hj hj' with ⟨he, -⟩ | hmove
  · exact absurd he hne
  · exact hmove

/-- With another runnable process the same process is dispatched again only within its turn. -/
theorem step_of_eq (hj : states Config.trap traps c₀ j = .user p k cpu)
    (hj' : states Config.trap traps c₀ (j + 1) = .user p k' cpu') (hother : ∃ i, R i ∧ i ≠ p) :
    (k.procArray p).pNumTimes ≤ share p ∧
      (k'.procArray p).pNumTimes = (k.procArray p).pNumTimes + 1 := by
  rcases h.step hj hj' with ⟨-, hle, hcount⟩ | ⟨-, hnext, -⟩
  · exact ⟨hle, hcount⟩
  · obtain ⟨i, hi, hip⟩ := hother
    exact absurd (hnext.eq_self i hi) hip

/-- In a complete turn the counter counts the dispatches. -/
theorem count_turn {i : Pid} {a b : Nat} (ht : IsTurn (states Config.trap traps c₀) i a b)
    (hmax : share i ≠ intMax) (hother : ∃ r, R r ∧ r ≠ i) :
    ∀ m, a + m < b → ∃ k cpu, states Config.trap traps c₀ (a + m) = .user i k cpu ∧
      (k.procArray i).pNumTimes.toInt = m + 1
  | 0, hm => by
    obtain ⟨a', r, rfl, hr, ha'⟩ := ht.before
    obtain ⟨k', cpu', hk'⟩ := Config.proc?_eq_some ha'
    obtain ⟨k, cpu, hk⟩ := Config.proc?_eq_some (ht.during (a' + 1) (Nat.le_refl _) hm)
    obtain ⟨-, -, hone⟩ := h.step_of_ne hk' hk hr.symm
    refine ⟨k, cpu, hk, ?_⟩
    rw [hone]
    rfl
  | m + 1, hm => by
    obtain ⟨k', cpu', hk', hcount⟩ := count_turn ht hmax hother m (by omega)
    obtain ⟨k, cpu, hk⟩ := Config.proc?_eq_some (ht.during (a + (m + 1)) (by omega) hm)
    obtain ⟨hle, hsucc⟩ := h.step_of_eq hk' hk hother
    refine ⟨k, cpu, hk, ?_⟩
    rw [hsucc, toInt_add_one fun he => hmax (Int32.le_antisymm (le_intMax _) (he ▸ hle)), hcount]
    omega

/-- **The length of a turn.** A complete turn has one dispatch more than the process has
shares; with a share of `INT_MAX` a turn is never completed. -/
theorem turn_length {i : Pid} {a b : Nat} (ht : IsTurn (states Config.trap traps c₀) i a b)
    (hother : ∃ r, R r ∧ r ≠ i) :
    share i ≠ intMax ∧ ((b - a : Nat) : Int) = (share i).toInt + 1 := by
  obtain ⟨r, hri, hb⟩ := ht.after
  obtain ⟨d, hd⟩ := Nat.exists_eq_add_of_lt ht.lt
  obtain ⟨k, cpu, hk⟩ := Config.proc?_eq_some (ht.during (a + d) (by omega) (by omega))
  obtain ⟨k', cpu', hk'⟩ := Config.proc?_eq_some hb
  rw [hd] at hk'
  have hiR : R i := ((h.idling hk).runnable i).mp (h.idling hk).running.runnable
  obtain ⟨hgt, -, -⟩ := h.step_of_ne hk hk' hri
  have hmax : share i ≠ intMax := by
    intro he
    rw [he] at hgt
    exact hgt (le_intMax _)
  refine ⟨hmax, ?_⟩
  obtain ⟨k₁, cpu₁, hk₁, hcount⟩ := h.count_turn ht hmax hother d (by omega)
  rw [hk] at hk₁
  cases hk₁
  have hlow : (share i).toInt < d + 1 := by
    have hlt := Int32.lt_iff_toInt_lt.mp (Int32.not_le.mp hgt)
    omega
  -- the dispatch before the last was still within the share
  have hone := Int32.le_iff_toInt_le.mp (h.one_le i hiR)
  rw [show (1 : Int32).toInt = 1 from rfl] at hone
  obtain ⟨e, rfl⟩ : ∃ e, d = e + 1 := Nat.exists_eq_succ_of_ne_zero (by omega)
  obtain ⟨k₂, cpu₂, hk₂, hcount₂⟩ := h.count_turn ht hmax hother e (by omega)
  obtain ⟨hle, -⟩ := h.step_of_eq hk₂ hk hother
  have hhigh := Int32.le_iff_toInt_le.mp hle
  omega

/-- A process whose share is `INT_MAX` is never taken off. -/
theorem stays (hj : states Config.trap traps c₀ j = .user p k cpu) (hmax : share p = intMax) :
    ∀ {n : Nat}, j ≤ n → ∀ {r : Pid}, (states Config.trap traps c₀ n).proc? = some r → r = p := by
  intro n hjn
  induction hjn with
  | refl =>
    intro r hr
    rw [hj] at hr
    exact (Option.some.inj hr).symm
  | step _ ih =>
    intro r hr
    obtain ⟨k₂, cpu₂, h₂⟩ := Config.proc?_eq_some hr
    obtain ⟨q, k₁, cpu₁, h₁⟩ := pred h₂
    have hq : q = p := ih (by rw [h₁]; rfl)
    subst hq
    by_contra hne
    refine (h.step_of_ne h₁ h₂ hne).1 ?_
    rw [hmax]
    exact le_intMax _

end IdleRun

/-! ## Runs without a complete turn -/

/-- The turn in progress, or the one that follows it, has no end. -/
def TurnEndless (share : Pid → Int32) (R : Pid → Prop) (p : Pid) : Prop :=
  share p = intMax ∨ ∃ q, IsNext R p q ∧ share q = intMax

section Endless

variable {i p₀ : Pid} {a : Nat} {k₁ : Machine} {cpu₁ : Registers}
  (h : IdleRun share R traps (.user p₀ k₁ cpu₁)) (hend : TurnEndless share R p₀)
include h hend

theorem TurnEndless.turnBegins
    (hb : TurnBegins (states Config.trap traps (.user p₀ k₁ cpu₁)) i a) : share i = intMax := by
  obtain ⟨hi, a', s, rfl, hsi, hs⟩ := hb
  rcases hend with hmax | ⟨q, hq, hmax⟩
  · -- only `p₀` ever runs
    have hall : ∀ {n r}, (states Config.trap traps (.user p₀ k₁ cpu₁) n).proc? = some r → r = p₀ :=
      fun hr => h.stays (states_zero ..) hmax (Nat.zero_le _) hr
    exact absurd ((hall hs).trans (hall hi).symm) hsi
  · -- only `p₀` and then `q` ever run
    have hall : ∀ n r, (states Config.trap traps (.user p₀ k₁ cpu₁) n).proc? = some r →
        r = p₀ ∨ r = q := by
      intro n
      induction n with
      | zero => exact fun r hr => Or.inl (Option.some.inj hr).symm
      | succ n ih =>
        intro r hr
        obtain ⟨k₃, cpu₃, h₃⟩ := Config.proc?_eq_some hr
        obtain ⟨x, k₂, cpu₂, h₂⟩ := IdleRun.pred h₃
        rcases ih x (by rw [h₂]; rfl) with rfl | rfl
        · rcases h.step h₂ h₃ with ⟨rfl, -⟩ | ⟨-, hnext, -⟩
          · exact Or.inl rfl
          · exact Or.inr (isNext_unique hnext hq)
        · exact Or.inr (h.stays h₂ hmax (Nat.le_succ n) hr)
    have hstay : ∀ {r : Pid}, s = q →
        (states Config.trap traps (.user p₀ k₁ cpu₁) (a' + 1)).proc? = some r → r = q := by
      rintro r rfl hr
      obtain ⟨k₂, cpu₂, h₂⟩ := Config.proc?_eq_some hs
      exact h.stays h₂ hmax (Nat.le_succ a') hr
    rcases hall a' s hs with rfl | hsq
    · rcases hall (a' + 1) i hi with rfl | rfl
      · exact absurd rfl hsi
      · exact hmax
    · exact absurd (hsq.trans (hstay hsq hi).symm) hsi

/-- Nothing is wrong with the lengths of turns that never end. -/
theorem TurnEndless.proportional :
    Proportional share (states Config.trap traps (.user p₀ k₁ cpu₁)) where
  length i a b ht := by
    exfalso
    have hmax := hend.turnBegins h ⟨ht.during a (Nat.le_refl a) ht.lt, ht.before⟩
    obtain ⟨k, cpu, hk⟩ := Config.proc?_eq_some (ht.during a (Nat.le_refl a) ht.lt)
    obtain ⟨r, hri, hr⟩ := ht.after
    exact hri (h.stays hk hmax (Nat.le_of_lt ht.lt) hr)
  cyclic j p k cpu q k' cpu' hj hj' hne := by
    have hR : k'.Runnable = R := funext fun i => propext ((h.idling hj').runnable i)
    rw [hR]
    exact (h.step_of_ne hj hj' hne).2.1
  ratio r a b i j ha hb hab _ _ := by
    rcases Nat.eq_or_lt_of_le hab with rfl | hlt
    · simp [dispatches]
    · exfalso
      have hmax := hend.turnBegins h ha
      obtain ⟨k, cpu, hk⟩ := Config.proc?_eq_some ha.1
      obtain ⟨-, b', s, rfl, hsr, hs⟩ := hb
      exact hsr (h.stays hk hmax (Nat.le_of_lt_succ hlt) hs)

end Endless

/-! ## A run with a complete turn -/

theorem yieldTrap_idle : yieldTrap.Idle := Or.inl rfl

section Yields

variable {p q : Pid} {k : Machine} {cpu : Registers}

/-- A yield never leaves the kernel without a process to run. -/
theorem Machine.Idling.alive (hR : ∀ i, R i → 1 ≤ share i)
    (h : Machine.Idling share R p k cpu) :
    ∃ q k' cpu', (Config.user p k cpu).trap yieldTrap = .user q k' cpu' := by
  have halg := h.running.call_algorithm yieldTrap
  have hpid := h.running.call_pPid yieldTrap
  by_cases hs : (yieldTrap.call k).HasShare p
  · exact ⟨_, _, _, trap_of_schedule yieldTrap_idle.served
      (schedule_share_stay halg hpid hs (Nat.succ_pos _))⟩
  · have hfresh : (yieldTrap.call k).Fresh p := by
      intro r hr hrun
      rw [Trap.call_of_ne (h.running.current ▸ hr)]
      exact h.fresh r hr (yieldTrap_runnable.mp hrun)
    have hp : R p := (h.runnable p).mp h.running.runnable
    obtain ⟨q, hq⟩ := exists_isNext p ⟨p, (h.willing_iff hR yieldTrap_idle p).mpr hp⟩
    exact ⟨_, _, _, trap_of_schedule yieldTrap_idle.served
      (schedule_share_move halg hpid hfresh hs hq (Nat.lt_succ_self _))⟩

variable (h : IdleRun share R (fun _ => yieldTrap) c₀)
include h

theorem IdleRun.succ {j : Nat}
    (hj : states Config.trap (fun _ => yieldTrap) c₀ j = .user p k cpu) :
    ∃ q k' cpu', states Config.trap (fun _ => yieldTrap) c₀ (j + 1) = .user q k' cpu' := by
  rw [states_succ, hj]
  exact (h.idling hj).alive h.one_le

/-- A turn comes to an end, unless the share is `INT_MAX`. The induction is on how far the
counter is from passing the share. -/
theorem IdleRun.turn_ends (hmax : share p ≠ intMax) :
    ∀ (n : Nat) {j : Nat} {k : Machine} {cpu : Registers},
      states Config.trap (fun _ => yieldTrap) c₀ j = .user p k cpu →
      ((share p).toInt + 1 - (k.procArray p).pNumTimes.toInt).toNat ≤ n →
      ∃ b, j < b ∧
        (∀ i, j ≤ i → i < b → (states Config.trap (fun _ => yieldTrap) c₀ i).proc? = some p) ∧
        ∃ q, IsNext R p q ∧ (states Config.trap (fun _ => yieldTrap) c₀ b).proc? = some q := by
  intro n
  induction n with
  | zero =>
    intro j k cpu hj hn
    -- the counter has passed the share: this is the last dispatch of the turn
    obtain ⟨q, k', cpu', hj'⟩ := h.succ hj
    have hgt : ¬ (k.procArray p).pNumTimes ≤ share p := by
      rw [Int32.le_iff_toInt_le]
      omega
    rcases h.step hj hj' with ⟨-, hle, -⟩ | ⟨-, hnext, -⟩
    · exact absurd hle hgt
    · refine ⟨j + 1, Nat.lt_succ_self j, fun i h₁ h₂ => ?_, q, hnext, by rw [hj']; rfl⟩
      rw [show i = j by omega, hj]
      rfl
  | succ n ih =>
    intro j k cpu hj hn
    obtain ⟨q, k', cpu', hj'⟩ := h.succ hj
    rcases h.step hj hj' with ⟨rfl, hle, hcount⟩ | ⟨-, hnext, -⟩
    · have hsucc : ((k.procArray q).pNumTimes + 1).toInt = (k.procArray q).pNumTimes.toInt + 1 :=
        toInt_add_one fun he => hmax (Int32.le_antisymm (le_intMax _) (he ▸ hle))
      obtain ⟨b, hb, hall, hnext⟩ := ih hj' (by rw [hcount, hsucc]; omega)
      refine ⟨b, Nat.lt_of_succ_lt hb, fun i h₁ h₂ => ?_, hnext⟩
      rcases Nat.eq_or_lt_of_le h₁ with rfl | hlt
      · rw [hj]
        rfl
      · exact hall i hlt h₂
    · refine ⟨j + 1, Nat.lt_succ_self j, fun i h₁ h₂ => ?_, q, hnext, by rw [hj']; rfl⟩
      rw [show i = j by omega, hj]
      rfl

/-- If neither the turn in progress nor the next one is endless, the next one is completed. -/
theorem IdleRun.exists_turn {p₀ : Pid} {k₁ : Machine} {cpu₁ : Registers}
    (hc : c₀ = .user p₀ k₁ cpu₁) (htwo : ∀ x, ∃ r, R r ∧ r ≠ x)
    (hend : ¬ TurnEndless share R p₀) :
    ∃ i a b, IsTurn (states Config.trap (fun _ => yieldTrap) c₀) i a b := by
  have hp : share p₀ ≠ intMax := fun he => hend (Or.inl he)
  have h₁ : states Config.trap (fun _ => yieldTrap) c₀ 0 = .user p₀ k₁ cpu₁ := hc
  obtain ⟨a, ha, hall, q, hq, hqa⟩ := h.turn_ends hp _ h₁ (Nat.le_refl _)
  have hqmax : share q ≠ intMax := fun he => hend (Or.inr ⟨q, hq, he⟩)
  obtain ⟨k₂, cpu₂, h₂⟩ := Config.proc?_eq_some hqa
  obtain ⟨b, hb, hall', r, hr, hrb⟩ := h.turn_ends hqmax _ h₂ (Nat.le_refl _)
  have hne : ∀ x y, IsNext R x y → x ≠ y := by
    rintro x y hxy rfl
    obtain ⟨z, hz, hzx⟩ := htwo x
    exact hzx (hxy.eq_self z hz)
  obtain ⟨a', rfl⟩ := Nat.exists_eq_succ_of_ne_zero (Nat.ne_of_gt ha)
  exact ⟨q, a' + 1, b, hb, ⟨a', p₀, rfl, hne _ _ hq, hall a' (Nat.zero_le _) (Nat.lt_succ_self _)⟩,
    hall', r, (hne _ _ hr).symm, hrb⟩

end Yields

end Runs

/-! ## The share scheduler and the shares -/

section Claim

variable {ramimages : Fin 4 → Ramimage} {k₀ : Machine} {traps : Nat → Trap} {n : Nat} {p : Pid}
  {k : Machine} {cpu : Registers} {share : Pid → Int32}

/-- Any continuation by yields of a state of the system, with whatever shares. -/
theorem idleRun_system (h : system ramimages 3 k₀ traps n = .user p k cpu)
    (hshare : ∀ i, k.Runnable i → 1 ≤ share i) {idle : Nat → Trap} (hidle : ∀ j, (idle j).Idle) :
    IdleRun share k.Runnable idle (.user p (k.withShares share) cpu) where
  one_le := hshare
  idle := hidle
  first := by
    have hr := system_running h
    exact ⟨p, _, cpu, rfl, {
      running := ⟨hr.current, hr.algorithm, hr.pPid, hr.slot_zero, hr.runnable, hr.cpu⟩
      fresh := fun q hq hrun => (system_counting h).fresh q hq hrun
      share := fun _ => rfl
      runnable := fun _ => Iff.rfl }⟩

/-- What is expected of the share scheduler in a state with the given shares: the processor is
shared in proportion to them in every continuation in which processes only yield. -/
def SharesKept (share : Pid → Int32) (c : Config) : Prop :=
  ∀ idle : Nat → Trap, (∀ j, (idle j).Idle) → Proportional share (states Config.trap idle c)

/-- Where a turn is completed, it is too long. -/
theorem not_sharesKept (h : system ramimages 3 k₀ traps n = .user p k cpu)
    (htwo : ∀ x, ∃ r, k.Runnable r ∧ r ≠ x) (hshare : ∀ i, k.Runnable i → 1 ≤ share i)
    (hend : ¬ TurnEndless share k.Runnable p) :
    ¬ SharesKept share (.user p (k.withShares share) cpu) := by
  intro hkept
  have hrun := idleRun_system h hshare fun _ => yieldTrap_idle
  obtain ⟨i, a, b, ht⟩ := hrun.exists_turn rfl htwo hend
  have hlen := (hkept _ fun _ => yieldTrap_idle).length i a b ht
  have hlen' := (hrun.turn_length ht (htwo i)).2
  omega

end Claim

/-- **When turns are as long as the shares.** In a state of a run in which two processes are
runnable, with any positive shares, the share scheduler keeps to the shares if and only if no
turn is ever completed, because the process that runs or the one after it has `INT_MAX` shares.
In every other case its turns are one dispatch too long. -/
theorem share_turns_iff {ramimages : Fin 4 → Ramimage} {k₀ : Machine} {traps : Nat → Trap}
    {n : Nat} {p : Pid} {k : Machine} {cpu : Registers} {share : Pid → Int32}
    (h : system ramimages 3 k₀ traps n = .user p k cpu)
    (htwo : ∃ i j, i ≠ j ∧ k.Runnable i ∧ k.Runnable j)
    (hshare : ∀ i, k.Runnable i → 1 ≤ share i) :
    SharesKept share (.user p (k.withShares share) cpu) ↔
      share p = intMax ∨ ∃ q, IsNext k.Runnable p q ∧ share q = intMax := by
  have htwo' : ∀ x, ∃ r, k.Runnable r ∧ r ≠ x := by
    intro x
    obtain ⟨i, j, hij, hi, hj⟩ := htwo
    by_cases hix : i = x
    · exact ⟨j, hj, fun he => hij (hix.trans he.symm)⟩
    · exact ⟨i, hi, hix⟩
  refine ⟨fun hkept => ?_, fun hend idle hidle => ?_⟩
  · by_contra hend
    exact not_sharesKept h htwo' hshare hend hkept
  · exact TurnEndless.proportional (idleRun_system h hshare hidle) hend

/-- With `INT_MAX` shares for everybody the first turn never ends. -/
theorem share_turns_iff_bare : ∃ k cpu,
    system bareImages 3 bareMachine (fun _ => yieldTrap) 0 = .user 1 k cpu ∧
      SharesKept (fun _ => intMax) (.user 1 (k.withShares fun _ => intMax) cpu) := by
  obtain ⟨entry, ram, h⟩ := system_bare_zero 3 fun _ => yieldTrap
  refine ⟨_, _, h, (share_turns_iff h ⟨1, 2, by decide, ?_, ?_⟩ fun _ _ => by decide).mpr
    (Or.inl rfl)⟩
  · exact bootTable_pState.mpr (by decide)
  · exact bootTable_pState.mpr (by decide)

/-- With one share for everybody the turns are of two dispatches, from `start` on. -/
theorem share_turns_too_long : ∃ k cpu,
    system bareImages 3 bareMachine (fun _ => yieldTrap) 0 = .user 1 k cpu ∧
      (∀ i, k.Runnable i ↔ i ≠ 0) ∧
      ¬ SharesKept (fun _ => 1) (.user 1 (k.withShares fun _ => 1) cpu) := by
  obtain ⟨entry, ram, h⟩ := system_bare_zero 3 fun _ => yieldTrap
  have hrun : ∀ i : Pid, i ≠ 0 → (bootTable entry i).pState = .pRunnable :=
    fun i hi => bootTable_pState.mpr hi
  have htwo : ∀ x : Pid, ∃ r : Pid, (bootTable entry r).pState = .pRunnable ∧ r ≠ x := by
    intro x
    by_cases hx : x = 1
    · exact ⟨2, hrun 2 (by decide), by rw [hx]; decide⟩
    · exact ⟨1, hrun 1 (by decide), Ne.symm hx⟩
  refine ⟨_, _, h, fun i => bootTable_pState, ?_⟩
  refine @not_sharesKept _ _ _ _ _ _ _ (fun _ => 1) h htwo (fun _ _ => Int32.le_refl 1) ?_
  have hne : (1 : Int32) ≠ intMax := by decide
  rintro (hmax | ⟨q, -, hmax⟩)
  · exact hne hmax
  · exact hne hmax

end SchedOS
