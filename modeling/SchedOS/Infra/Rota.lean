import SchedOS.Infra.Cyclic
import Mathlib.Logic.Relation

/-!
# Taking turns voluntarily

`N` tasks on a circle share a processor. Each keeps it until it gives it up, and then the next
candidate has a turn; who is a candidate depends only on how many turns each of the tasks has
had. What a task puts out in a turn depends on the number of that turn.

The tasks of a list `l`, in ascending order, go round together while they are the candidates
(`Orderly`). `Rota.rounds` says what they have put out when each of them has had its turns from
number `a` up to `b`, and `Rota.Orderly.chooses` who has the first one.
-/

namespace Infra

universe u

/-! ## Choosing from an ascending list -/

section Ascending

variable {N : Nat} {S : Fin N → Prop} {p q z : Fin N} {l : List (Fin N)}

theorem not_mem_of_pairwise {done todo : List (Fin N)}
    (hl : (done ++ p :: todo).Pairwise (· < ·)) : p ∉ done := fun hmem =>
  lt_irrefl p ((List.pairwise_append.mp hl).2.2 p hmem p List.mem_cons_self)

/-- Who comes right after `p` in the list comes right after `p` on the circle. -/
theorem isNext_of_adjacent {done todo : List (Fin N)}
    (hl : (done ++ p :: q :: todo).Pairwise (· < ·)) (hq : S q)
    (honly : ∀ r, S r → r ∈ done ++ p :: q :: todo) : IsNext S p q := by
  refine ⟨hq, fun r hr => ?_⟩
  obtain ⟨-, htail, hdone⟩ := List.pairwise_append.mp hl
  obtain ⟨hp, htail⟩ := List.pairwise_cons.mp htail
  have hpq : p.val < q.val := hp q List.mem_cons_self
  have hN := q.isLt
  have hcases : r ≤ p ∨ q ≤ r := by
    rcases List.mem_append.mp (honly r hr) with hmem | hmem
    · exact Or.inl (le_of_lt (hdone r hmem p List.mem_cons_self))
    rcases List.mem_cons.mp hmem with rfl | hmem
    · exact Or.inl (le_refl _)
    rcases List.mem_cons.mp hmem with rfl | hmem
    · exact Or.inr (le_refl _)
    · exact Or.inr (le_of_lt ((List.pairwise_cons.mp htail).1 r hmem))
  unfold gap
  rw [if_pos hpq]
  rcases hcases with hle | hge
  · have hval : r.val ≤ p.val := hle
    rw [if_neg (Nat.not_lt.mpr hval)]
    omega
  · have hval : q.val ≤ r.val := hge
    rw [if_pos (Nat.lt_of_lt_of_le hpq hval)]
    omega

/-- Where all of the list are behind, or all are ahead, its head comes next. -/
theorem isNext_of_head (hl : (q :: l).Pairwise (· < ·))
    (hz : (∀ r ∈ q :: l, r ≤ z) ∨ ∀ r ∈ q :: l, z < r) (hq : S q)
    (honly : ∀ r, S r → r ∈ q :: l) : IsNext S z q := by
  refine ⟨hq, fun r hr => ?_⟩
  have hqr : q.val ≤ r.val := by
    rcases List.mem_cons.mp (honly r hr) with rfl | hmem
    · exact Nat.le_refl _
    · exact Nat.le_of_lt ((List.pairwise_cons.mp hl).1 r hmem)
  unfold gap
  rcases hz with hle | hgt
  · have hqz : q.val ≤ z.val := hle q List.mem_cons_self
    have hrz : r.val ≤ z.val := hle r (honly r hr)
    rw [if_neg (Nat.not_lt.mpr hqz), if_neg (Nat.not_lt.mpr hrz)]
    omega
  · have hqz : z.val < q.val := hgt q List.mem_cons_self
    rw [if_pos hqz, if_pos (Nat.lt_of_lt_of_le hqz hqr)]
    omega

end Ascending

/-- The choice from `S` after `p`: the next member, if there is any. -/
inductive Chooses {N : Nat} (S : Fin N → Prop) (p : Fin N) : Option (Fin N) → Prop where
  | some {q : Fin N} (h : IsNext S p q) : Chooses S p (some q)
  | none (h : ∀ q, ¬ S q) : Chooses S p none

/-! ## Turns -/

/-- Tasks that take turns. -/
structure Rota (N : Nat) (β : Type u) where
  /-- Who may be next when the tasks have had so many turns. -/
  Candidate : (Fin N → Nat) → Fin N → Prop
  /-- What a task puts out in its turn of that number. -/
  output : Fin N → Nat → List β

/-- Between two turns. -/
structure Rota.State (N : Nat) (β : Type u) where
  /-- The number of turns that each task has had. -/
  turns : Fin N → Nat
  /-- Whose turn it is. -/
  active : Option (Fin N)
  log : List β

/-- One more turn for `p`. -/
def bump {N : Nat} (turns : Fin N → Nat) (p : Fin N) : Fin N → Nat :=
  Function.update turns p (turns p + 1)

@[simp] theorem bump_self {N : Nat} (turns : Fin N → Nat) (p : Fin N) :
    bump turns p p = turns p + 1 :=
  Function.update_self ..

theorem bump_of_ne {N : Nat} {p q : Fin N} (turns : Fin N → Nat) (h : q ≠ p) :
    bump turns p q = turns q :=
  Function.update_of_ne h ..

/-- While the tasks of `done ++ todo` have their turn number `s`: those of `done` have had it,
and the others have had as many as `base` says. -/
def during {N : Nat} (base : Fin N → Nat) (s : Nat) (done todo : List (Fin N)) : Fin N → Nat :=
  fun q => if q ∈ done then s + 1 else if q ∈ todo then s else base q

namespace Rota

variable {N : Nat} {β : Type u} (r : Rota N β)

/-- The task whose turn it is has it, and the next one is chosen. -/
inductive Turn : State N β → State N β → Prop where
  | turn {turns : Fin N → Nat} {p : Fin N} {log : List β} {o : Option (Fin N)}
    (h : Chooses (r.Candidate (bump turns p)) p o) :
    Turn ⟨turns, some p, log⟩ ⟨bump turns p, o, log ++ r.output p (turns p)⟩

/-- Any number of turns. -/
def Reaches : State N β → State N β → Prop := Relation.ReflTransGen r.Turn

/-- What the tasks of `l` put out in `n` rounds, the first of which is number `a`. -/
def outputs (l : List (Fin N)) (a n : Nat) : List β :=
  (List.range' a n).flatMap fun s => l.flatMap (r.output · s)

/-- The tasks of `l` are in the middle of their turn number `s`. -/
structure MidRound (base : Fin N → Nat) (l : List (Fin N)) (s : Nat) (turns : Fin N → Nat) :
    Prop where
  mem : ∀ x ∈ l, turns x = s ∨ turns x = s + 1
  not_mem : ∀ x, x ∉ l → turns x = base x

/-- At turn number `s` the tasks of `l` are the ones that go round: as long as some of them have
not had that turn, those are candidates, and there are no candidates but tasks of `l`. -/
structure Orderly (base : Fin N → Nat) (l : List (Fin N)) (s : Nat) : Prop where
  next : ∀ turns q, MidRound base l s turns → q ∈ l → turns q = s → r.Candidate turns q
  only : ∀ turns q, MidRound base l s turns → q ∈ l → turns q = s →
    ∀ x, r.Candidate turns x → x ∈ l

end Rota

section During

variable {N : Nat} {base : Fin N → Nat} {s : Nat} {done todo l : List (Fin N)} {p q : Fin N}

theorem during_of_mem (h : q ∈ l) : during base s [] l q = s := by
  simp [during, h]

theorem during_of_not_mem (h : q ∉ l) : during base s [] l q = base q := by
  simp [during, h]

theorem during_eq_base (h : ∀ q ∈ l, base q = s) : during base s [] l = base := by
  funext q
  by_cases hq : q ∈ l
  · rw [during_of_mem hq, h q hq]
  · rw [during_of_not_mem hq]

/-- When everyone has had turn number `s`, turn number `s + 1` begins. -/
theorem during_done : during base s l [] = during base (s + 1) [] l := by
  funext q
  by_cases hq : q ∈ l <;> simp [during, hq]

theorem during_head (hp : p ∉ done) : during base s done (p :: todo) p = s := by
  simp [during, hp]

theorem midRound_during {l : List (Fin N)} (h : l = done ++ todo) :
    Rota.MidRound base l s (during base s done todo) := by
  subst h
  constructor
  · intro x hx
    by_cases hdone : x ∈ done
    · simp [during, hdone]
    · simp [during, hdone, (List.mem_append.mp hx).resolve_left hdone]
  · intro x hx
    simp only [List.mem_append, not_or] at hx
    simp [during, hx]

theorem bump_during (hp : p ∉ done) :
    bump (during base s done (p :: todo)) p = during base s (done ++ [p]) todo := by
  funext q
  by_cases hq : q = p
  · rw [hq, bump_self, during_head hp]
    simp [during]
  · rw [bump_of_ne _ hq]
    simp [during, hq]

end During

/-! ## Rounds -/

namespace Rota

variable {N : Nat} {β : Type u} {r : Rota N β} {base : Fin N → Nat} {s : Nat}
  {l : List (Fin N)} {p : Fin N} {log : List β} {o : Option (Fin N)}

theorem Turn.at_head {done todo : List (Fin N)} (hp : p ∉ done)
    (ho : Chooses (r.Candidate (during base s (done ++ [p]) todo)) p o) :
    r.Turn ⟨during base s done (p :: todo), some p, log⟩
      ⟨during base s (done ++ [p]) todo, o, log ++ r.output p s⟩ := by
  rw [← bump_during hp] at ho ⊢
  have hturn : r.Turn ⟨during base s done (p :: todo), some p, log⟩
      ⟨bump (during base s done (p :: todo)) p, o,
        log ++ r.output p (during base s done (p :: todo) p)⟩ := .turn ho
  rwa [during_head hp] at hturn

/-- The task `q` comes next, after those of `done` and before those of `todo`. -/
theorem Orderly.candidate {done todo : List (Fin N)} {q : Fin N} (h : r.Orderly base l s)
    (he : l = done ++ q :: todo) (hq : q ∉ done) :
    r.Candidate (during base s done (q :: todo)) q ∧
      ∀ x, r.Candidate (during base s done (q :: todo)) x → x ∈ l := by
  have hmem : q ∈ l := by simp [he]
  have hmid : MidRound base l s (during base s done (q :: todo)) := midRound_during he
  exact ⟨h.next _ q hmid hmem (during_head hq), h.only _ q hmid hmem (during_head hq)⟩

/-- **One round**, from the task `p` of the list on: everyone behind it has a turn. -/
theorem Orderly.round (h : r.Orderly base l s) (hl : l.Pairwise (· < ·)) :
    ∀ (todo done : List (Fin N)) (p : Fin N) (log : List β), l = done ++ p :: todo →
      Chooses (r.Candidate (during base s l [])) ((p :: todo).getLast (List.cons_ne_nil _ _)) o →
      r.Reaches ⟨during base s done (p :: todo), some p, log⟩
        ⟨during base s l [], o, log ++ (p :: todo).flatMap (r.output · s)⟩
  | [], done, p, log, he, ho => by
    have hp : p ∉ done := not_mem_of_pairwise (he ▸ hl)
    subst he
    rw [List.flatMap_singleton]
    exact Relation.ReflTransGen.single (Turn.at_head hp ho)
  | q :: todo, done, p, log, he, ho => by
    have hp : p ∉ done := not_mem_of_pairwise (he ▸ hl)
    have he' : l = (done ++ [p]) ++ q :: todo := by simp [he]
    obtain ⟨hq, honly⟩ := h.candidate he' (not_mem_of_pairwise (he' ▸ hl))
    have hnext : IsNext (r.Candidate (during base s (done ++ [p]) (q :: todo))) p q :=
      isNext_of_adjacent (he ▸ hl) hq fun x hx => he ▸ honly x hx
    have hrest := Orderly.round h hl todo (done ++ [p]) q (log ++ r.output p s) he' ho
    rw [List.flatMap_cons, ← List.append_assoc]
    exact Relation.ReflTransGen.head (Turn.at_head hp (.some hnext)) hrest

/-- A whole round. -/
theorem Orderly.round_all {head : Fin N} {tail : List (Fin N)}
    (h : r.Orderly base (head :: tail) s) (hl : (head :: tail).Pairwise (· < ·))
    (ho : Chooses (r.Candidate (during base (s + 1) [] (head :: tail)))
      ((head :: tail).getLast (List.cons_ne_nil _ _)) o) :
    r.Reaches ⟨during base s [] (head :: tail), some head, log⟩
      ⟨during base (s + 1) [] (head :: tail), o,
        log ++ (head :: tail).flatMap (r.output · s)⟩ := by
  rw [← during_done] at ho ⊢
  exact h.round hl tail [] head log rfl ho

/-- The round begins with the head of the list. -/
theorem Orderly.chooses {head z : Fin N} {tail : List (Fin N)}
    (h : r.Orderly base (head :: tail) s) (hl : (head :: tail).Pairwise (· < ·))
    (hz : (∀ q ∈ head :: tail, q ≤ z) ∨ ∀ q ∈ head :: tail, z < q) :
    Chooses (r.Candidate (during base s [] (head :: tail))) z (some head) := by
  have he : head :: tail = [] ++ head :: tail := rfl
  obtain ⟨hhead, honly⟩ := h.candidate he List.not_mem_nil
  exact .some (isNext_of_head hl hz hhead honly)

theorem outputs_succ (l : List (Fin N)) (a n : Nat) :
    r.outputs l a (n + 1) = r.outputs l a n ++ l.flatMap (r.output · (a + n)) := by
  unfold outputs
  rw [List.range'_1_concat, List.flatMap_append, List.flatMap_singleton]

/-- **Rounds.** The tasks of the list have their turns from number `a` on, and after the last of
them the choice is `o`. -/
theorem rounds {head : Fin N} {tail : List (Fin N)} (hl : (head :: tail).Pairwise (· < ·))
    (log : List β) {a : Nat} : ∀ (n : Nat) {o : Option (Fin N)},
      (∀ s, a ≤ s → s ≤ a + n → r.Orderly base (head :: tail) s) →
      Chooses (r.Candidate (during base (a + n + 1) [] (head :: tail)))
        ((head :: tail).getLast (List.cons_ne_nil _ _)) o →
      r.Reaches ⟨during base a [] (head :: tail), some head, log⟩
        ⟨during base (a + n + 1) [] (head :: tail), o,
          log ++ r.outputs (head :: tail) a (n + 1)⟩
  | 0, o, h, ho => by
    rw [outputs_succ]
    exact (h a (Nat.le_refl a) (Nat.le_refl a)).round_all hl ho
  | n + 1, o, h, ho => by
    have hlast := h (a + (n + 1)) (Nat.le_add_right _ _) (Nat.le_refl _)
    -- after all rounds but one, it is the turn of the head again
    have hfirst := rounds hl log n (fun s ha hs => h s ha (by omega))
      (hlast.chooses hl (Or.inl fun q hq => (hl.imp le_of_lt).rel_getLast hq))
    rw [outputs_succ, ← List.append_assoc]
    exact hfirst.trans (hlast.round_all hl ho)

/-- The same up to turn number `b`. -/
theorem rounds_upto {head : Fin N} {tail : List (Fin N)} {a b : Nat} (log : List β)
    (hl : (head :: tail).Pairwise (· < ·)) (hab : a < b)
    (h : ∀ s, a ≤ s → s < b → r.Orderly base (head :: tail) s)
    (ho : Chooses (r.Candidate (during base b [] (head :: tail)))
      ((head :: tail).getLast (List.cons_ne_nil _ _)) o) :
    r.Reaches ⟨during base a [] (head :: tail), some head, log⟩
      ⟨during base b [] (head :: tail), o, log ++ r.outputs (head :: tail) a (b - a)⟩ := by
  obtain ⟨n, rfl⟩ := Nat.exists_eq_add_of_lt hab
  rw [show a + n + 1 - a = n + 1 by omega]
  exact rounds hl log n (fun s ha hs => h s ha (by omega)) ho

/-! ## What is put out -/

theorem outputs_add (l : List (Fin N)) (a m n : Nat) :
    r.outputs l a (m + n) = r.outputs l a m ++ r.outputs l (a + m) n := by
  unfold outputs
  rw [← List.flatMap_append, List.range'_append_1]

/-- Rounds in which nobody puts anything out … -/
theorem outputs_eq_nil {a : Nat} : ∀ {n : Nat},
    (∀ s, a ≤ s → s < a + n → ∀ p ∈ l, r.output p s = []) → r.outputs l a n = []
  | 0, _ => rfl
  | n + 1, h => by
    rw [outputs_succ, outputs_eq_nil fun s ha hs => h s ha (by omega), List.nil_append]
    exact List.flatMap_eq_nil_iff.mpr (h (a + n) (Nat.le_add_right _ _) (by omega))

end Rota

/-- … and rounds in which each task puts out its own name. -/
theorem Rota.outputs_names {N : Nat} {r : Rota N (Fin N)} {l : List (Fin N)} {a : Nat} :
    ∀ {n : Nat}, (∀ s, a ≤ s → s < a + n → ∀ p ∈ l, r.output p s = [p]) →
      r.outputs l a n = (List.replicate n l).flatten
  | 0, _ => rfl
  | n + 1, h => by
    have hlast : l.flatMap (r.output · (a + n)) = l :=
      (List.flatMap_congr (h (a + n) (Nat.le_add_right _ _) (by omega))).trans
        (List.flatMap_singleton' l)
    rw [outputs_succ, outputs_names fun s ha hs => h s ha (by omega), hlast,
      List.replicate_succ', List.flatten_append, List.flatten_singleton]

end Infra
