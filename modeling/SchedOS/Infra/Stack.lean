import SchedOS.Infra.Memory

/-!
# A stack of words

A stack that grows downwards in memory, in steps of four bytes; `esp` is the address of its top.

* `words_pushAll_above` — the words that have been on the stack stay as they are
* `words_pushAll` — after some words have been pushed, memory from the top on holds these words,
  the last one first, and behind them what has been on the stack before
-/

namespace Infra

/-- The memory with the stack in it. -/
structure Stack where
  mem : Mem
  esp : UInt32

/-- `pushl`. -/
def Stack.push (s : Stack) (w : UInt32) : Stack := ⟨writeU32 s.mem (s.esp - 4) w, s.esp - 4⟩

/-- `popl`. -/
def Stack.pop (s : Stack) : UInt32 × Stack := (readU32 s.mem s.esp, ⟨s.mem, s.esp + 4⟩)

/-- Several `pushl`, from the first word on. -/
def Stack.pushAll (s : Stack) (ws : List UInt32) : Stack := ws.foldl Stack.push s

theorem Stack.pushAll_cons (s : Stack) (w : UInt32) (ws : List UInt32) :
    s.pushAll (w :: ws) = (s.push w).pushAll ws := rfl

theorem Stack.pushAll_append (s : Stack) (ws vs : List UInt32) :
    s.pushAll (ws ++ vs) = (s.pushAll ws).pushAll vs :=
  List.foldl_append

/-- The `n` words from `a` on. -/
def words (m : Mem) : UInt32 → Nat → List UInt32
  | _, 0 => []
  | a, n + 1 => readU32 m a :: words m (a + 4) n

section Words

variable {m m' : Mem}

theorem words_congr : ∀ {n : Nat} {a : UInt32}, 4 * n ≤ 2 ^ 32 →
    (∀ x, InSpan a (4 * n) x → m' x = m x) → words m' a n = words m a n
  | 0, _, _, _ => rfl
  | n + 1, a, hn, h => by
    have hword : readU32 m' a = readU32 m a :=
      readU32_congr fun x hx => h x (Nat.lt_of_lt_of_le hx (by omega))
    have hrest : words m' (a + 4) n = words m (a + 4) n := by
      refine words_congr (by omega) fun x hx => h x (inSpan_of_add ?_ hx)
      rw [show (4 : UInt32).toNat = 4 from rfl]
      omega
    rw [words, words, hword, hrest]

/-- Words are made of bytes. -/
theorem words_of_readBytes : ∀ {n : Nat} {a a' : UInt32},
    readBytes m' a' (4 * n) = readBytes m a (4 * n) → words m' a' n = words m a n
  | 0, _, _, _ => rfl
  | n + 1, a, a', h => by
    rw [show 4 * (n + 1) = 4 + 4 * n by omega, readBytes_add, readBytes_add] at h
    obtain ⟨hword, hrest⟩ := List.append_inj h (by rw [length_readBytes, length_readBytes])
    rw [words, words, readU32, readU32, hword]
    exact congrArg _ (words_of_readBytes hrest)

/-- What is stored below a span of words does not change it. -/
theorem words_writeU32 {n : Nat} {a : UInt32} (hn : 4 * n + 4 ≤ 2 ^ 32) (w : UInt32) :
    words (writeU32 m (a - 4) w) a n = words m a n := by
  refine words_congr (by omega) fun x hx => writeU32_of_not_inSpan m w fun hx' => ?_
  unfold InSpan at hx hx'
  rw [show x - (a - 4) = x - a + 4 by grind, UInt32.toNat_add,
    show (4 : UInt32).toNat = 4 from rfl] at hx'
  omega

end Words

theorem words_push_above (s : Stack) (w : UInt32) {n : Nat} (hn : 4 * n + 4 ≤ 2 ^ 32) :
    words (s.push w).mem s.esp n = words s.mem s.esp n :=
  words_writeU32 hn w

theorem words_push (s : Stack) (w : UInt32) {n : Nat} (hn : 4 * n + 4 ≤ 2 ^ 32) :
    words (s.push w).mem (s.push w).esp (n + 1) = w :: words s.mem s.esp n := by
  have habove := words_push_above s w hn
  rw [words, Stack.push, readU32_writeU32, show s.esp - 4 + 4 = s.esp by grind]
  exact congrArg _ habove

/-- What has been on the stack stays as it is. -/
theorem words_pushAll_above : ∀ (ws : List UInt32) (s : Stack) (n : Nat),
    4 * (ws.length + n) ≤ 2 ^ 32 → words (s.pushAll ws).mem s.esp n = words s.mem s.esp n
  | [], _, _, _ => rfl
  | w :: ws, s, n, h => by
    rw [List.length_cons] at h
    have ih := words_pushAll_above ws (s.push w) (n + 1) (by omega)
    rw [words, words, Stack.push, show s.esp - 4 + 4 = s.esp by grind] at ih
    rw [← words_push_above s w (by omega)]
    exact (List.cons.inj ih).2

/-- **What is on the stack** after some words have been pushed. -/
theorem words_pushAll : ∀ (ws : List UInt32) (s : Stack) (n : Nat),
    4 * (ws.length + n) ≤ 2 ^ 32 →
    words (s.pushAll ws).mem (s.pushAll ws).esp (ws.length + n) = ws.reverse ++ words s.mem s.esp n
  | [], s, n, _ => by
    rw [List.length_nil, Nat.zero_add]
    rfl
  | w :: ws, s, n, h => by
    rw [List.length_cons] at h
    have ih := words_pushAll ws (s.push w) (n + 1) (by omega)
    rw [words_push s w (by omega)] at ih
    rw [List.length_cons, List.reverse_cons, List.append_assoc, Nat.add_right_comm]
    exact ih

/-! ## Halves -/

/-- A word from its halves. -/
def word (high low : UInt16) : UInt32 := UInt32.ofNat (2 ^ 16 * high.toNat + low.toNat)

/-- The upper half of a word. -/
def highHalf (w : UInt32) : UInt16 := UInt16.ofNat (w.toNat / 2 ^ 16)

section Halves

variable {high low : UInt16}

theorem word_toNat (high low : UInt16) :
    (word high low).toNat = 2 ^ 16 * high.toNat + low.toNat := by
  have hhigh := high.toNat_lt
  have hlow := low.toNat_lt
  rw [word, UInt32.toNat_ofNat']
  omega

@[simp] theorem word_toUInt16 : (word high low).toUInt16 = low := by
  refine UInt16.toNat_inj.mp ?_
  have hlow := low.toNat_lt
  rw [UInt32.toNat_toUInt16, word_toNat]
  omega

@[simp] theorem highHalf_word : highHalf (word high low) = high := by
  refine UInt16.toNat_inj.mp ?_
  have hhigh := high.toNat_lt
  have hlow := low.toNat_lt
  rw [highHalf, UInt16.toNat_ofNat', word_toNat]
  omega

@[simp] theorem word_highHalf (w : UInt32) : word (highHalf w) w.toUInt16 = w := by
  refine UInt32.toNat_inj.mp ?_
  have hw := w.toNat_lt
  rw [word_toNat, highHalf, UInt16.toNat_ofNat', UInt32.toNat_toUInt16]
  omega

theorem word_inj {high' low' : UInt16} :
    word high low = word high' low' ↔ high = high' ∧ low = low' := by
  constructor
  · intro h
    have hhigh := congrArg highHalf h
    have hlow := congrArg UInt32.toUInt16 h
    rw [highHalf_word, highHalf_word] at hhigh
    rw [word_toUInt16, word_toUInt16] at hlow
    exact ⟨hhigh, hlow⟩
  · rintro ⟨rfl, rfl⟩
    rfl

/-- The halves of a word lie one behind the other in memory, the lower one first. -/
theorem readU32_eq_word (m : Mem) (a : UInt32) :
    readU32 m a = word (readU16 m (a + 2)) (readU16 m a) := by
  have hlow : ofLE (readBytes m a 2) = (m a).toNat + 256 * (m (a + 1)).toNat := by
    rw [readBytes_succ, readBytes_succ]
    simp [ofLE, readBytes]
  have hhigh : ofLE (readBytes m (a + 2) 2) = (m (a + 2)).toNat + 256 * (m (a + 2 + 1)).toNat := by
    rw [readBytes_succ, readBytes_succ]
    simp [ofLE, readBytes]
  have hall : ofLE (readBytes m a 4)
      = ofLE (readBytes m a 2) + 2 ^ 16 * ofLE (readBytes m (a + 2) 2) := by
    rw [hlow, readBytes_succ, readBytes_succ, ofLE, ofLE, show a + 1 + 1 = a + 2 by grind]
    omega
  have h₀ := (m a).toNat_lt
  have h₁ := (m (a + 1)).toNat_lt
  have h₂ := (m (a + 2)).toNat_lt
  have h₃ := (m (a + 2 + 1)).toNat_lt
  refine UInt32.toNat_inj.mp ?_
  rw [word_toNat, readU32, readU16, readU16, UInt32.toNat_ofNat', UInt16.toNat_ofNat',
    UInt16.toNat_ofNat', hall, hlow, hhigh]
  omega

end Halves

end Infra
