import Mathlib.Tactic

/-!
# The keyboard controller of a PC

An 8042 as it looks from its two ports. A byte that is output waits in the input buffer until the
controller takes it, and nobody knows how long that takes; a byte that is output too early is lost
(`overrun`). What it is wanted for here is its output port: bit 1 is the gate of address line 20.

* `command_data` — how a byte gets into the output port
-/

namespace Infra

structure KeyboardController where
  /-- What is in the input buffer, and whether it has come through the command port. -/
  input : Option (Bool × UInt8)
  /-- The command that awaits a byte. -/
  command : Option UInt8
  outputPort : UInt8
  /-- A byte has been output into a full buffer. -/
  overrun : Bool
  deriving DecidableEq

namespace KeyboardController

/-- The status register; only the bit that shows a full input buffer is known. -/
def status (c : KeyboardController) (others : UInt8) : UInt8 :=
  (others &&& ~~~2) ||| (if c.input.isSome then 2 else 0)

/-- A byte is output to the command port, or to the data port. -/
def outb (isCommand : Bool) (b : UInt8) (c : KeyboardController) : KeyboardController :=
  if c.input.isSome then { c with overrun := true } else { c with input := some (isCommand, b) }

/-- "Write output port". -/
def writeOutputPort : UInt8 := 0xD1

/-- The controller takes the byte from the buffer. Only one of its commands matters. -/
def take (c : KeyboardController) : KeyboardController :=
  match c.input with
  | none => c
  | some (true, b) => { c with input := none, command := some b }
  | some (false, b) =>
    { c with
      input := none
      command := none
      outputPort := if c.command = some writeOutputPort then b else c.outputPort }

/-- Address line 20 is let through. -/
def gate (c : KeyboardController) : Bool := c.outputPort &&& 2 != 0

variable {c c' : KeyboardController}

@[simp] theorem status_busy (others : UInt8) : c.status others &&& 2 = 0 ↔ c.input = none := by
  have hbits : ∀ o : Fin 256, ((UInt8.ofFin o &&& ~~~2) ||| 0) &&& 2 = 0 ∧
      ((UInt8.ofFin o &&& ~~~2) ||| 2) &&& 2 ≠ 0 := by
    decide +kernel
  obtain ⟨hempty, hfull⟩ := hbits others.toFin
  unfold status
  cases c.input with
  | none => exact iff_of_true hempty rfl
  | some x => exact iff_of_false hfull (Option.some_ne_none x)

theorem outb_of_ready (h : c.input = none) (isCommand : Bool) (b : UInt8) :
    c.outb isCommand b = { c with input := some (isCommand, b) } := by
  rw [outb, h]
  rfl

theorem take_of_ready (h : c.input = none) : c.take = c := by
  rw [take, h]

@[simp] theorem take_input : c.take.input = none := by
  unfold take
  split
  · assumption
  · rfl
  · rfl

@[simp] theorem take_overrun : c.take.overrun = c.overrun := by
  unfold take
  split <;> rfl

/-! ## As time goes by -/

/-- What `c` may have become by itself. -/
def Later (c c' : KeyboardController) : Prop := c' = c ∨ c' = c.take

theorem Later.refl (c : KeyboardController) : Later c c := Or.inl rfl

theorem Later.take (h : Later c c') : Later c c'.take := by
  rcases h with rfl | rfl
  · exact Or.inr rfl
  · exact Or.inr (take_of_ready take_input)

theorem Later.trans {c'' : KeyboardController} (h : Later c c') (h' : Later c' c'') :
    Later c c'' := by
  rcases h' with rfl | rfl
  · exact h
  · exact h.take

theorem Later.overrun (h : Later c c') : c'.overrun = c.overrun := by
  rcases h with rfl | rfl
  · rfl
  · exact take_overrun

/-- A controller with an empty buffer stays as it is. -/
theorem Later.eq_of_ready (h : Later c c') (hc : c.input = none) : c' = c := by
  rcases h with rfl | rfl
  · rfl
  · exact take_of_ready hc

theorem Later.take_eq (h : Later c c') : c'.take = c.take := by
  rcases h with rfl | rfl
  · rfl
  · exact take_of_ready take_input

/-- When the buffer is empty again, the byte has been taken. -/
theorem Later.eq_take (h : Later c c') (hc' : c'.input = none) : c' = c.take := by
  rw [← h.take_eq, take_of_ready hc']

/-- **Writing to the output port**: the command and, when it has been taken, the byte. -/
theorem command_data (hc : c.input = none) (b : UInt8)
    (h : Later (c.outb true writeOutputPort) c') (hc' : c'.input = none) :
    (c'.outb false b).overrun = c.overrun ∧ (c'.outb false b).take.outputPort = b := by
  rw [outb_of_ready hc] at h
  rw [outb_of_ready hc', h.eq_take hc']
  exact ⟨rfl, by simp [KeyboardController.take]⟩

end KeyboardController

end Infra
