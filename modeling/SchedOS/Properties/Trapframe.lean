import SchedOS.Kern.Trapframe
import SchedOS.Properties.Lifecycle

/-!
# The trap frame

A `registers_t` has a field for an error code. The handlers of the clock interrupt and of the
system calls push a 0 for it, in front of their number; `default_int_handler` leaves it out, so
that the number is missing if the processor has not supplied an error code. Then every field
from the number on is found one word too high.

* `trap_frame_iff` — when the registers of a process are in their places
* `system_resume_context` — then the process goes on in the context in which it was interrupted
-/

namespace SchedOS

open Infra

/-! ## Gates -/

theorem foldl_update_of_ne {v : UInt8} {f : Fin 10 → Handler} :
    ∀ {is : List (Fin 10)} {gates : UInt8 → Handler}, (∀ i ∈ is, v ≠ sysVector i) →
      is.foldl (fun gates i => Function.update gates (sysVector i) (f i)) gates v = gates v
  | [], _, _ => rfl
  | i :: is, gates, h => by
    rw [List.foldl_cons, foldl_update_of_ne fun j hj => h j (List.mem_cons_of_mem i hj),
      Function.update_of_ne (h i List.mem_cons_self)]

/-- The exceptions have the default gate. -/
theorem interruptDescriptors_exception {v : UInt8} (hv : v < 32) :
    interruptDescriptors v = .default := by
  have hsys : ∀ i, v ≠ sysVector i := by
    rintro i rfl
    revert i
    decide
  have hclock : v ≠ intClock.toUInt8 := by
    rintro rfl
    exact absurd hv (by decide)
  unfold interruptDescriptors
  rw [foldl_update_of_ne fun i _ => hsys i, Function.update_of_ne hclock]

/-! ## Words and registers -/

/-- The words that a `registers_t` consists of. -/
def Registers.words (r : Registers) : List UInt32 :=
  [r.regEdi, r.regEsi, r.regEbp, r.regOriginalEsp, r.regEbx, r.regEdx, r.regEcx, r.regEax,
    word r.regPadding1 r.regEs, word r.regPadding2 r.regDs, r.regIntno, r.regErr, r.regEip,
    word r.regPadding3 r.regCs, r.regEflags, r.regEsp, word r.regPadding4 r.regSs]

theorem Registers.words_injective {r r' : Registers} (h : r.words = r'.words) : r = r' := by
  cases r
  cases r'
  simp only [Registers.words, List.cons.injEq, word_inj] at h
  simp only [Registers.mk.injEq]
  tauto

theorem words_readRegisters (m : Mem) (reg : UInt32) :
    words m reg 17 = (readRegisters m reg).words := by
  have hhalves : ∀ d, readU32 m (reg + d)
      = word (readU16 m (reg + (d + 2))) (readU16 m (reg + d)) := by
    intro d
    rw [readU32_eq_word, UInt32.add_assoc]
  have h₃₂ := hhalves 32
  have h₃₆ := hhalves 36
  have h₅₂ := hhalves 52
  have h₆₄ := hhalves 64
  simp [Infra.words, Registers.words, readRegisters, UInt32.add_assoc, h₃₂, h₃₆, h₅₂, h₆₄]

/-- What `run` makes of a register set, if it returns to a process: the fields, each in its
register. -/
theorem resume_eq {m : Mem} {reg : UInt32} (h : (readRegisters m reg).regCs &&& 3 ≠ 0) :
    resume m reg = (readRegisters m reg).context := by
  have hlow : ∀ a, (readU32 m a).toUInt16 = readU16 m a := by
    intro a
    rw [readU32_eq_word, word_toUInt16]
  have hcs : (readU32 m (reg + 52)).toUInt16 &&& 3 ≠ 0 := by
    rw [hlow]
    exact h
  simp only [resume, Stack.pop, UInt32.add_assoc, UInt32.reduceAdd]
  rw [if_pos hcs]
  simp only [hlow, readRegisters, Registers.context]

/-! ## What is on the stack -/

section Frame

variable {i : Interrupt} {c : Context} {pad : Padding} {ret : UInt32} {m : Mem}

/-- `_generic_int_handler` pushes ten words. -/
theorem genericIntHandler_eq (c : Context) (pad : Padding) (s : Stack) :
    genericIntHandler c pad s = s.pushAll [word pad.ds c.ds, word pad.es c.es, c.eax, c.ecx, c.edx,
      c.ebx, ((s.push (word pad.ds c.ds)).push (word pad.es c.es)).esp, c.ebp, c.esi, c.edi] :=
  ((Stack.pushAll_cons ..).trans (Stack.pushAll_cons ..)).symm

/-- **The words at the address passed to `interrupt`**: what has been pushed, the last word first,
and then what has been on the stack. -/
theorem callInterrupt_words (i : Interrupt) (c : Context) (pad : Padding) (ret : UInt32) (m : Mem)
    {ws : List UInt32} (hws : i.pushes c pad ++ (interruptDescriptors i.vector).pushes = ws)
    {n : Nat} (hn : ws.length + n = 7) : ∃ original_esp,
    words (callInterrupt i c pad ret m).2 (callInterrupt i c pad ret m).1 17
      = [c.edi, c.esi, c.ebp, original_esp, c.ebx, c.edx, c.ecx, c.eax, word pad.es c.es,
          word pad.ds c.ds] ++ (ws.reverse ++ words m kernelStackTop n) := by
  have hs := words_pushAll ws ⟨m, kernelStackTop⟩ n (by omega)
  rw [hn] at hs
  let s : Stack := Stack.pushAll ⟨m, kernelStackTop⟩ ws
  let s' := genericIntHandler c pad s
  have hcall : callInterrupt i c pad ret m = (s'.esp, (s'.pushAll [s'.esp, ret]).mem) := by
    unfold callInterrupt
    dsimp only
    rw [← Stack.pushAll_append, hws]
    rfl
  have habove : words (s'.pushAll [s'.esp, ret]).mem s'.esp 17 = words s'.mem s'.esp 17 :=
    words_pushAll_above [s'.esp, ret] s' 17 (show 4 * (2 + 17) ≤ 2 ^ 32 by decide)
  have hframe := words_pushAll [word pad.ds c.ds, word pad.es c.es, c.eax, c.ecx, c.edx, c.ebx,
    ((s.push (word pad.ds c.ds)).push (word pad.es c.es)).esp, c.ebp, c.esi, c.edi] s 7
    (show 4 * (10 + 7) ≤ 2 ^ 32 by decide)
  rw [← genericIntHandler_eq, hs] at hframe
  refine ⟨((s.push (word pad.ds c.ds)).push (word pad.es c.es)).esp, ?_⟩
  rw [hcall]
  exact habove.trans hframe

/-- The register set that the process is taken up with again, as it should be. -/
def frame (c : Context) (pad : Padding) (original_esp intno err : UInt32) : Registers :=
  ⟨c.edi, c.esi, c.ebp, original_esp, c.ebx, c.edx, c.ecx, c.eax, c.es, pad.es, c.ds, pad.ds, intno,
    err, c.eip, c.cs, pad.cs, c.eflags, c.esp, c.ss, pad.ss⟩

/-- The same if a word is missing; `above` is the word behind the stack. -/
def shiftedFrame (c : Context) (pad : Padding) (original_esp intno above : UInt32) : Registers :=
  ⟨c.edi, c.esi, c.ebp, original_esp, c.ebx, c.edx, c.ecx, c.eax, c.es, pad.es, c.ds, pad.ds, intno,
    c.eip, word pad.cs c.cs, c.eflags.toUInt16, highHalf c.eflags, c.esp, word pad.ss c.ss,
    above.toUInt16, highHalf above⟩

theorem frame_words (c : Context) (pad : Padding) (original_esp intno err : UInt32) :
    (frame c pad original_esp intno err).words
      = [c.edi, c.esi, c.ebp, original_esp, c.ebx, c.edx, c.ecx, c.eax, word pad.es c.es,
          word pad.ds c.ds, intno, err, c.eip, word pad.cs c.cs, c.eflags, c.esp,
          word pad.ss c.ss] :=
  rfl

theorem shiftedFrame_words (c : Context) (pad : Padding) (original_esp intno above : UInt32) :
    (shiftedFrame c pad original_esp intno above).words
      = [c.edi, c.esi, c.ebp, original_esp, c.ebx, c.edx, c.ecx, c.eax, word pad.es c.es,
          word pad.ds c.ds, intno, c.eip, word pad.cs c.cs, c.eflags, c.esp, word pad.ss c.ss,
          above] := by
  rw [shiftedFrame, Registers.words, word_highHalf, word_highHalf]

/-- With two words from the handler, or one from the handler and one from the processor, everything
is in its place. -/
theorem callInterrupt_frame {intno err : UInt32} (c : Context) (pad : Padding) (ret : UInt32)
    (m : Mem) (h : i.err.toList ++ (interruptDescriptors i.vector).pushes = [err, intno]) :
    ∃ original_esp, readRegisters (callInterrupt i c pad ret m).2 (callInterrupt i c pad ret m).1
      = frame c pad original_esp intno err := by
  have hws : i.pushes c pad ++ (interruptDescriptors i.vector).pushes
      = [word pad.ss c.ss, c.esp, c.eflags, word pad.cs c.cs, c.eip, err, intno] := by
    rw [Interrupt.pushes, List.append_assoc, h]
    rfl
  obtain ⟨original_esp, hwords⟩ := callInterrupt_words i c pad ret m hws (n := 0) rfl
  refine ⟨original_esp, Registers.words_injective ?_⟩
  rw [← words_readRegisters, hwords, frame_words]
  rfl

/-- With one word in all, the fields from the number on are shifted. -/
theorem callInterrupt_shifted {intno : UInt32} (c : Context) (pad : Padding) (ret : UInt32)
    (m : Mem) (h : i.err.toList ++ (interruptDescriptors i.vector).pushes = [intno]) :
    ∃ original_esp, readRegisters (callInterrupt i c pad ret m).2 (callInterrupt i c pad ret m).1
      = shiftedFrame c pad original_esp intno (readU32 m kernelStackTop) := by
  have hws : i.pushes c pad ++ (interruptDescriptors i.vector).pushes
      = [word pad.ss c.ss, c.esp, c.eflags, word pad.cs c.cs, c.eip, intno] := by
    rw [Interrupt.pushes, List.append_assoc, h]
    rfl
  obtain ⟨original_esp, hwords⟩ := callInterrupt_words i c pad ret m hws (n := 1) rfl
  refine ⟨original_esp, Registers.words_injective ?_⟩
  rw [← words_readRegisters, hwords, shiftedFrame_words]
  rfl

end Frame

/-! ## There and back -/

/-- `interrupt` finds the registers of the process where it looks for them, and with a copy of what
it finds, as in `p_registers`, `run` takes the process up again. -/
structure RoundTrip (i : Interrupt) (c : Context) (pad : Padding) (ret : UInt32) (m : Mem) :
    Prop where
  context : (readRegisters (callInterrupt i c pad ret m).2 (callInterrupt i c pad ret m).1).context
    = c
  intno : (readRegisters (callInterrupt i c pad ret m).2
    (callInterrupt i c pad ret m).1).regIntno = (interruptDescriptors i.vector).trapNumber
  err : ∀ err, i.err = some err → (readRegisters (callInterrupt i c pad ret m).2
    (callInterrupt i c pad ret m).1).regErr = err
  resumed : ∀ m' reg, readBytes m' reg sizeofRegisters
      = readBytes (callInterrupt i c pad ret m).2 (callInterrupt i c pad ret m).1 sizeofRegisters →
    resume m' reg = c

/-- By chance, the word above each one is the same. -/
structure Coincide (c : Context) (pad : Padding) (m : Mem) : Prop where
  eip : c.eip = word pad.cs c.cs
  cs : c.cs = c.eflags.toUInt16
  eflags : c.eflags = c.esp
  esp : c.esp = word pad.ss c.ss
  ss : c.ss = (readU32 m kernelStackTop).toUInt16

theorem shiftedFrame_context_iff {c : Context} {pad : Padding} {original_esp intno : UInt32}
    {m : Mem} : (shiftedFrame c pad original_esp intno (readU32 m kernelStackTop)).context = c ↔
      Coincide c pad m := by
  constructor
  · intro h
    exact {
      eip := (congrArg Context.eip h).symm
      cs := (congrArg Context.cs h).symm
      eflags := (congrArg Context.eflags h).symm
      esp := (congrArg Context.esp h).symm
      ss := (congrArg Context.ss h).symm }
  · intro h
    rw [shiftedFrame, Registers.context]
    cases c
    simp only [Context.mk.injEq, true_and]
    exact ⟨h.eip.symm, h.cs.symm, h.eflags.symm, h.esp.symm, h.ss.symm⟩

/-- What `run` makes of a copy. -/
theorem resume_of_copy {m m' : Mem} {reg reg' : UInt32} (c : UserContext)
    (hcopy : readBytes m' reg' sizeofRegisters = readBytes m reg sizeofRegisters)
    (hc : (readRegisters m reg).context = c.toContext) : resume m' reg' = c.toContext := by
  have hsame : readRegisters m' reg' = readRegisters m reg := by
    refine Registers.words_injective ?_
    rw [← words_readRegisters, ← words_readRegisters]
    exact words_of_readBytes hcopy
  have hcs : (readRegisters m reg).regCs = c.cs := congrArg Context.cs hc
  have huser : (readRegisters m' reg').regCs &&& 3 ≠ 0 := by
    rw [hsame, hcs, c.user]
    decide
  rw [resume_eq huser, hsame, hc]

section Cases

variable {i : Interrupt} {c : UserContext} {pad : Padding} {ret : UInt32} {m : Mem}

/-- Only exceptions come with an error code, and they have the default gate. -/
theorem Interrupt.err_eq_none (h : interruptDescriptors i.vector ≠ .default) : i.err = none := by
  cases herr : i.err with
  | none => rfl
  | some err =>
    exact absurd (interruptDescriptors_exception (i.exception (by rw [herr]; rfl))) h

theorem roundTrip_of_registers {r : Registers}
    (hr : readRegisters (callInterrupt i c.toContext pad ret m).2
      (callInterrupt i c.toContext pad ret m).1 = r)
    (hcontext : r.context = c.toContext)
    (hintno : r.regIntno = (interruptDescriptors i.vector).trapNumber)
    (herr : ∀ err, i.err = some err → r.regErr = err) : RoundTrip i c.toContext pad ret m := by
  subst hr
  exact ⟨hcontext, hintno, herr, fun m' reg hcopy => resume_of_copy c hcopy hcontext⟩

/-- The handlers with a gate of their own push a word for the error code. -/
theorem roundTrip_of_gate (h : interruptDescriptors i.vector ≠ .default) :
    RoundTrip i c.toContext pad ret m := by
  have herr := Interrupt.err_eq_none h
  have hpushes : i.err.toList ++ (interruptDescriptors i.vector).pushes
      = [0, (interruptDescriptors i.vector).trapNumber] := by
    rw [herr]
    cases hgate : interruptDescriptors i.vector with
    | clock => rfl
    | sys n => rfl
    | default => exact absurd hgate h
  obtain ⟨original_esp, hr⟩ := callInterrupt_frame c.toContext pad ret m hpushes
  refine roundTrip_of_registers hr rfl rfl fun err h => ?_
  rw [herr] at h
  cases h

/-- Otherwise it has to come from the processor. -/
theorem roundTrip_of_err {err : UInt32} (hgate : interruptDescriptors i.vector = .default)
    (herr : i.err = some err) : RoundTrip i c.toContext pad ret m := by
  have hpushes : i.err.toList ++ (interruptDescriptors i.vector).pushes = [err, 0] := by
    rw [herr, hgate]
    rfl
  obtain ⟨original_esp, hr⟩ := callInterrupt_frame c.toContext pad ret m hpushes
  refine roundTrip_of_registers hr rfl (by rw [hgate]; rfl) fun err' h => ?_
  rw [herr] at h
  exact Option.some.inj h

/-- Where nobody has pushed it, the registers are shifted. -/
theorem roundTrip_default_iff (hgate : interruptDescriptors i.vector = .default)
    (herr : i.err = none) : RoundTrip i c.toContext pad ret m ↔ Coincide c.toContext pad m := by
  have hpushes : i.err.toList ++ (interruptDescriptors i.vector).pushes = [0] := by
    rw [herr, hgate]
    rfl
  obtain ⟨original_esp, hr⟩ := callInterrupt_shifted c.toContext pad ret m hpushes
  constructor
  · intro h
    have hcontext := h.context
    rw [hr] at hcontext
    exact shiftedFrame_context_iff.mp hcontext
  · intro h
    refine roundTrip_of_registers hr (shiftedFrame_context_iff.mpr h) (by rw [hgate]; rfl)
      fun err h => ?_
    rw [herr] at h
    cases h

end Cases

/-- A process goes on in the context in which it was interrupted, whatever the scheduler has done
meanwhile, if the trap frame was right then. -/
theorem system_resume_context {ramimages : Fin 4 → Ramimage} {alg : Int32} {k₀ : Machine}
    {traps : Nat → Trap} {m n : Nat} {p : Pid} {k : Machine} {cpu : Registers} (hmn : m < n)
    (hm : (system ramimages alg k₀ traps m).proc? = some p)
    (hn : system ramimages alg k₀ traps n = .user p k cpu)
    (hbetween : ∀ j, m < j → j < n → (system ramimages alg k₀ traps j).proc? ≠ some p)
    {i : Interrupt} {c : Context} {pad : Padding} {ret : UInt32} {ram : Mem}
    (hreg : (traps m).reg
      = readRegisters (callInterrupt i c pad ret ram).2 (callInterrupt i c pad ret ram).1)
    (h : RoundTrip i c pad ret ram) : cpu.context = c := by
  rw [system_resume hmn hm hn hbetween, hreg]
  exact h.context

/-- **When the trap frame is right**: if the gate is not the default one, or if the processor has
supplied an error code. Otherwise it would have to be by chance. -/
theorem trap_frame_iff (i : Interrupt) (c : UserContext) (pad : Padding) (ret : UInt32) (m : Mem) :
    RoundTrip i c.toContext pad ret m ↔
      interruptDescriptors i.vector ≠ .default ∨ i.err.isSome ∨ Coincide c.toContext pad m := by
  by_cases hgate : interruptDescriptors i.vector = .default
  · cases herr : i.err with
    | some err => simp [roundTrip_of_err hgate herr]
    | none => simp [roundTrip_default_iff hgate herr, hgate]
  · simp [roundTrip_of_gate hgate, hgate]

/-- A division by 0 … -/
def divideError : Interrupt := ⟨0, none, nofun⟩

/-- … in a process as `start` sets it up. -/
def dividing : UserContext where
  edi := 0
  esi := 0
  ebp := 0
  ebx := 0
  edx := 0
  ecx := 0
  eax := 1
  es := 0x23
  ds := 0x23
  eip := 0x200000
  cs := 0x1B
  eflags := 0x202
  esp := 0x300000
  ss := 0x23
  user := by decide

/-- The frame is a word short, so that `reg_eip` holds what belongs to `reg_cs`. -/
theorem trap_frame_divide :
    ¬ RoundTrip divideError dividing.toContext ⟨0, 0, 0, 0⟩ 0 fun _ => 0 := by
  have hgate : interruptDescriptors divideError.vector = .default :=
    interruptDescriptors_exception (by decide)
  rw [roundTrip_default_iff hgate rfl]
  intro hchance
  exact absurd hchance.eip (by decide)

end SchedOS
