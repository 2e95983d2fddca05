import SchedOS.Properties.Digits
import SchedOS.Properties.Display
import SchedOS.Properties.Lifecycle

/-!
# An algorithm that there is none for

`start` does not check `scheduling_algorithm`, so process 1 runs whatever its value is. The first
call of `schedule` complains and does not come back.

* `unknown_algorithm_stops` — what the console shows then, for all the other values, and for ever
-/

namespace SchedOS

open Infra

/-! ## The message -/

/-- The line that is printed. -/
def complaint (scheduling_algorithm : Int32) : List UInt8 :=
  literal "Unknown scheduling algorithm " ++ (if scheduling_algorithm < 0 then [0x2D] else [])
    ++ numeral 10 upperDigits scheduling_algorithm.toInt.natAbs

section Output

variable (args : Nat → UInt32) (strs : UInt32 → List UInt8) (color : Int32)

theorem output_chars_append (xs : List Piece) : ∀ cs : List UInt8,
    output strs (cs.map .char ++ xs) args color = cs.map (·, color) ++ output strs xs args color
  | [] => rfl
  | c :: cs => by
    have hargs : (fun i => args ((Piece.char c).demands.length + i)) = args :=
      funext fun i => congrArg args (Nat.zero_add i)
    rw [List.map_cons, List.cons_append, output, hargs, Piece.color, output_chars_append xs cs]
    rfl

/-- `%d` -/
theorem percent_d_text : (Piece.directive ⟨[], .absent, none, some 0x64⟩).text args strs
    = (if (args 0).toInt32 < 0 then [0x2D] else [])
      ++ numeral 10 upperDigits (args 0).toInt32.toInt.natAbs := by
  by_cases hneg : (args 0).toInt32 < 0 <;>
    simp [Piece.text, Directive.conversionValue, conversionOf, numericConversion,
      Directive.precisionValue, Directive.sizes, Size.count, Size.value, fieldOf, signOf,
      Field.text, Flags.of, hneg]

theorem percent_d_color : (Piece.directive ⟨[], .absent, none, some 0x64⟩).color args strs color
    = color := rfl

end Output

theorem pieces_message : pieces (literal "\nUnknown scheduling algorithm %d\n")
    = (0x0A :: literal "Unknown scheduling algorithm ").map .char
      ++ [.directive ⟨[], .absent, none, some 0x64⟩, .char 0x0A] := by
  decide +kernel

/-- Between two newlines. -/
theorem output_message (alg : Int32) : output (fun _ => [])
    (pieces (literal "\nUnknown scheduling algorithm %d\n")) (fun _ => alg.toUInt32) 0x100
      = (0x0A :: (complaint alg ++ [0x0A])).map (·, 0x100) := by
  rw [pieces_message, output_chars_append, output, output, percent_d_text, percent_d_color,
    Int32.toInt32_toUInt32, complaint]
  simp [output, Piece.text]

example : complaint (-12) = literal "Unknown scheduling algorithm -12" := by decide +kernel

theorem upperDigits_ne_newline : ∀ d, d < 10 → upperDigits.getD d 0 ≠ 0x0A := by decide

theorem newline_notMem_complaint (alg : Int32) : 0x0A ∉ complaint alg := by
  have htext : 0x0A ∉ literal "Unknown scheduling algorithm " := by decide +kernel
  intro hmem
  rcases List.mem_append.mp hmem with hmem | hmem
  · rcases List.mem_append.mp hmem with hmem | hmem
    · exact htext hmem
    · split at hmem <;> simp at hmem
  · rw [numeral_eq_map, List.mem_map] at hmem
    obtain ⟨d, hd, hnewline⟩ := hmem
    exact upperDigits_ne_newline d (numeralDigits_lt (by decide) (List.mem_reverse.mp hd)) hnewline

theorem length_complaint_lt (alg : Int32) : (complaint alg).length < 80 := by
  have htext : (literal "Unknown scheduling algorithm ").length = 29 := by decide +kernel
  have hsign : (if alg < 0 then [0x2D] else [] : List UInt8).length ≤ 1 := by split <;> decide
  have hsmall : alg.toInt.natAbs < 10 ^ 19 := by
    have hle := Int32.le_toInt alg
    have hlt := Int32.toInt_lt alg
    omega
  have hnumeral : (numeral 10 upperDigits alg.toInt.natAbs).length ≤ 19 :=
    length_numeral_le (by decide) hsmall
  rw [complaint, List.length_append, List.length_append]
  omega

/-! ## The console -/

/-- The line is filled up with blanks. -/
def endLine (cells : List UInt16) : List UInt16 := cells ++ blanks cells 0x100

/-- What the message makes of a console with `cells` on it. -/
def complain (scheduling_algorithm : Int32) (cells : List UInt16) : List UInt16 :=
  endLine (endLine cells
    ++ (complaint scheduling_algorithm).map fun c => (c.toUInt32 ||| 0x100).toUInt16)

theorem length_endLine (cells : List UInt16) :
    (endLine cells).length = 80 * (cells.length / 80 + 1) := by
  simp only [endLine, blanks, List.length_append, List.length_replicate]
  omega

variable {ram₀ : Mem} {cells : List UInt16} {k : Machine} {t : Trap}

theorem printAll_line (text : List UInt8) (color : Int32) (s : Screen) :
    printAll ((0x0A :: (text ++ [0x0A])).map (·, color)) s
      = consolePutc (printText color text (consolePutc s 0x0A color)) 0x0A color := by
  simp [printAll, printText]

theorem unknownAlgorithm_ram : (unknownAlgorithm k).ram
    = let s := consolePutc (printText 0x100 (complaint k.schedulingAlgorithm)
        (consolePutc (screenOf k.ram) 0x0A 0x100)) 0x0A 0x100
      writeU32 s.ram cursorposAddr s.cursor := by
  have h0 : 0 ∉ literal "\nUnknown scheduling algorithm %d\n" := by decide +kernel
  unfold unknownAlgorithm consolePrintf
  rw [vprintf_eq _ _ h0, output_message, printAll_line]
  rfl

/-- There must be room for a line below the cursor. -/
theorem displays_unknownAlgorithm (h : Displays ram₀ cells (screenOf k.ram))
    (hroom : cells.length < 24 * 80) :
    Displays ram₀ (complain k.schedulingAlgorithm cells)
      (screenOf (unknownAlgorithm k).ram) := by
  have htext := length_complaint_lt k.schedulingAlgorithm
  have hline := length_endLine cells
  have hfirst : Displays ram₀ (endLine cells) _ := h.newline (by omega) 0x100
  have hsecond := hfirst.printText 0x100 _ (newline_notMem_complaint k.schedulingAlgorithm)
    (by omega)
  have hthird := hsecond.newline (by simp; omega) 0x100
  have hlength : (complain k.schedulingAlgorithm cells).length ≤ 2000 := by
    rw [complain, length_endLine, List.length_append, List.length_map]
    omega
  rw [unknownAlgorithm_ram]
  exact hthird.store hlength

/-! ## The first call of `schedule` -/

theorem schedule_unknown (hunknown : ¬ KnownAlgorithm k.schedulingAlgorithm) (fuel : Nat)
    (tsc : Nat → UInt64) : schedule fuel tsc k = .error (.spinning (unknownAlgorithm k)) := by
  simp only [KnownAlgorithm, not_or] at hunknown
  obtain ⟨h0, h1, h2, h3, h4⟩ := hunknown
  simp only [schedule, h0, h1, h2, h3, h4, if_false]

/-- **The system stops with a message**, whatever value the algorithm has, and whatever process 1
has done before its first interrupt, provided that the cursor is above the last line when the
interrupt has been served. -/
theorem unknown_algorithm_stops (ramimages : Fin 4 → Ramimage) (alg : Int32) (k₀ : Machine)
    (traps : Nat → Trap) {i : Nat} (hunknown : ¬ KnownAlgorithm alg)
    (hboot : (start ramimages alg k₀).proc? ≠ none) (hserved : Served (traps 0).reg.regIntno)
    (hcell : (traps 0).cell = cellAddr i)
    (hroom : ((traps 0).shown ((List.range i).map fun j =>
      readU16 (traps 0).ram (cellAddr j))).length < 24 * 80) :
    ∃ k, (∀ n, 0 < n → system ramimages alg k₀ traps n = .spinning k) ∧
      k.procArray = ((traps 0).call (start ramimages alg k₀).machine).procArray ∧
      Displays (traps 0).ram (complain alg ((traps 0).shown
        ((List.range i).map fun j => readU16 (traps 0).ram (cellAddr j)))) (screenOf k.ram) := by
  obtain ⟨k, hk, hb⟩ := start_booted hboot
  have halg : ((traps 0).call k).schedulingAlgorithm = alg := hb.algorithm
  have hfirst : system ramimages alg k₀ traps 1
      = .spinning (unknownAlgorithm ((traps 0).call k)) := by
    rw [system_succ, system_zero, hk]
    exact trap_of_schedule hserved (schedule_unknown (halg ▸ hunknown) _ _)
  refine ⟨_, fun n hn => system_spinning hn hfirst, ?_, ?_⟩
  · rw [hk]
    unfold unknownAlgorithm
    split <;> rfl
  · have hshown := (Displays.of_cursor hcell).call (k := k) (by omega)
    have hdisplays := displays_unknownAlgorithm hshown hroom
    rw [halg] at hdisplays
    exact hdisplays

/-- Process 1 yields at once. -/
def yieldWith (ram : Mem) : Trap := { yieldTrap with ram := ram }

theorem yieldWith_shown (ram : Mem) : (yieldWith ram).shown cells = cells := by
  have hint : intSysYield ≠ intSysAtomicPrint := by decide
  exact if_neg hint

theorem start_bare_cursorpos (alg : Int32) :
    readU32 (start bareImages alg bareMachine).machine.ram cursorposAddr = cellAddr 0 := by
  obtain ⟨k, hk, hb⟩ := start_booted (bare_proc? alg)
  rw [hk]
  exact hb.cursorpos

/-- Algorithm 7. -/
theorem unknown_algorithm_stops_bare : ∃ k,
    (∀ n, 0 < n → system bareImages 7 bareMachine
      (fun _ => yieldWith (start bareImages 7 bareMachine).machine.ram) n = .spinning k) ∧
      Displays (start bareImages 7 bareMachine).machine.ram (complain 7 []) (screenOf k.ram) := by
  have hunknown : ¬ KnownAlgorithm 7 := by simp [KnownAlgorithm]
  have hstops : ∀ ram, readU32 ram cursorposAddr = cellAddr 0 → ∃ k,
      (∀ n, 0 < n → system bareImages 7 bareMachine (fun _ => yieldWith ram) n = .spinning k) ∧
        Displays ram (complain 7 []) (screenOf k.ram) := by
    intro ram hcell
    obtain ⟨k, hk, -, hdisplays⟩ := unknown_algorithm_stops bareImages 7 bareMachine
      (fun _ => yieldWith ram) hunknown (bare_proc? 7) (Or.inl rfl) hcell
      (by simp [yieldWith_shown])
    rw [yieldWith_shown] at hdisplays
    exact ⟨k, hk, hdisplays⟩
  exact hstops _ (start_bare_cursorpos 7)

end SchedOS
