/-
# EightBit.Proofs.TraceLog -- the trace is a complete log of a run

A traced session prints one line for each machine whose next instruction it attempts, in the order
of the attempts, and after that at most a register dump.

* `shown_ticks` says what has been shown: the lines of the attempted machines (`Session.log`) and
  then what the verdict calls for (`Session.farewell`).
* `attempted_ticks` says which machines those are: the one at the start, the one after one
  instruction, and so on, one for each instruction carried out and one more for a fault.  A fault
  changes nothing, so the last machine in the log of a faulting run is the one the run ends with.
* A trace line is visible text (`visible_trace`), hence one line, and a minimal display leaves it as
  it is (`printAll_minimal`).

`trace_log` puts these together for a program in a fresh machine.
-/
import EightBit.Proofs.Limit
import EightBit.Proofs.Observation
import EightBit.Text.Visible

namespace EightBit

set_option autoImplicit false

/-! ## Trace lines and dumps are plain text -/

theorem Operation.visible_mnemonic (op : Operation) : Visible op.mnemonic := by
  cases op with
  | alu op => cases op <;> decide
  | transfer op => cases op <;> decide
  | data op => cases op <;> decide

namespace Machine

theorem visible_showCell (m : Machine) (address : Nat) : Visible (m.showCell address) := by
  unfold showCell
  split
  · exact Numeral.visible_upperHex 2 _
  · decide

/-- The fields of a trace line. -/
theorem exists_trace_eq (m : Machine) :
    ∃ cells mnemonic, Visible cells ∧ Visible mnemonic ∧
      m.trace = "TRACE: " ++ Numeral.upperHex 2 m.pc ++ " | " ++ cells ++ " |"
        ++ String.join (m.registers.toList.map fun value => " " ++ Numeral.upperHex 2 value.toNat)
        ++ " | " ++ mnemonic := by
  refine ⟨m.showCell m.pc ++ " " ++ m.showCell (m.pc + 1) ++ " " ++ m.showCell (m.pc + 2),
    (m.nextOperation?.map Operation.mnemonic).getD "???", ?_, ?_, ?_⟩
  · have blank : Visible " " := by decide
    have cell := m.visible_showCell
    exact ((((cell m.pc).append blank).append (cell (m.pc + 1))).append blank).append
      (cell (m.pc + 2))
  · cases m.nextOperation? with
    | none =>
      show Visible "???"
      decide
    | some op => exact op.visible_mnemonic
  · unfold trace
    simp only [String.append_assoc]

theorem visible_trace (m : Machine) : Visible m.trace := by
  obtain ⟨cells, mnemonic, cells_visible, mnemonic_visible, fields⟩ := m.exists_trace_eq
  have title : Visible "TRACE: " := by decide
  have bar : Visible " | " := by decide
  have bar_end : Visible " |" := by decide
  have registers : Visible
      (String.join (m.registers.toList.map fun value => " " ++ Numeral.upperHex 2 value.toNat)) := by
    apply Visible.join
    intro text member
    obtain ⟨value, -, rfl⟩ := List.mem_map.1 member
    have blank : Visible " " := by decide
    exact blank.append (Numeral.visible_upperHex 2 value.toNat)
  rw [fields]
  exact ((((((title.append (Numeral.visible_upperHex 2 m.pc)).append bar).append cells_visible).append
    bar_end).append registers).append bar).append mnemonic_visible

end Machine

/-- A visible text on a line of its own holds no instruction to a terminal. -/
theorem Visible.esc_not_mem_line {text : String} (h : Visible text) :
    Escape.esc ∉ (text ++ "\n").toList := by
  have feed : Escape.esc ∉ "\n".toList := by decide
  rw [String.toList_append, List.mem_append, not_or]
  exact ⟨h.not_mem (by decide), feed⟩

theorem RegisterDump.esc_not_mem_plainPieces (m : Machine) :
    ∀ piece ∈ RegisterDump.plainPieces m, Escape.esc ∉ piece.toList := by
  have blank : Visible " " := by decide
  intro piece member
  rcases List.mem_append.1 member with register | rest
  · obtain ⟨⟨value, i⟩, -, rfl⟩ := List.mem_map.1 register
    have name : Visible "R" := by decide
    exact (((name.append (Numeral.visible_decimal i)).append blank).append
      (Numeral.visible_decimal value.toNat)).esc_not_mem_line
  · rcases List.mem_cons.1 rest with rfl | flag
    · have name : Visible "PC " := by decide
      exact (name.append (Numeral.visible_decimal m.pc)).esc_not_mem_line
    · obtain rfl := List.mem_singleton.1 flag
      have name : Visible "FL " := by decide
      exact (name.append (Numeral.visible_binary 3 _)).esc_not_mem_line

namespace Display

/-- A minimal display leaves diagnostics without instructions to the terminal as they are. -/
theorem printAll_minimal {d : Display} (minimal : d.minimal = true) {texts : List String}
    (plain : ∀ text ∈ texts, Escape.esc ∉ text.toList) :
    d.printAll (.diagnostic .always) texts = { stderr := String.join texts } := by
  induction texts with
  | nil => rfl
  | cons text rest ih =>
    rw [printAll_cons, print_minimal_always minimal,
      Escape.strip_of_esc_not_mem (plain text List.mem_cons_self),
      ih fun text member => plain text (List.mem_cons_of_mem _ member), String.join_cons]
    rfl

/-- A minimal display drops diagnostics that are not always wanted. -/
theorem printAll_minimal_sometimes {d : Display} (minimal : d.minimal = true)
    (texts : List String) : d.printAll (.diagnostic .sometimes) texts = {} := by
  induction texts with
  | nil => rfl
  | cons text rest ih =>
    rw [printAll_cons, ih, Console.append_empty]
    simp only [print, minimal]

end Display

namespace Session

open Machine

variable {σ : Type} {s : Session}

/-! ## What is shown -/

/-- The lines for machines whose next instruction is attempted. -/
def log (s : Session) : List Machine → Console
  | [] => {}
  | m :: rest => s.showTrace m ++ s.log rest

/-- What the verdict on a run calls for: a register dump, unless the machine has halted. -/
def farewell (s : Session) (m : Machine) : Option Verdict → Console
  | some (.error (.stepLimit _)) => s.display.registers (.diagnostic .sometimes) m
  | some (.error (.fault _ _)) => s.display.registers (.diagnostic .always) m
  | _ => {}

theorem log_of_trace (traced : s.trace = true) (states : List Machine) :
    s.log states =
      s.display.printAll (.diagnostic .always) (states.map fun m => m.trace ++ "\n") := by
  induction states with
  | nil => rfl
  | cons m rest ih =>
    rw [log, ih, showTrace, if_pos traced, List.map_cons, Display.printAll_cons]
    rfl

theorem log_of_not_trace (silent : s.trace = false) (states : List Machine) :
    s.log states = {} := by
  induction states with
  | nil => rfl
  | cons m rest ih =>
    rw [log, ih, showTrace, silent]
    rfl

/-- A halt ends a run with no error but one of the flush. -/
theorem halt_ne_error [Writer σ] (sink : σ) {e : RunError} (other : ∀ cause, e ≠ .output cause) :
    (halt sink).1 ≠ .error e := by
  unfold halt
  rcases Writer.flush sink with ⟨cause | _, after⟩
  · intro same
    exact other cause (Except.error.inj same).symm
  · intro same
    cases same

/-- After a halt there is nothing to show, whether or not the sink can be flushed. -/
theorem farewell_halt [Writer σ] (m : Machine) (sink : σ) :
    s.farewell m (some (halt sink).1) = {} := by
  unfold halt
  rcases Writer.flush sink with ⟨_ | _, after⟩ <;> rfl

theorem stderr_farewell_minimal (minimal : s.display.minimal = true) (m : Machine)
    (verdict : Option Verdict) :
    (s.farewell m verdict).stderr = match verdict with
      | some (.error (.fault _ _)) => String.join (RegisterDump.plainPieces m)
      | _ => "" := by
  rcases verdict with _ | (_ | ⟨pc, cause⟩ | _) | _
  · rfl
  · show (s.display.printAll _ (RegisterDump.pieces s.display.minimal m)).stderr = ""
    rw [Display.printAll_minimal_sometimes minimal]
  · show (s.display.printAll _ (RegisterDump.pieces s.display.minimal m)).stderr = _
    rw [minimal]
    exact congrArg Console.stderr
      (Display.printAll_minimal minimal (RegisterDump.esc_not_mem_plainPieces m))
  · rfl
  · rfl

variable [Writer σ]

/-- What has been shown is the log of the attempts, and then what the verdict calls for. -/
theorem shown_ticks (s : Session) (bound : Nat) (r : Run σ) :
    (s.ticks bound r).1.shown = r.shown ++ s.log (s.attempts bound r)
      ++ s.farewell (s.ticks bound r).1.machine (s.ticks bound r).2 := by
  induction bound generalizing r with
  | zero => simp [ticks, attempts, log, farewell]
  | succ bound ih =>
    rcases tick_cases s r with ⟨attempted, ticked⟩ | ⟨attempted, ⟨m, sink, -, ticked⟩ |
        ⟨m, sink, -, ticked⟩ | ⟨fault, sink, -, ticked⟩⟩ <;>
      simp only [ticks, attempts, attempted, ticked]
    · simp [log, dump, farewell]
    · rw [ih]
      simp only [log, Console.append_assoc]
    · simp [log, farewell_halt]
    · simp [log, dump, farewell]

/-! ## Which machines are in the log -/

/-- The machines in the log of a run from `start` that has come to `r` with a verdict. -/
structure Attempted (start r : Run σ) (verdict : Option Verdict) (states : List Machine) :
    Prop where
  in_order : states =
    (List.range states.length).map fun k => (start.machine.run k start.sink).machine
  count : (∀ pc cause, verdict ≠ some (.error (.fault pc cause))) →
    start.machine.steps + states.length = r.machine.steps
  faulting : ∀ pc cause, verdict = some (.error (.fault pc cause)) →
    start.machine.steps + states.length = r.machine.steps + 1 ∧
      states.getLast? = some r.machine ∧ pc = r.machine.pc

theorem next_of_step_running {m m' : Machine} {sink sink' : σ}
    (h : m.step sink = ⟨.ok .running, m', sink'⟩) : m'.status = .running := by
  rcases step_cases m sink with ⟨-, stepped⟩ | ⟨-, f, -, stepped⟩ |
      ⟨-, e, after, -, -, stepped⟩ | ⟨-, e, cause, after, -, -, stepped⟩
  · simp [stepped] at h
  · simp [stepped] at h
  · obtain ⟨status, rfl, -⟩ : e.machine.status = .running ∧ e.machine = m' ∧ after = sink' := by
      simpa [stepped] using h
    exact status
  · simp [stepped] at h

/-- A halt counts as an instruction. -/
theorem steps_of_step_halted {m m' : Machine} {sink sink' : σ} (running : m.status = .running)
    (h : m.step sink = ⟨.ok .halted, m', sink'⟩) : m'.steps = m.steps + 1 := by
  have ok : (m.step sink).result = .ok .halted := by
    rw [h]
  obtain ⟨op, a, b, -, -, after, -, stepped⟩ := exists_next_of_step_ok running ok
  rw [h] at stepped
  obtain rfl : m' = Manual.next m op a b := congrArg Outcome.machine stepped
  rfl

theorem Attempted.cons {start r : Run σ} {m : Machine} {sink : σ} {shown : Console}
    {verdict : Option Verdict} {states : List Machine}
    (stepped : start.machine.step start.sink = ⟨.ok .running, m, sink⟩)
    (h : Attempted ⟨m, sink, shown⟩ r verdict states) :
    Attempted start r verdict (start.machine :: states) where
  in_order := by
    rw [List.length_cons, List.range_succ_eq_map, List.map_cons, List.map_map]
    refine congrArg₂ List.cons rfl (h.in_order.trans ?_)
    apply List.map_congr_left
    intro k _
    exact congrArg Outcome.machine (run_succ_of_running stepped k).symm
  count others := by
    have counted := h.count others
    rw [show (⟨m, sink, shown⟩ : Run σ).machine.steps = start.machine.steps + 1 from
      steps_of_step_running stepped] at counted
    rw [List.length_cons, ← counted]
    omega
  faulting pc cause faulted := by
    obtain ⟨counted, last, at_pc⟩ := h.faulting pc cause faulted
    rw [show (⟨m, sink, shown⟩ : Run σ).machine.steps = start.machine.steps + 1 from
      steps_of_step_running stepped] at counted
    refine ⟨?_, ?_, at_pc⟩
    · rw [List.length_cons, ← counted]
      omega
    · rw [List.getLast?_cons, last]
      rfl

/-- The log follows the execution: it has one machine for each instruction carried out, and one more
for a fault, which is the machine the run ends with. -/
theorem attempted_ticks (s : Session) (bound : Nat) {start : Run σ}
    (running : start.machine.status = .running) :
    Attempted start (s.ticks bound start).1 (s.ticks bound start).2 (s.attempts bound start) := by
  induction bound generalizing start with
  | zero => exact ⟨rfl, fun _ => rfl, by simp [ticks]⟩
  | succ bound ih =>
    rcases tick_cases s start with ⟨attempted, ticked⟩ | ⟨attempted, ⟨m, sink, stepped, ticked⟩ |
        ⟨m, sink, stepped, ticked⟩ | ⟨fault, sink, stepped, ticked⟩⟩ <;>
      simp only [ticks, attempts, attempted, ticked]
    · exact ⟨rfl, fun _ => rfl, by simp⟩
    · exact Attempted.cons stepped (ih (next_of_step_running stepped))
    · refine ⟨rfl, fun _ => (steps_of_step_halted running stepped).symm, ?_⟩
      intro pc cause faulted
      exact absurd (Option.some.inj faulted) (halt_ne_error sink fun _ same => by cases same)
    · refine ⟨rfl, fun others => absurd rfl (others _ _), ?_⟩
      intro pc cause faulted
      obtain ⟨rfl, -⟩ : start.machine.pc = pc ∧ fault = cause := by simpa using faulted
      exact ⟨rfl, rfl, rfl⟩

/-! ## The log of a program -/

/-- A traced run from `start` has come to `r` with a verdict, and `states` are the machines in its
log. -/
structure Logged (s : Session) (start r : Run σ) (verdict : Option Verdict)
    (states : List Machine) : Prop where
  /-- The machines are those before the first instruction, before the second, and so on. -/
  in_order : states =
    (List.range states.length).map fun k => (start.machine.run k start.sink).machine
  /-- Each has a line, and only a register dump may follow. -/
  shown : r.shown = start.shown
    ++ s.display.printAll (.diagnostic .always) (states.map fun m => m.trace ++ "\n")
    ++ s.farewell r.machine verdict
  one_line : ∀ m ∈ states, Visible m.trace
  count : (∀ pc cause, verdict ≠ some (.error (.fault pc cause))) →
    states.length = r.machine.steps
  /-- The last line of a faulting run shows the machine that is reported and dumped. -/
  faulting : ∀ pc cause, verdict = some (.error (.fault pc cause)) →
    states.length = r.machine.steps + 1 ∧ states.getLast? = some r.machine ∧
      s.farewell r.machine verdict = s.display.registers (.diagnostic .always) r.machine ∧
      pc = r.machine.pc ∧
      ∃ cells mnemonic, r.machine.trace =
        "TRACE: " ++ Numeral.upperHex 2 pc ++ " | " ++ cells ++ " |"
          ++ String.join (r.machine.registers.toList.map fun value =>
            " " ++ Numeral.upperHex 2 value.toNat)
          ++ " | " ++ mnemonic
  minimal : s.display.minimal = true →
    r.shown.stderr = start.shown.stderr ++ String.join (states.map fun m => m.trace ++ "\n")
      ++ match verdict with
        | some (.error (.fault _ _)) => String.join (RegisterDump.plainPieces r.machine)
        | _ => ""

/-- **The trace is a complete log of the run.**  Take a program that fits, loaded into a fresh
machine, and run it traced, under any limit or none and on any sink.  What is shown is one line for
each attempted instruction, with the machine before it, in order, and then at most a register dump.
There is a line for each instruction carried out, and in a run that faults one more, which shows the
machine that the report and the dump are about. -/
theorem trace_log (traced : s.trace = true) {program : List UInt8}
    (fits : program.length ≤ Memory.size) (sink : σ) (shown : Console) (patience : Nat) :
    ∃ m, ofProgram program = .ok m ∧
      Logged s ⟨m, sink, shown⟩ (s.run patience ⟨m, sink, shown⟩).1
        (s.run patience ⟨m, sink, shown⟩).2
        (s.attempts (s.bound patience m) ⟨m, sink, shown⟩) := by
  obtain ⟨m, loaded, running, fresh⟩ := ofProgram_of_le fits
  refine ⟨m, loaded, ?_⟩
  have attempted : Attempted ⟨m, sink, shown⟩ _ _ _ :=
    attempted_ticks s (s.bound patience m) running
  have all_shown := shown_ticks s (s.bound patience m) ⟨m, sink, shown⟩
  rw [log_of_trace traced] at all_shown
  have counted := attempted.count
  have at_fault := attempted.faulting
  simp only [fresh, Nat.zero_add] at counted at_fault
  refine ⟨attempted.in_order, all_shown, fun m _ => m.visible_trace, counted, ?_, ?_⟩
  · intro pc cause faulted
    obtain ⟨count, last, at_pc⟩ := at_fault pc cause faulted
    obtain ⟨cells, mnemonic, -, -, fields⟩ := (s.run patience ⟨m, sink, shown⟩).1.machine.exists_trace_eq
    refine ⟨count, last, ?_, at_pc, cells, mnemonic, ?_⟩
    · rw [faulted]
      rfl
    · rw [at_pc]
      exact fields
  · intro minimal
    have plain : ∀ text ∈ (s.attempts (s.bound patience m) ⟨m, sink, shown⟩).map
        (fun m => m.trace ++ "\n"), Escape.esc ∉ text.toList := by
      intro text member
      obtain ⟨state, -, rfl⟩ := List.mem_map.1 member
      exact state.visible_trace.esc_not_mem_line
    rw [Display.printAll_minimal minimal plain] at all_shown
    rw [run, all_shown, Console.stderr_append, Console.stderr_append,
      stderr_farewell_minimal minimal]

set_option maxRecDepth 8000 in
/-- A register is loaded and then divided by zero: one instruction is carried out, there are two
lines, and the second shows the machine of the dump that follows. -/
theorem division_logged :
    let program : List UInt8 := [0x82, 0, 5, 0xA4, 0, 1]
    let s : Session := { trace := true, maxSteps := some 9, display := { minimal := true } }
    ∃ m, ofProgram program = .ok m ∧
      (s.run 0 ⟨m, ({} : Sink), {}⟩).2 = some (.error (.fault 3 .divideByZero)) ∧
      (s.attempts (s.bound 0 m) ⟨m, ({} : Sink), {}⟩).length = 2 ∧
      (s.run 0 ⟨m, ({} : Sink), {}⟩).1.shown.stderr =
        "TRACE: 00 | 82 00 05 | 00 00 00 00 00 00 00 F4 | LDI\n" ++
        "TRACE: 03 | A4 00 01 | 05 00 00 00 00 00 00 F4 | MOD\n" ++
        "R0 5\nR1 0\nR2 0\nR3 0\nR4 0\nR5 0\nR6 0\nR7 244\nPC 3\nFL 000\n" := by
  intro program s
  have fits : program.length ≤ Memory.size := by
    simp only [program]
    decide
  obtain ⟨m, loaded, logged⟩ := trace_log (s := s) rfl fits ({} : Sink) {} 0
  obtain ⟨verdict, carried_out⟩ :
      (s.run 0 ⟨m, ({} : Sink), {}⟩).2 = some (.error (.fault 3 .divideByZero)) ∧
      (s.run 0 ⟨m, ({} : Sink), {}⟩).1.machine.steps = 1 := by
    obtain rfl := Except.ok.inj loaded
    simp only [program, s]
    exact ⟨rfl, rfl⟩
  obtain ⟨count, -⟩ := logged.faulting 3 .divideByZero verdict
  refine ⟨m, loaded, verdict, by rw [count, carried_out], ?_⟩
  rw [logged.minimal rfl, verdict]
  obtain rfl := Except.ok.inj loaded
  simp only [program, s]
  decide +kernel

end Session

end EightBit
