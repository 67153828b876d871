/-
# EightBit.Proofs.Atomicity -- a fault changes nothing

Instructions work in place, and a fault undoes nothing.  Still a step that faults leaves the machine
as it was, because every instruction checks what it needs before it changes anything.

`machine_of_step_error` says so for one step.  A refused instruction leaves the sink alone as well;
only a print can fault later, and then the sink holds a part of the line (`held_of_step_output`).
What is refused once is refused ever after, on every sink: no number of calls changes the machine
(`eq_of_called`), and a run ends at once in the same fault (`run_of_refused`).
-/
import EightBit.Proofs.Step

namespace EightBit

open Procedure Manual

set_option autoImplicit false

/-! ## Refusals are no output faults -/

/-- The fault tells of a value that could not be printed. -/
def Fault.IsOutput (fault : Fault) : Prop :=
  ∃ cause, fault = .output cause

namespace Manual

theorem not_isOutput_of_registerRefusal {byte : UInt8} {fault : Fault}
    (h : registerRefusal byte = some fault) : ¬ fault.IsOutput := by
  obtain ⟨-, rfl⟩ := require_eq_some.1 h
  rintro ⟨_, ⟨⟩⟩

theorem not_isOutput_of_refusal {m : Machine} {op : Operation} {a b : UInt8} {fault : Fault}
    (h : refusal m op a b = some fault) : ¬ fault.IsOutput := by
  rintro ⟨cause, rfl⟩
  have named (byte : UInt8) : registerRefusal byte ≠ some (.output cause) := fun h =>
    not_isOutput_of_registerRefusal h ⟨cause, rfl⟩
  cases op with
  | alu op => simp [refusal_alu, Option.or_eq_some_iff, named] at h
  | transfer op =>
    cases op <;>
      simp [refusal, pushRefusal, popRefusal, Option.or_eq_some_iff, named] at h
  | data op =>
    cases op <;>
      simp [refusal, pushRefusal, popRefusal, Option.or_eq_some_iff, named] at h

end Manual

namespace Machine

variable {σ : Type}

theorem not_isOutput_of_read {memory : Memory} {address : Nat} {fault : Fault}
    (h : memory.read address = .error fault) : ¬ fault.IsOutput := by
  unfold Memory.read at h
  split at h
  · cases h
  · cases h
    rintro ⟨_, ⟨⟩⟩

theorem not_isOutput_of_operand {m : Machine} {byte : UInt8} {slot : Nat} {fault : Fault}
    (h : m.operand byte slot = .error fault) : ¬ fault.IsOutput := by
  unfold operand at h
  split at h
  · exact not_isOutput_of_read h
  · cases h

theorem not_isOutput_of_fetch {m : Machine} {fault : Fault} (h : m.fetch = .error fault) :
    ¬ fault.IsOutput := by
  rcases bind_eq_error.1 h with unread | ⟨byte, -, h⟩
  · exact not_isOutput_of_read unread
  · rcases bind_eq_error.1 h with undecoded | ⟨op, -, h⟩
    · unfold Operation.decode at undecoded
      split at undecoded
      · cases undecoded
      · cases undecoded
        rintro ⟨_, ⟨⟩⟩
    · rcases bind_eq_error.1 h with first | ⟨a, -, h⟩
      · exact not_isOutput_of_operand first
      · rcases bind_eq_error.1 h with second | ⟨b, -, h⟩
        · exact not_isOutput_of_operand second
        · cases h

theorem not_isOutput_of_advance {m : Machine} {fault : Fault} (h : advance m = .error fault) :
    ¬ fault.IsOutput := by
  rcases advance_eq_error h with unfetched | ⟨op, a, b, -, refused⟩
  · exact not_isOutput_of_fetch unfetched
  · exact not_isOutput_of_refusal refused

/-! ## One step -/

theorem printOn_eq_error [Writer σ] {sink after : σ} {cause : SinkError} {value : Option UInt8}
    (h : printOn sink value = (.error cause, after)) :
    ∃ v part, value = some v ∧ part <+: Writer.line v ∧ part ≠ Writer.line v ∧
      Writer.held after = Writer.held sink ++ part := by
  cases value with
  | none => simp [printOn] at h
  | some v =>
    obtain ⟨part, isPart, held, ok_iff⟩ := Writer.held_print sink v
    simp only [printOn] at h
    rw [h] at held ok_iff
    exact ⟨v, part, rfl, isPart, fun all => by simpa using ok_iff.2 all, held⟩

/-- A step that faults leaves the machine alone. -/
theorem machine_of_step_error [Writer σ] {m : Machine} {sink : σ} {fault : Fault}
    (h : (m.step sink).result = .error fault) : (m.step sink).machine = m := by
  rcases step_cases m sink with ⟨-, stepped⟩ | ⟨-, f, -, stepped⟩ | ⟨-, e, after, -, -, stepped⟩ |
      ⟨-, e, cause, after, -, -, stepped⟩
  · simp [stepped] at h
  · rw [stepped]
  · simp [stepped] at h
  · rw [stepped]

/-- A step that faults other than in a print is a refusal, whatever it would print to. -/
theorem refused_of_step_error [Writer σ] {m : Machine} {sink : σ} {fault : Fault}
    (h : (m.step sink).result = .error fault) (early : ¬ fault.IsOutput) :
    m.status = .running ∧ advance m = .error fault := by
  rcases step_cases m sink with ⟨-, stepped⟩ | ⟨running, f, refused, stepped⟩ |
      ⟨-, e, after, -, -, stepped⟩ | ⟨-, e, cause, after, -, -, stepped⟩
  · simp [stepped] at h
  · obtain rfl : f = fault := by simpa [stepped] using h
    exact ⟨running, refused⟩
  · simp [stepped] at h
  · obtain rfl : Fault.output cause = fault := by simpa [stepped] using h
    exact absurd ⟨cause, rfl⟩ early

/-- A step that faults in a print was at a print of a register, and the sink has a part of the line
printed for it, but not all of it. -/
theorem held_of_step_output [Writer σ] {m : Machine} {sink : σ} {cause : SinkError}
    (h : (m.step sink).result = .error (.output cause)) :
    ∃ i v part, m.fetch = .ok i ∧ i.op = .data .prn ∧ m.registers.read i.a = .ok v ∧
      part <+: Writer.line v ∧ part ≠ Writer.line v ∧
      Writer.held (m.step sink).sink = Writer.held sink ++ part := by
  rcases step_cases m sink with ⟨-, stepped⟩ | ⟨-, f, refused, stepped⟩ |
      ⟨-, e, after, -, -, stepped⟩ | ⟨-, e, c, after, advanced, failed, stepped⟩
  · simp [stepped] at h
  · obtain rfl : f = .output cause := by simpa [stepped] using h
    exact absurd ⟨cause, rfl⟩ (not_isOutput_of_advance refused)
  · simp [stepped] at h
  · obtain ⟨op, a, b, fetched, allowed, rfl⟩ := advance_eq_ok advanced
    obtain ⟨v, part, is_printed, isPart, short, held⟩ := printOn_eq_error failed
    obtain ⟨rfl, rfl⟩ : op = .data .prn ∧ value m.registers a = v := by
      simpa [printed] using is_printed
    have named : registerRefusal a = none := allowed
    exact ⟨_, _, part, fetched, rfl, read_of_registerRefusal named _, isPart, short,
      by rw [stepped]; exact held⟩

/-! ## Further calls -/

/-- The machines there can be after steps and runs of a machine, each on a sink of its own. -/
inductive Called (m : Machine) : Machine → Prop
  | start : Called m m
  | step {τ : Type} [Writer τ] {m' : Machine} (sink : τ) :
      Called m m' → Called m (m'.step sink).machine
  | run {τ : Type} [Writer τ] {m' : Machine} (bound : Nat) (sink : τ) :
      Called m m' → Called m (m'.run bound sink).machine

theorem run_of_refused [Writer σ] {m : Machine} {fault : Fault} (running : m.status = .running)
    (h : advance m = .error fault) (bound : Nat) (sink : σ) :
    m.run (bound + 1) sink = ⟨some (.error fault), m, sink⟩ := by
  simp [run, step_of_advance_error running h sink]

/-- No number of calls changes a machine whose next instruction is refused. -/
theorem eq_of_called {m m' : Machine} {fault : Fault} (running : m.status = .running)
    (h : advance m = .error fault) (called : Called m m') : m' = m := by
  induction called with
  | start => rfl
  | step sink _ same =>
    subst same
    rw [step_of_advance_error running h]
  | run bound sink _ same =>
    subst same
    cases bound with
    | zero => rfl
    | succ bound => rw [run_of_refused running h]

/-- **A fault changes nothing.**  The machine is the same after it.  Unless the fault is one of
output, so is the sink, and any number of further steps and runs on any sinks ends in the same fault
and changes nothing; if it is one, the sink has received a part of the line, but not all of it. -/
theorem step_fault_atomic [Writer σ] {m : Machine} {sink : σ} {fault : Fault}
    (h : (m.step sink).result = .error fault) :
    (m.step sink).machine = m ∧
    (¬ fault.IsOutput →
      (m.step sink).sink = sink ∧
      ∀ m', Called m m' → m' = m ∧
        ∀ (τ : Type) [Writer τ] (other : τ),
          m'.step other = ⟨.error fault, m, other⟩ ∧
          ∀ bound, m'.run (bound + 1) other = ⟨some (.error fault), m, other⟩) ∧
    (fault.IsOutput →
      ∃ i v part, m.fetch = .ok i ∧ i.op = .data .prn ∧ m.registers.read i.a = .ok v ∧
        part <+: Writer.line v ∧ part ≠ Writer.line v ∧
        Writer.held (m.step sink).sink = Writer.held sink ++ part) := by
  refine ⟨machine_of_step_error h, ?_, ?_⟩
  · intro early
    obtain ⟨running, refused⟩ := refused_of_step_error h early
    constructor
    · rw [step_of_advance_error running refused]
    · intro m' called
      have same : m' = m := eq_of_called running refused called
      subst same
      refine ⟨rfl, ?_⟩
      intro τ _ other
      constructor
      · exact step_of_advance_error running refused other
      · intro bound
        exact run_of_refused running refused bound other
  · rintro ⟨cause, rfl⟩
    exact held_of_step_output h

/-- A pop into a register that does not exist, and a print to a sink with room for one byte. -/
theorem pop_and_print_atomic :
    let pop : Machine := { memory := ⟨(Memory.zero.cells.set 0 0x46).set 1 9⟩ }
    let prn : Machine := { memory := ⟨Memory.zero.cells.set 0 0x47⟩ }
    let small : Sink := { limit := some 1 }
    ((pop.step small).result = .error (.invalidRegister 9) ∧ (pop.step small).machine = pop ∧
      ∀ m', Called pop m' → m' = pop) ∧
    ((prn.step small).result = .error (.output .full) ∧ (prn.step small).machine = prn ∧
      ∃ v part, part <+: Writer.line v ∧ part ≠ Writer.line v ∧
        (prn.step small).sink.bytes = part) := by
  intro pop prn small
  have refused : (pop.step small).result = .error (.invalidRegister 9) := by
    simp only [pop, small]
    rfl
  have failed : (prn.step small).result = .error (.output .full) := by
    simp only [prn, small]
    rfl
  obtain ⟨same, further, -⟩ := step_fault_atomic refused
  obtain ⟨same_prn, -, printing⟩ := step_fault_atomic failed
  have early : ¬ (Fault.invalidRegister 9).IsOutput := by
    rintro ⟨_, ⟨⟩⟩
  obtain ⟨i, v, part, -, -, -, isPart, short, held⟩ := printing ⟨.full, rfl⟩
  exact ⟨⟨refused, same, fun m' called => ((further early).2 m' called).1⟩,
    failed, same_prn, v, part, isPart, short, held⟩

end Machine

end EightBit
