/-
# EightBit.Proofs.Truncation -- a bounded sink only truncates

A sink with room for `limit` bytes keeps what fits of a line and then refuses.  Offered the same
lines as an unlimited sink, it holds the first `limit` bytes of what that one holds (`Sink.cut`), so
a run on it is the run on the unlimited sink as long as all that is printed fits
(`Session.ticks_cut`).

The first line that does not fit ends the run, whether its digits or its line feed are cut off: the
print faults, and the machine stays as the unlimited run has it before that print
(`Session.ticks_of_overflow`).
-/
import EightBit.Proofs.Limit
import Mathlib.Data.List.TakeDrop

namespace EightBit

open Manual

set_option autoImplicit false

/-! ## Sinks -/

namespace Sink

/-- What a sink with room for `limit` bytes holds when it has been offered the same. -/
def cut (limit : Nat) (s : Sink) : Sink :=
  { s with bytes := s.bytes.take limit, limit := some limit }

/-- The bytes printed for a value, if there is one. -/
def printout (value : Option UInt8) : List UInt8 :=
  value.elim [] Writer.line

/-- Whether all of two offers fits hangs on the first one first. -/
theorem fitting_append (s : Sink) (a b : List UInt8) :
    s.fitting (a ++ b) = if s.fitting a = a then a ++ (s.append a).fitting b else s.fitting a := by
  unfold fitting append
  cases s.limit with
  | none => simp
  | some limit =>
    simp only [List.take_append, List.length_append, List.take_eq_self_iff]
    split
    · next all => rw [List.take_of_length_le all, Nat.sub_sub]
    · next part =>
      have nothing : limit - s.bytes.length - a.length = 0 := by omega
      rw [nothing, List.take_zero, List.append_nil]

/-- A line is written like one offer, though it is two. -/
theorem print_eq (s : Sink) (value : UInt8) :
    Writer.print s value =
      (if s.fitting (Writer.line value) = Writer.line value then .ok () else .error .full,
        s.append (s.fitting (Writer.line value))) := by
  simp only [Writer.print, write_eq, Writer.line, fitting_append]
  by_cases all : s.fitting (Writer.digits value) = Writer.digits value
  · simp only [all, if_true, List.append_cancel_left_eq]
    simp only [append, List.append_assoc]
  · have short : s.fitting (Writer.digits value) ≠ Writer.digits value ++ [Writer.lineFeed] := by
      intro long
      have part := (s.fitting_isPrefix (Writer.digits value)).length_le
      rw [long, List.length_append, List.length_singleton] at part
      omega
    simp only [all, if_false, short]

variable {s : Sink} {limit : Nat}

theorem printOn_of_limit_none (free : s.limit = none) (value : Option UInt8) :
    Machine.printOn s value = (.ok (), s.append (printout value)) := by
  cases value with
  | none => simp [Machine.printOn, printout, append]
  | some v => simp [Machine.printOn, printout, print_eq, fitting_of_limit_none free]

/-- Bytes behind the first `limit` make no difference. -/
theorem cut_append (full : limit ≤ s.bytes.length) (data : List UInt8) :
    (s.append data).cut limit = s.cut limit := by
  simp only [cut, append, List.take_append_of_le_length full]

theorem append_fitting_cut (room : s.bytes.length ≤ limit) (data : List UInt8) :
    (s.cut limit).append ((s.cut limit).fitting data) = (s.append data).cut limit := by
  simp only [append, fitting, cut, List.take_of_length_le room, List.take_append]

theorem fitting_cut_eq_iff (room : s.bytes.length ≤ limit) (data : List UInt8) :
    (s.cut limit).fitting data = data ↔ (s.append data).bytes.length ≤ limit := by
  simp only [append, fitting, cut, List.take_of_length_le room, List.take_eq_self_iff,
    List.length_append]
  omega

theorem printOn_cut (room : s.bytes.length ≤ limit) (value : Option UInt8) :
    Machine.printOn (s.cut limit) value =
      (if (s.append (printout value)).bytes.length ≤ limit then .ok () else .error .full,
        (s.append (printout value)).cut limit) := by
  cases value with
  | none => simp [Machine.printOn, printout, append, room]
  | some v =>
    rw [Machine.printOn, print_eq, append_fitting_cut room]
    simp only [fitting_cut_eq_iff room]
    rfl

end Sink

/-! ## One step -/

namespace Machine

variable {sink : Sink} {limit : Nat}

/-- All a step on an unlimited sink can do: the sink takes whatever is printed. -/
theorem step_cases_of_limit_none (free : sink.limit = none) (m : Machine) :
    (m.status = .halted ∧ m.step sink = ⟨.ok .halted, m, sink⟩) ∨
    (m.status = .running ∧ ∃ fault, advance m = .error fault ∧
      m.step sink = ⟨.error fault, m, sink⟩) ∨
    (m.status = .running ∧ ∃ e, advance m = .ok e ∧
      m.step sink = ⟨.ok e.machine.status, e.machine, sink.append (Sink.printout e.printed)⟩) := by
  rcases step_cases m sink with halted | refused | ⟨running, e, after, advanced, taken, stepped⟩ |
      ⟨-, e, cause, after, -, failed, -⟩
  · exact .inl halted
  · exact .inr (.inl refused)
  · rw [Sink.printOn_of_limit_none free] at taken
    obtain rfl := (Prod.mk.inj taken).2
    exact .inr (.inr ⟨running, e, advanced, stepped⟩)
  · rw [Sink.printOn_of_limit_none free] at failed
    cases (Prod.mk.inj failed).1

/-- A step on an unlimited sink adds to what it holds. -/
theorem sink_step (free : sink.limit = none) (m : Machine) :
    ∃ data, (m.step sink).sink = sink.append data := by
  have same : sink = sink.append [] := by simp [Sink.append]
  rcases step_cases_of_limit_none free m with ⟨-, stepped⟩ | ⟨-, f, -, stepped⟩ |
      ⟨-, e, -, stepped⟩
  · exact ⟨[], by rw [stepped]; exact same⟩
  · exact ⟨[], by rw [stepped]; exact same⟩
  · exact ⟨Sink.printout e.printed, by rw [stepped]⟩

/-- While what is printed fits, a step goes the same way on both sinks. -/
theorem step_cut (free : sink.limit = none) {m : Machine} (room : sink.bytes.length ≤ limit)
    (fits : (m.step sink).sink.bytes.length ≤ limit) :
    m.step (sink.cut limit) =
      ⟨(m.step sink).result, (m.step sink).machine, (m.step sink).sink.cut limit⟩ := by
  rcases step_cases_of_limit_none free m with ⟨halted, stepped⟩ | ⟨running, f, refused, stepped⟩ |
      ⟨running, e, advanced, stepped⟩
  · rw [stepped, step_of_halted halted]
  · rw [stepped, step_of_advance_error running refused]
  · rw [stepped] at fits ⊢
    rw [step_of_advance_ok running advanced, Sink.printOn_cut room, if_pos fits]

/-- The next instruction prints the value `v`, and the machine goes on. -/
structure Prints (m : Machine) (v : UInt8) : Prop where
  running : m.status = .running
  instruction : ∃ i, m.fetch = .ok i ∧ i.op = .data .prn ∧ m.registers.read i.a = .ok v

/-- A step whose output does not fit is a print, and on the bounded sink it faults. -/
theorem step_cut_of_overflow (free : sink.limit = none) {m : Machine}
    (room : sink.bytes.length ≤ limit) (exceeds : limit < (m.step sink).sink.bytes.length) :
    (∃ v, m.Prints v ∧ (m.step sink).result = .ok .running ∧
      (m.step sink).sink = sink.append (Writer.line v)) ∧
    m.step (sink.cut limit) = ⟨.error (.output .full), m, (m.step sink).sink.cut limit⟩ := by
  rcases step_cases_of_limit_none free m with ⟨-, stepped⟩ | ⟨-, f, -, stepped⟩ |
      ⟨running, e, advanced, stepped⟩
  · rw [stepped] at exceeds
    exact absurd room (Nat.not_le.2 exceeds)
  · rw [stepped] at exceeds
    exact absurd room (Nat.not_le.2 exceeds)
  · rw [stepped] at exceeds ⊢
    rw [step_of_advance_ok running advanced, Sink.printOn_cut room, if_neg (Nat.not_le.2 exceeds)]
    refine ⟨?_, rfl⟩
    obtain ⟨op, a, b, fetched, allowed, rfl⟩ := advance_eq_ok advanced
    by_cases prints : op = .data .prn
    · subst prints
      have named : registerRefusal a = none := allowed
      refine ⟨value m.registers a, ⟨running, _, fetched, rfl, read_of_registerRefusal named _⟩, ?_⟩
      constructor
      · simpa [next, transition] using running
      · simp [printed, Sink.printout]
    · -- nothing is printed, so the sink is as it was
      simp only [printed, prints, if_false, Sink.printout, Sink.append, Option.elim_none,
        List.append_nil] at exceeds
      exact absurd room (Nat.not_le.2 exceeds)

end Machine

/-! ## Runs -/

/-- The run on a sink with room for `limit` bytes. -/
def Run.cut (limit : Nat) (r : Run) : Run :=
  { r with sink := r.sink.cut limit }

namespace Session

open Machine

variable {s : Session} {r : Run} {limit : Nat}

/-- A tick leaves the sink as the step does: neither a dump nor a flush adds to it. -/
theorem sink_tick (s : Session) (r : Run) :
    (s.tick r).1.sink =
      if s.limitReached r.machine then r.sink else (r.machine.step r.sink).sink := by
  by_cases reached : s.limitReached r.machine
  · simp [tick, attempt, reached, dump]
  · rcases stepped : r.machine.step r.sink with ⟨_ | _ | _, m, sink⟩ <;>
      simp [tick, attempt, reached, stepped, dump, halt, Writer.flush, Sink.flush]

theorem exists_append_tick (free : r.sink.limit = none) :
    ∃ data, (s.tick r).1.sink = r.sink.append data := by
  rw [sink_tick]
  split
  · exact ⟨[], by simp [Sink.append]⟩
  · exact sink_step free r.machine

theorem exists_append_ticks (free : r.sink.limit = none) (bound : Nat) :
    ∃ data, (s.ticks bound r).1.sink = r.sink.append data := by
  induction bound generalizing r with
  | zero => exact ⟨[], by simp [ticks, Sink.append]⟩
  | succ bound ih =>
    obtain ⟨first, added⟩ := exists_append_tick (s := s) free
    rcases ticked : s.tick r with ⟨r', _ | verdict⟩
    · have added' : r'.sink = r.sink.append first := by rw [← added, ticked]
      obtain ⟨rest, later⟩ := ih (r := r') (by rw [added']; exact free)
      refine ⟨first ++ rest, ?_⟩
      simp only [ticks, ticked]
      rw [later, added']
      simp only [Sink.append, List.append_assoc]
    · refine ⟨first, ?_⟩
      simp only [ticks, ticked]
      rw [← added, ticked]

/-- What is held does not get less. -/
theorem length_le_of_append {sink sink' : Sink} (h : ∃ data, sink' = sink.append data) :
    sink.bytes.length ≤ sink'.bytes.length := by
  obtain ⟨data, rfl⟩ := h
  simp [Sink.append]

theorem limit_of_append {sink sink' : Sink} (h : ∃ data, sink' = sink.append data) :
    sink'.limit = sink.limit := by
  obtain ⟨data, rfl⟩ := h
  rfl

theorem halt_cut (limit : Nat) (sink : Sink) :
    halt (sink.cut limit) = ((halt sink).1, (halt sink).2.cut limit) := rfl

/-- While what is printed fits, a tick goes the same way on both sinks. -/
theorem tick_cut (free : r.sink.limit = none)
    (fits : (s.tick r).1.sink.bytes.length ≤ limit) :
    s.tick (r.cut limit) = ((s.tick r).1.cut limit, (s.tick r).2) := by
  have room := Nat.le_trans (length_le_of_append (exists_append_tick (s := s) free)) fits
  by_cases reached : s.limitReached r.machine
  · simp [tick, attempt, reached, dump, Run.cut]
  · rw [sink_tick, if_neg reached] at fits
    have stepped_cut := step_cut free room fits
    rcases stepped : r.machine.step r.sink with ⟨_ | _ | _, m, sink⟩ <;>
      (rw [stepped] at stepped_cut
       simp [tick, attempt, reached, stepped, stepped_cut, dump, Run.cut, halt_cut])

/-- A tick whose output does not fit is one that prints and goes on.  On the bounded sink it ends
the run with a fault. -/
theorem tick_cut_of_overflow (free : r.sink.limit = none) (room : r.sink.bytes.length ≤ limit)
    (exceeds : limit < (s.tick r).1.sink.bytes.length) :
    (∃ v, r.machine.Prints v ∧ (s.tick r).2 = none ∧
      (s.tick r).1.sink = r.sink.append (Writer.line v)) ∧
    ∃ shown, s.tick (r.cut limit) = (⟨r.machine, (s.tick r).1.sink.cut limit, shown⟩,
      some (.error (.fault r.machine.pc (.output .full)))) := by
  have going : ¬ s.limitReached r.machine := by
    intro reached
    rw [sink_tick, if_pos reached] at exceeds
    exact absurd room (Nat.not_le.2 exceeds)
  rw [sink_tick, if_neg going] at exceeds ⊢
  obtain ⟨⟨v, prints, running, added⟩, faulted⟩ := step_cut_of_overflow free room exceeds
  constructor
  · have stepped : r.machine.step r.sink =
        ⟨.ok .running, (r.machine.step r.sink).machine, (r.machine.step r.sink).sink⟩ := by
      rw [← running]
    refine ⟨v, prints, ?_, added⟩
    rw [tick, attempt, if_neg going, stepped]
  · simp [tick, attempt, going, Run.cut, faulted, dump]

/-- While what is printed fits, ticks go the same way on both sinks. -/
theorem ticks_cut (free : r.sink.limit = none) {bound : Nat}
    (fits : (s.ticks bound r).1.sink.bytes.length ≤ limit) :
    s.ticks bound (r.cut limit) = ((s.ticks bound r).1.cut limit, (s.ticks bound r).2) := by
  induction bound generalizing r with
  | zero => rfl
  | succ bound ih =>
    have unlimited := limit_of_append (exists_append_tick (s := s) free)
    rcases ticked : s.tick r with ⟨r', _ | verdict⟩
    · rw [ticked] at unlimited
      simp only [ticks, ticked] at fits ⊢
      -- what has been printed by now is less than what will have been
      have now := length_le_of_append (exists_append_ticks (s := s) (unlimited.trans free) bound)
      have fits_now : (s.tick r).1.sink.bytes.length ≤ limit := by
        rw [ticked]
        exact Nat.le_trans now fits
      have first := tick_cut free fits_now
      rw [ticked] at first
      rw [first]
      exact ih (unlimited.trans free) fits
    · simp only [ticks, ticked] at fits ⊢
      have fits_now : (s.tick r).1.sink.bytes.length ≤ limit := by
        rw [ticked]
        exact fits
      have first := tick_cut free fits_now
      rw [ticked] at first
      rw [first]

/-- The run from `start` is at `before` after `k` ticks, and what has been printed up to there fits
in `limit` bytes; but the next instruction prints a line that does not. -/
structure Overflows (s : Session) (limit : Nat) (start : Run) (k : Nat) (before : Run) : Prop where
  reached : s.ticks k start = (before, none)
  fitted : ∀ j ≤ k, (s.ticks j start).1.sink.bytes.length ≤ limit
  prints : ∃ v, before.machine.Prints v ∧ (s.tick before).2 = none ∧
    (s.tick before).1.sink.bytes = before.sink.bytes ++ Writer.line v ∧
    limit < (before.sink.bytes ++ Writer.line v).length

/-- Once too much has been printed, the run on the bounded sink has ended where it got too much. -/
theorem ticks_of_overflow (free : r.sink.limit = none) (room : r.sink.bytes.length ≤ limit)
    {bound : Nat} (exceeds : limit < (s.ticks bound r).1.sink.bytes.length) :
    ∃ k before shown, s.Overflows limit r k before ∧
      s.ticks bound (r.cut limit) =
        (⟨before.machine, (s.ticks bound r).1.sink.cut limit, shown⟩,
          some (.error (.fault before.machine.pc (.output .full)))) := by
  induction bound generalizing r with
  | zero => exact absurd room (Nat.not_le.2 exceeds)
  | succ bound ih =>
    have unlimited := limit_of_append (exists_append_tick (s := s) free)
    by_cases fits : (s.tick r).1.sink.bytes.length ≤ limit
    · have first := tick_cut free fits
      rcases ticked : s.tick r with ⟨r', _ | verdict⟩
      · rw [ticked] at unlimited fits first
        simp only [ticks, ticked] at exceeds ⊢
        obtain ⟨k, before, shown, ⟨reached, fitted, prints⟩, ended⟩ :=
          ih (unlimited.trans free) fits exceeds
        refine ⟨k + 1, before, shown, ⟨?_, ?_, prints⟩, ?_⟩
        · simpa only [ticks, ticked] using reached
        · intro j le
          cases j with
          | zero => exact room
          | succ j =>
            simp only [ticks, ticked]
            exact fitted j (Nat.le_of_succ_le_succ le)
        · rw [first]
          exact ended
      · rw [ticked] at fits
        simp only [ticks, ticked] at exceeds
        exact absurd fits (Nat.not_le.2 exceeds)
    · have beyond := Nat.not_le.1 fits
      obtain ⟨⟨v, prints, going, added⟩, shown, ended⟩ := tick_cut_of_overflow free room beyond
      refine ⟨0, r, shown, ⟨rfl, ?_, v, prints, going, ?_, ?_⟩, ?_⟩
      · intro j le
        obtain rfl := Nat.le_zero.1 le
        exact room
      · rw [added]
        rfl
      · rw [added] at beyond
        exact beyond
      · -- what is printed later lies behind the bytes that are kept
        rcases ticked : s.tick r with ⟨r', _ | verdict⟩
        · rw [ticked] at unlimited beyond
          obtain ⟨rest, later⟩ := exists_append_ticks (s := s) (unlimited.trans free) bound
          simp only [ticks, ticked, ended]
          rw [later, Sink.cut_append (Nat.le_of_lt beyond)]
        · cases (congrArg Prod.snd ticked).symm.trans going

/-- How the run from `tight`, on a sink with room for `limit` bytes, goes by the run from `free`, on
an unlimited one. -/
structure Truncates (s : Session) (patience limit : Nat) (free tight : Run) : Prop where
  same : (s.run patience free).1.sink.bytes.length ≤ limit →
    (s.run patience tight).2 = (s.run patience free).2 ∧
    (s.run patience tight).1.machine = (s.run patience free).1.machine ∧
    (s.run patience tight).1.sink.bytes = (s.run patience free).1.sink.bytes ∧
    (s.run patience tight).1.shown = (s.run patience free).1.shown
  cut_off : limit < (s.run patience free).1.sink.bytes.length →
    ∃ k before, s.Overflows limit free k before ∧
      (s.run patience tight).2 = some (.error (.fault before.machine.pc (.output .full))) ∧
      (s.run patience tight).1.machine = before.machine ∧
      (s.run patience tight).1.sink.bytes = (s.run patience free).1.sink.bytes.take limit

theorem truncates_cut (s : Session) (patience limit : Nat) {free : Run}
    (unlimited : free.sink.limit = none) (room : free.sink.bytes.length ≤ limit) :
    s.Truncates patience limit free (free.cut limit) where
  same all := by
    have kept := List.take_of_length_le all
    rw [run] at all kept
    have follows := ticks_cut unlimited all
    simp only [run, Run.cut] at follows ⊢
    rw [follows]
    exact ⟨rfl, rfl, kept, rfl⟩
  cut_off exceeds := by
    obtain ⟨k, before, shown, overflows, ended⟩ := ticks_of_overflow unlimited room exceeds
    refine ⟨k, before, overflows, ?_⟩
    simp only [run, Run.cut] at ended ⊢
    rw [ended]
    exact ⟨rfl, rfl, rfl⟩

/-- **A bounded sink only truncates.**  Take a program that fits, loaded into a fresh machine, and
run it in the same session on an unlimited sink and on one with room for `limit` bytes.  If what is
printed fits, both runs end in the same way.  Otherwise the run on the bounded sink ends with an
output fault; the sink holds the first `limit` bytes of what is printed on the unlimited one, and
the machine is the one that run has before its first line that does not fit. -/
theorem run_truncated (s : Session) {program : List UInt8} (fits : program.length ≤ Memory.size)
    (limit : Nat) (flushFails : Bool) (shown : Console) (patience : Nat) :
    ∃ m, ofProgram program = .ok m ∧
      s.Truncates patience limit ⟨m, { flushFails }, shown⟩
        ⟨m, { flushFails, limit := some limit }, shown⟩ := by
  obtain ⟨m, loaded, -⟩ := ofProgram_of_le fits
  refine ⟨m, loaded, ?_⟩
  have empty : Run.cut limit ⟨m, { flushFails }, shown⟩ =
      ⟨m, { flushFails, limit := some limit }, shown⟩ := by
    simp [Run.cut, Sink.cut]
  have truncates : s.Truncates patience limit _ (Run.cut limit ⟨m, { flushFails }, shown⟩) :=
    truncates_cut s patience limit rfl (Nat.zero_le _)
  rwa [empty] at truncates

set_option maxRecDepth 8000 in
/-- A register that holds 72 is printed twice.  Four bytes have room for the first line and one
digit of the second, and the run ends at the second print, which is at address 5. -/
theorem print_truncated :
    let program : List UInt8 := [0x82, 0, 72, 0x47, 0, 0x47, 0, 0x01]
    let s : Session := { maxSteps := some 9 }
    ∃ m, ofProgram program = .ok m ∧
      (s.run 0 ⟨m, ({} : Sink), {}⟩).1.sink.bytes = [55, 50, 10, 55, 50, 10] ∧
      ∃ k before, s.Overflows 4 ⟨m, ({} : Sink), {}⟩ k before ∧ before.machine.pc = 5 ∧
        (s.run 0 ⟨m, ({ limit := some 4 } : Sink), {}⟩).1.machine = before.machine ∧
        (s.run 0 ⟨m, ({ limit := some 4 } : Sink), {}⟩).1.sink.bytes = [55, 50, 10, 55] := by
  intro program s
  have fits : program.length ≤ Memory.size := by
    simp only [program]
    decide
  obtain ⟨m, loaded, truncates⟩ := run_truncated s fits 4 false {} 0
  obtain ⟨at_end, stops⟩ :
      (s.run 0 ⟨m, ({} : Sink), {}⟩).1.sink.bytes = [55, 50, 10, 55, 50, 10] ∧
      (s.run 0 ⟨m, ({ limit := some 4 } : Sink), {}⟩).1.machine.pc = 5 := by
    obtain rfl := Except.ok.inj loaded
    simp only [program, s]
    exact ⟨rfl, rfl⟩
  obtain ⟨k, before, overflows, -, machine, bytes⟩ := truncates.cut_off (by rw [at_end]; decide)
  rw [at_end] at bytes
  exact ⟨m, loaded, at_end, k, before, overflows, machine ▸ stops, machine, bytes⟩

end Session

end EightBit
