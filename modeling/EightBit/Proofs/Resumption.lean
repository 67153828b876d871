/-
# EightBit.Proofs.Resumption -- a run stopped by its limit goes on where it stopped

A limit stops a run between two instructions.  The machine and the sink are then those of the
execution after so many instructions (`exists_run_of_stepLimit`), so a session with a higher limit,
or none, that starts there does what it does after so many instructions from the beginning
(`run_add`): no instruction is lost and none is carried out twice.

What a session attempts, it logs.  `Resumes` says of the two runs, one after the other, that they
end as the uninterrupted run does and that their logs together are its log.
-/
import EightBit.Proofs.TraceLog

namespace EightBit

set_option autoImplicit false

namespace Session

open Machine

variable {σ : Type} [Writer σ] {s t : Session}

/-! ## Where the limit stops a run -/

/-- Ticks that end at the limit have followed the execution up to there. -/
theorem exists_run_of_stepLimit {bound : Nat} {r : Run σ} {steps : Nat}
    (ended : (s.ticks bound r).2 = some (.error (.stepLimit steps))) :
    s.limitReached (s.ticks bound r).1.machine ∧ ∃ k,
      r.machine.run k r.sink = ⟨none, (s.ticks bound r).1.machine, (s.ticks bound r).1.sink⟩ := by
  induction bound generalizing r with
  | zero => simp [ticks] at ended
  | succ bound ih =>
    rcases tick_cases s r with ⟨none_left, ticked⟩ | ⟨-, ⟨m, sink, stepped, ticked⟩ |
        ⟨m, sink, -, ticked⟩ | ⟨fault, sink, -, ticked⟩⟩ <;>
      simp only [ticks, ticked] at ended ⊢
    · have reached : s.limitReached r.machine := by
        by_cases reached : s.limitReached r.machine
        · exact reached
        · simp [attempt, reached] at none_left
      exact ⟨reached, 0, rfl⟩
    · obtain ⟨reached, k, executed⟩ := ih ended
      exact ⟨reached, k + 1, (run_succ_of_running stepped k).trans executed⟩
    · exact absurd (Option.some.inj ended) (halt_ne_error sink fun _ same => by cases same)
    · simp at ended

/-- A run that ends at the limit has carried out as many instructions as were left. -/
theorem executed_of_stepLimit {limit : Nat} (limited : s.maxSteps = some limit) {start : Run σ}
    (below : start.machine.steps ≤ limit) {patience steps : Nat}
    (ended : (s.run patience start).2 = some (.error (.stepLimit steps))) :
    ∃ k, start.machine.steps + k = limit ∧ start.machine.run k start.sink =
      ⟨none, (s.run patience start).1.machine, (s.run patience start).1.sink⟩ := by
  obtain ⟨reached, k, executed⟩ := exists_run_of_stepLimit ended
  have at_least : limit ≤ (s.ticks (s.bound patience start.machine) start).1.machine.steps := by
    simpa [limitReached, limited] using reached
  have at_most := steps_ticks_le limited (s.bound patience start.machine) below
  exact ⟨k, by rw [← steps_of_run executed]; omega, executed⟩

/-! ## Going on from there -/

theorem attempts_agree {r q : Run σ} (h : r.Agree q) (bound : Nat) :
    s.attempts bound r = s.attempts bound q := by
  induction bound generalizing r q with
  | zero => rfl
  | succ bound ih =>
    obtain ⟨agree, verdicts⟩ := tick_agree (s := s) rfl h
    have attempted := attempt_eq (s := s) rfl h
    rcases first : s.tick r with ⟨r', v⟩
    rcases second : s.tick q with ⟨q', w⟩
    rw [first, second] at agree verdicts
    obtain rfl : v = w := verdicts
    simp only [attempts, attempted, first, second, h.machine]
    rcases s.attempt q with _ | outcome
    · rfl
    · cases v with
      | none => exact congrArg (q.machine :: ·) (ih agree)
      | some verdict => rfl

theorem bound_add {m m' : Machine} {sink sink' : σ} {k : Nat}
    (executed : m.run k sink = ⟨none, m', sink'⟩) (room : s.HasRoom m k) (patience : Nat) :
    s.bound (k + patience) m = k + s.bound patience m' := by
  unfold bound
  cases limited : s.maxSteps with
  | none => rfl
  | some limit =>
    have below := room limit limited
    simp only [steps_of_run executed]
    omega

/-- The machines whose next instruction a run attempts. -/
def attempted (s : Session) (patience : Nat) (r : Run σ) : List Machine :=
  s.attempts (s.bound patience r.machine) r

/-- A run whose machine and sink are those of the execution after `k` instructions is the rest of
the run from the start. -/
theorem run_add {k : Nat} {start later : Run σ}
    (executed : start.machine.run k start.sink = ⟨none, later.machine, later.sink⟩)
    (room : s.HasRoom start.machine k) (patience : Nat) :
    (s.run patience later).2 = (s.run (k + patience) start).2 ∧
      (s.run patience later).1.Agree (s.run (k + patience) start).1 ∧
      s.attempted (k + patience) start =
        ((List.range k).map fun j => (start.machine.run j start.sink).machine) ++
          s.attempted patience later := by
  obtain ⟨shown, follow⟩ := ticks_of_run executed room
  obtain ⟨ticks_eq, attempts_eq⟩ := follow (s.bound patience later.machine)
  have agree : later.Agree ⟨later.machine, later.sink, shown⟩ := ⟨rfl, rfl⟩
  obtain ⟨ends_agree, verdicts⟩ := ticks_agree (s := s) rfl agree (s.bound patience later.machine)
  unfold run attempted
  rw [bound_add executed room, ticks_eq, attempts_eq, attempts_agree agree]
  exact ⟨verdicts, ends_agree, rfl⟩

/-! ## Two runs for one -/

omit [Writer σ] in
theorem log_append (s : Session) (states later : List Machine) :
    s.log (states ++ later) = s.log states ++ s.log later := by
  induction states with
  | nil => rfl
  | cons m rest ih => rw [List.cons_append, log, log, ih, Console.append_assoc]

omit [Writer σ] in
theorem log_maxSteps (s : Session) (maxSteps : Option Nat) (states : List Machine) :
    ({ s with maxSteps } : Session).log states = s.log states := by
  induction states with
  | nil => rfl
  | cons m rest ih => exact congrArg (s.showTrace m ++ ·) ih

theorem shown_run (s : Session) (patience : Nat) (r : Run σ) :
    (s.run patience r).1.shown = r.shown ++ s.log (s.attempted patience r)
      ++ s.farewell (s.run patience r).1.machine (s.run patience r).2 :=
  shown_ticks s _ r

/-- A run from `start` that was stopped, and the run that goes on from there, are together the whole
run: they end in the same way, and log between them what it logs.  `first` and `rest` are the
machines whose next instruction the two attempt. -/
structure Resumes (s : Session) (start : Run σ) (stopped again whole : Run σ × Option Verdict)
    (first rest : List Machine) : Prop where
  verdict : again.2 = whole.2
  machine : again.1.machine = whole.1.machine
  sink : again.1.sink = whole.1.sink
  shown_stopped : stopped.1.shown =
    start.shown ++ s.log first ++ s.farewell stopped.1.machine stopped.2
  shown_again : again.1.shown =
    stopped.1.shown ++ s.log rest ++ s.farewell again.1.machine again.2
  shown_whole : whole.1.shown =
    start.shown ++ (s.log first ++ s.log rest) ++ s.farewell again.1.machine again.2

/-- **A run stopped by its limit resumes seamlessly.**  Take a program that fits, loaded into a
fresh machine, and run it under a limit.  If the limit ends the run, a second run under a higher
limit, or under none, goes on with the machine and the sink that are left.  It ends as one run under
the higher limit does, and the two have logged between them what that run logs.  Without a limit the
one run is followed for as many instructions more as the first was allowed. -/
theorem run_resumed {limit : Nat} (higher : ∀ most ∈ s.maxSteps, limit ≤ most)
    {program : List UInt8} (fits : program.length ≤ Memory.size) (sink : σ) (shown : Console)
    (patience₀ patience : Nat) :
    ∃ m, ofProgram program = .ok m ∧
      let short : Session := { s with maxSteps := some limit }
      let start : Run σ := ⟨m, sink, shown⟩
      let stopped := short.run patience₀ start
      ∀ steps, stopped.2 = some (.error (.stepLimit steps)) →
        Resumes s start stopped (s.run patience stopped.1) (s.run (limit + patience) start)
          (short.attempted patience₀ start) (s.attempted patience stopped.1) := by
  obtain ⟨m, loaded, -, fresh⟩ := ofProgram_of_le fits
  refine ⟨m, loaded, ?_⟩
  intro short start stopped steps ended
  have begun : start.machine.steps = 0 := fresh
  obtain ⟨k, reached, executed⟩ : ∃ k, start.machine.steps + k = limit ∧
      start.machine.run k start.sink = ⟨none, stopped.1.machine, stopped.1.sink⟩ :=
    executed_of_stepLimit (s := short) rfl (by rw [begun]; exact Nat.zero_le _) ended
  obtain rfl : k = limit := by omega
  have room : s.HasRoom start.machine k := by
    intro most limited
    have := higher most limited
    omega
  obtain ⟨verdict, agree, attempted_whole⟩ := run_add executed room patience
  -- up to the limit, the session attempts what the shorter one does
  obtain ⟨-, -, -, attempted_short⟩ :=
    run_of_going (s := short) rfl reached patience₀ (by rw [executed])
  refine ⟨verdict, agree.machine, agree.sink, ?_, shown_run s patience stopped.1, ?_⟩
  · have all := shown_run short patience₀ start
    rw [log_maxSteps] at all
    exact all
  · rw [shown_run, attempted_whole, log_append, ← attempted_short, agree.machine, verdict]
    rfl

set_option maxRecDepth 8000 in
/-- A register is loaded, printed and printed again.  Under a limit of two the run stops between the
prints; without a limit it then goes on to the halt, and the traces together have each line once. -/
theorem print_resumed :
    let program : List UInt8 := [0x82, 0, 72, 0x47, 0, 0x47, 0, 0x01]
    let s : Session := { trace := true, display := { minimal := true } }
    let short : Session := { s with maxSteps := some 2 }
    ∃ m, ofProgram program = .ok m ∧
      let start : Run := ⟨m, {}, {}⟩
      let stopped := short.run 0 start
      stopped.2 = some (.error (.stepLimit 2)) ∧ stopped.1.sink.bytes = [55, 50, 10] ∧
        (s.run 4 start).2 = some (.ok ()) ∧ (s.run 2 stopped.1).2 = some (.ok ()) ∧
        (s.run 2 stopped.1).1.sink.bytes = [55, 50, 10, 55, 50, 10] ∧
        Resumes s start stopped (s.run 2 stopped.1) (s.run 4 start)
          (short.attempted 0 start) (s.attempted 2 stopped.1) := by
  intro program s short
  have fits : program.length ≤ Memory.size := by
    simp only [program]
    decide
  have higher : ∀ most ∈ s.maxSteps, 2 ≤ most := by simp [s]
  obtain ⟨m, loaded, resumed⟩ := run_resumed higher fits ({} : Sink) {} 0 2
  refine ⟨m, loaded, ?_⟩
  obtain ⟨ended, printed, verdict, bytes⟩ :
      (short.run 0 ⟨m, ({} : Sink), {}⟩).2 = some (.error (.stepLimit 2)) ∧
      (short.run 0 ⟨m, ({} : Sink), {}⟩).1.sink.bytes = [55, 50, 10] ∧
      (s.run 4 ⟨m, ({} : Sink), {}⟩).2 = some (.ok ()) ∧
      (s.run 4 ⟨m, ({} : Sink), {}⟩).1.sink.bytes = [55, 50, 10, 55, 50, 10] := by
    obtain rfl := Except.ok.inj loaded
    simp only [program, s, short]
    exact ⟨rfl, rfl, rfl, rfl⟩
  have resumes := resumed 2 ended
  exact ⟨ended, printed, verdict, resumes.verdict.trans verdict,
    (congrArg Sink.bytes resumes.sink).trans bytes, resumes⟩

end Session

end EightBit
