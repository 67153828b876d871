/-
# EightBit.Proofs.Observation -- watching a run does not disturb it

While a session runs a machine it shows diagnostics: a trace line before each instruction, and a
register dump where the run ends early.  What is shown never comes back into the run.

* `tick_cases` lists all a tick can do, with the machine of a fault as it was before.
* Two runs agree when they have the machine and the sink in common (`Run.Agree`), whatever has been
  shown in them.  Sessions with one limit keep agreeing runs in agreement, tick by tick
  (`tick_agree`, `ticks_agree`), and give them one verdict.
* Diagnostics stay off standard output (`stdout_ticks`).
* A session without a limit goes the way of `Machine.run` (`endsAs_ticks`); what it adds is the flush
  after a halt and the report of a fault.

`run_watched` puts these together.
-/
import EightBit.Proofs.Atomicity
import EightBit.Session

namespace EightBit

set_option autoImplicit false

/-! ## Diagnostics go to standard error -/

namespace Display

@[simp] theorem stdout_print_diagnostic (d : Display) (wanted : Wanted) (text : String) :
    (d.print (.diagnostic wanted) text).stdout = "" := by
  obtain ⟨minimal, colour⟩ := d
  cases minimal <;> cases wanted <;> rfl

@[simp] theorem stdout_printAll_diagnostic (d : Display) (wanted : Wanted) (texts : List String) :
    (d.printAll (.diagnostic wanted) texts).stdout = "" := by
  induction texts with
  | nil => rfl
  | cons text rest ih =>
    rw [printAll_cons, Console.stdout_append, ih, stdout_print_diagnostic]
    rfl

end Display

/-- Two runs with the machine and the sink in common. -/
structure Run.Agree {σ : Type} (r q : Run σ) : Prop where
  machine : r.machine = q.machine
  sink : r.sink = q.sink

namespace Session

open Machine

variable {σ : Type} [Writer σ] {s t : Session} {r q : Run σ}

/-! ## All a tick can do -/

/-- **All a tick can do**: end the run at the limit, without an attempt; or attempt the next
instruction, after which the machine still runs, has halted, or is where the instruction faulted. -/
theorem tick_cases (s : Session) (r : Run σ) :
    (s.attempt r = none ∧
      s.tick r = (s.dump .sometimes r, some (.error (.stepLimit r.machine.steps)))) ∨
    (s.attempt r = some (r.machine.step r.sink) ∧
      ((∃ m sink, r.machine.step r.sink = ⟨.ok .running, m, sink⟩ ∧
          s.tick r = (⟨m, sink, r.shown ++ s.showTrace r.machine⟩, none)) ∨
        (∃ m sink, r.machine.step r.sink = ⟨.ok .halted, m, sink⟩ ∧
          s.tick r =
            (⟨m, (halt sink).2, r.shown ++ s.showTrace r.machine⟩, some (halt sink).1)) ∨
        ∃ fault sink, r.machine.step r.sink = ⟨.error fault, r.machine, sink⟩ ∧
          s.tick r = (s.dump .always ⟨r.machine, sink, r.shown ++ s.showTrace r.machine⟩,
            some (.error (.fault r.machine.pc fault))))) := by
  by_cases reached : s.limitReached r.machine
  · have attempted : s.attempt r = none := by
      rw [attempt, if_pos reached]
    left
    exact ⟨attempted, by simp only [tick, attempted]⟩
  · have attempted : s.attempt r = some (r.machine.step r.sink) := by
      rw [attempt, if_neg reached]
    right
    refine ⟨attempted, ?_⟩
    rcases stepped : r.machine.step r.sink with ⟨fault | _ | _, m, sink⟩ <;> rw [stepped] at attempted
    · have faulted : (r.machine.step r.sink).result = .error fault := by
        rw [stepped]
      have same : m = r.machine := by
        have := machine_of_step_error faulted
        rwa [stepped] at this
      subst same
      right; right
      exact ⟨fault, sink, rfl, by simp only [tick, attempted]⟩
    · left
      exact ⟨m, sink, rfl, by simp only [tick, attempted]⟩
    · right; left
      exact ⟨m, sink, rfl, by simp only [tick, attempted]⟩

/-! ## Runs in agreement -/

theorem attempt_eq (same : s.maxSteps = t.maxSteps) (h : r.Agree q) :
    s.attempt r = t.attempt q := by
  unfold attempt limitReached
  rw [same, h.machine, h.sink]

theorem tick_agree (same : s.maxSteps = t.maxSteps) (h : r.Agree q) :
    (s.tick r).1.Agree (t.tick q).1 ∧ (s.tick r).2 = (t.tick q).2 := by
  have attempted := attempt_eq same h
  unfold tick
  rw [attempted]
  rcases t.attempt q with _ | ⟨_ | _ | _, m, sink⟩
  · exact ⟨⟨h.machine, h.sink⟩, by rw [h.machine]⟩
  · exact ⟨⟨rfl, rfl⟩, rfl⟩
  · exact ⟨⟨rfl, rfl⟩, rfl⟩
  · exact ⟨⟨rfl, rfl⟩, rfl⟩

theorem ticks_agree (same : s.maxSteps = t.maxSteps) (h : r.Agree q) (bound : Nat) :
    (s.ticks bound r).1.Agree (t.ticks bound q).1 ∧ (s.ticks bound r).2 = (t.ticks bound q).2 := by
  induction bound generalizing r q with
  | zero => exact ⟨h, rfl⟩
  | succ bound ih =>
    obtain ⟨agree, verdicts⟩ := tick_agree same h
    rcases first : s.tick r with ⟨r', v⟩
    rcases second : t.tick q with ⟨q', w⟩
    rw [first, second] at agree verdicts
    obtain rfl : v = w := verdicts
    cases v with
    | none =>
      simp only [ticks, first, second]
      exact ih agree
    | some verdict =>
      simp only [ticks, first, second]
      exact ⟨agree, trivial⟩

theorem run_agree (same : s.maxSteps = t.maxSteps) (h : r.Agree q) (patience : Nat) :
    (s.run patience r).1.Agree (t.run patience q).1 ∧
      (s.run patience r).2 = (t.run patience q).2 := by
  have bounds : s.bound patience r.machine = t.bound patience q.machine := by
    unfold bound
    rw [same, h.machine]
  unfold run
  rw [bounds]
  exact ticks_agree same h _

/-! ## What is shown -/

theorem stdout_showTrace (s : Session) (m : Machine) : (s.showTrace m).stdout = "" := by
  unfold showTrace
  split
  · exact Display.stdout_print_diagnostic ..
  · rfl

omit [Writer σ] in
theorem stdout_dump (s : Session) (wanted : Wanted) (r : Run σ) :
    (s.dump wanted r).shown.stdout = r.shown.stdout := by
  show r.shown.stdout ++ (s.display.registers (.diagnostic wanted) r.machine).stdout = _
  rw [Display.registers, Display.stdout_printAll_diagnostic, String.append_empty]

theorem stdout_tick (s : Session) (r : Run σ) :
    (s.tick r).1.shown.stdout = r.shown.stdout := by
  have traced : (r.shown ++ s.showTrace r.machine).stdout = r.shown.stdout := by
    rw [Console.stdout_append, stdout_showTrace, String.append_empty]
  rcases tick_cases s r with ⟨-, ticked⟩ | ⟨-, ⟨m, sink, -, ticked⟩ | ⟨m, sink, -, ticked⟩ |
      ⟨fault, sink, -, ticked⟩⟩ <;> rw [ticked]
  · exact stdout_dump ..
  · exact traced
  · exact traced
  · exact (stdout_dump ..).trans traced

/-- Nothing a session shows goes to standard output. -/
theorem stdout_ticks (s : Session) (bound : Nat) (r : Run σ) :
    (s.ticks bound r).1.shown.stdout = r.shown.stdout := by
  induction bound generalizing r with
  | zero => rfl
  | succ bound ih =>
    have first := stdout_tick s r
    rcases ticked : s.tick r with ⟨r', _ | verdict⟩ <;> rw [ticked] at first
    · simp only [ticks, ticked]
      exact (ih r').trans first
    · simp only [ticks, ticked]
      exact first

/-! ## A session without a limit -/

theorem attempt_of_unlimited (unlimited : s.maxSteps = none) (r : Run σ) :
    s.attempt r = some (r.machine.step r.sink) := by
  simp [attempt, limitReached, unlimited]

/-- A session ends as the machine alone does: the machine is the same, a machine that still runs has
no verdict yet, a halt is followed by a flush, and a fault becomes a report. -/
structure EndsAs (alone : Outcome (Option (Except Fault Unit)) σ) (r : Run σ)
    (verdict : Option Verdict) : Prop where
  machine : r.machine = alone.machine
  going : alone.result = none → r.sink = alone.sink ∧ verdict = none
  halted : alone.result = some (.ok ()) →
    r.sink = (Writer.flush alone.sink).2 ∧
      verdict = some ((Writer.flush alone.sink).1.mapError .output)
  faulted : ∀ fault, alone.result = some (.error fault) →
    r.sink = alone.sink ∧ verdict = some (.error (.fault alone.machine.pc fault))

theorem endsAs_ticks (unlimited : s.maxSteps = none) (bound : Nat) (r : Run σ) :
    EndsAs (r.machine.run bound r.sink) (s.ticks bound r).1 (s.ticks bound r).2 := by
  induction bound generalizing r with
  | zero => exact ⟨rfl, fun _ => ⟨rfl, rfl⟩, by simp [Machine.run], by simp [Machine.run]⟩
  | succ bound ih =>
    rcases tick_cases s r with ⟨none_left, -⟩ | ⟨-, ⟨m, sink, stepped, ticked⟩ |
        ⟨m, sink, stepped, ticked⟩ | ⟨fault, sink, stepped, ticked⟩⟩
    · rw [attempt_of_unlimited unlimited] at none_left
      cases none_left
    · simp only [ticks, ticked, Machine.run, stepped]
      exact ih ⟨m, sink, r.shown ++ s.showTrace r.machine⟩
    · simp only [ticks, ticked, Machine.run, stepped]
      exact ⟨rfl, by simp, fun _ => ⟨rfl, rfl⟩, by simp⟩
    · simp only [ticks, ticked, Machine.run, stepped]
      refine ⟨rfl, by simp, by simp, ?_⟩
      intro other same
      obtain rfl : fault = other := by simpa using same
      exact ⟨rfl, rfl⟩

/-- A session ends well exactly when the machine alone halts and the sink can be flushed. -/
theorem EndsAs.ok_iff {alone : Outcome (Option (Except Fault Unit)) σ} {verdict : Option Verdict}
    (h : EndsAs alone r verdict) :
    verdict = some (.ok ()) ↔
      alone.result = some (.ok ()) ∧ (Writer.flush alone.sink).1 = .ok () := by
  rcases result : alone.result with _ | fault | ⟨⟩
  · simp [(h.going result).2]
  · simp [(h.faulted fault result).2]
  · rw [(h.halted result).2]
    rcases (Writer.flush alone.sink).1 with cause | ⟨⟩
    · exact iff_of_false (fun same => nomatch same) fun both => nomatch both.2
    · exact iff_of_true rfl ⟨rfl, rfl⟩

/-- **Watching a run does not disturb it.**  Run a machine on a sink under a limit twice, with
tracing and the display as they may be: both runs have one verdict, and so one report, and leave the
same machine and the same sink; neither adds to standard output.  Untraced and without a limit, a
session ends as the machine alone does: well exactly when the machine halts and the sink can be
flushed, and with a report of the address and the cause when the machine faults. -/
theorem run_watched (maxSteps : Option Nat) (trace trace' : Bool) (display display' : Display)
    (m : Machine) (sink : σ) (shown shown' : Console) (patience : Nat) :
    (let one := Session.run { trace, maxSteps, display } patience ⟨m, sink, shown⟩
     let other := Session.run { trace := trace', maxSteps, display := display' } patience
       ⟨m, sink, shown'⟩
     one.2 = other.2 ∧ one.1.machine = other.1.machine ∧ one.1.sink = other.1.sink ∧
       one.1.shown.stdout = shown.stdout ∧ other.1.shown.stdout = shown'.stdout) ∧
    (let alone := m.run patience sink
     let plain := Session.run { display } patience ⟨m, sink, shown⟩
     EndsAs alone plain.1 plain.2 ∧
       (plain.2 = some (.ok ()) ↔
         alone.result = some (.ok ()) ∧ (Writer.flush alone.sink).1 = .ok ()) ∧
       ∀ fault, alone.result = some (.error fault) →
         plain.2.map (·.mapError RunError.report) = some (.error {
           message := "Machine fault at address 0x" ++ Numeral.hex 2 alone.machine.pc ++ ": "
             ++ fault.message
           code := some "run::fault" })) := by
  constructor
  · obtain ⟨⟨machine, sinks⟩, verdict⟩ :=
      run_agree (s := { trace, maxSteps, display })
        (t := { trace := trace', maxSteps, display := display' }) rfl
        (r := ⟨m, sink, shown⟩) (q := ⟨m, sink, shown'⟩) ⟨rfl, rfl⟩ patience
    exact ⟨verdict, machine, sinks, stdout_ticks .., stdout_ticks ..⟩
  · intro alone plain
    have ends : EndsAs alone plain.1 plain.2 :=
      endsAs_ticks (s := { display }) rfl patience ⟨m, sink, shown⟩
    refine ⟨ends, ends.ok_iff, ?_⟩
    intro fault faulted
    rw [(ends.faulted fault faulted).2]
    rfl

end Session

end EightBit
