/-
# EightBit.Proofs.Command.Shortcut -- a path alone is run

A path without a command is run without options.  The command for running does the same, but where
its arguments do not switch tracing on it asks the environment, and the shortcut does not.

`shortcut_runs` compares the two: they have one result, one directory and one standard output, and
on standard error the command has the trace in front (`logOf`).  So the two agree exactly when the
environment asks for no trace or nothing is run that could be traced.
-/
import EightBit.Proofs.Command.Answers
import EightBit.Proofs.TraceLog
import Mathlib.Data.Option.Basic

namespace EightBit

set_option autoImplicit false

/-! ## The arguments -/

namespace Request

theorem ofCommand_nil_ne {e : Environment} {name : String}
    (command : commandNames.contains name = true) (request : Request) :
    ofCommand e name [] ≠ .ok request := by
  have known : name ∈ ["run", "compile", "check", "help"] := by
    simpa [commandNames] using command
  simp only [List.mem_cons, List.not_mem_nil, or_false] at known
  rcases known with rfl | rfl | rfl | rfl <;> exact nofun

theorem text_of_ofString_eq_name {text name : String} (h : Argument.ofString text = .name name) :
    name = text := by
  unfold Argument.ofString at h
  split at h
  · cases h
  · cases h
  · cases h
  · exact (Argument.name.inj h).symm

/-- A path stands for itself if it is no command and does not look like an option. -/
theorem ofArguments_path_iff {e : Environment} {path : String} :
    ofArguments e [path] = .ok (.run path {}) ↔
      path ≠ "" ∧ commandNames.contains path = false ∧ Argument.ofString path = .name path := by
  constructor
  · intro h
    unfold ofArguments scan at h
    split at h
    · next command => exact absurd h (ofCommand_nil_ne command _)
    · next plain =>
      split at h
      · next name form =>
        obtain rfl := text_of_ofString_eq_name form
        refine ⟨?_, by simpa using plain, form⟩
        rintro rfl
        cases h
      all_goals cases h
  · rintro ⟨some_left, plain, form⟩
    unfold ofArguments scan
    simp only [plain, Bool.false_eq_true, if_false, form, addName, some_left]
    rfl

/-- The command for running takes the path too, and asks the environment about tracing. -/
theorem ofArguments_run_path {e : Environment} {path : String}
    (plain : ofArguments e [path] = .ok (.run path {})) :
    ofArguments e ["run", path] = .ok (.run path { trace := e.trace }) := by
  obtain ⟨some_left, -, form⟩ := ofArguments_path_iff.1 plain
  have command : commandNames.contains "run" = true := by decide
  have scanned : RunArguments.scan {} [path] = .ok { names := [path] } := by
    unfold RunArguments.scan
    simp only [form, RunArguments.addName, addName, some_left]
    rfl
  simp only [ofArguments, scan, command, if_true, ofCommand, ofRun, scanned]
  rfl

end Request

/-! ## The log on the two streams -/

namespace Session

theorem stdout_log (s : Session) (states : List Machine) : (s.log states).stdout = "" := by
  induction states with
  | nil => rfl
  | cons m rest ih =>
    rw [log, Console.stdout_append, stdout_showTrace, ih]
    rfl

theorem stderr_showTrace_ne {s : Session} (traced : s.trace = true)
    (full : s.display.minimal = false) (m : Machine) : (s.showTrace m).stderr ≠ "" := by
  rw [showTrace, if_pos traced, Display.printLine, Display.print_full full]
  show s.display.paint .blue (m.trace ++ "\n") ≠ ""
  rw [Display.paint]
  split
  · simp [Escape.paint, Escape.start]
  · simp

variable {σ : Type} [Writer σ] {s : Session}

/-- Without a limit the first instruction is attempted. -/
theorem attempts_eq_cons (unlimited : s.maxSteps = none) (bound : Nat) (r : Run σ) :
    ∃ rest, s.attempts (bound + 1) r = r.machine :: rest := by
  simp only [attempts, attempt_of_unlimited unlimited r]
  rcases s.tick r with ⟨r', _ | verdict⟩
  · exact ⟨_, rfl⟩
  · exact ⟨[], rfl⟩

/-- Tracing puts the log in front of what is shown without it. -/
theorem shown_run_trace (s : Session) (patience : Nat) (m : Machine) (sink : σ) :
    (s.run patience ⟨m, sink, {}⟩).1.shown =
      s.log (s.attempts (s.bound patience m) ⟨m, sink, {}⟩) ++
        (Session.run { s with trace := false } patience ⟨m, sink, {}⟩).1.shown := by
  have start : Run.Agree (⟨m, sink, {}⟩ : Run σ) ⟨m, sink, {}⟩ := ⟨rfl, rfl⟩
  have same : s.maxSteps = ({ s with trace := false } : Session).maxSteps := rfl
  obtain ⟨agree, verdicts⟩ := run_agree same start patience
  have traced := shown_ticks s (s.bound patience m) ⟨m, sink, {}⟩
  have plain := shown_ticks { s with trace := false } (s.bound patience m) ⟨m, sink, {}⟩
  rw [log_of_not_trace rfl, Console.append_empty, Console.empty_append] at plain
  rw [Console.empty_append] at traced
  refine traced.trans (congrArg _ (Eq.trans ?_ plain.symm))
  show s.farewell (s.run patience ⟨m, sink, {}⟩).1.machine (s.run patience ⟨m, sink, {}⟩).2 = _
  rw [agree.machine, verdicts]
  rfl

end Session

namespace Plan

variable {patience : Nat} {d : Directory} {path : String}

theorem stderr_ofVerdict (display : Display) (path : String) (d : Directory)
    (program : List UInt8) (r : Run) (verdict : Verdict) :
    (ofVerdict display path d program r verdict).shown.stderr = r.shown.stderr := by
  cases verdict <;>
    simp only [ofVerdict, ending, target, byteCount, Console.stderr_append, stderr_message,
      String.empty_append, String.append_empty]

/-- The log of running a file without options, where the environment asks for one. -/
def logOf (e : Environment) (patience : Nat) (d : Directory) (path : String) : Console :=
  let s := ({ trace := e.trace } : RunOptions).session e.colour
  match machineIn d path with
  | .error _ => {}
  | .ok (_, m) => s.log (s.attempts (s.bound patience m) ⟨m, ({} : Sink), {}⟩)

theorem stdout_logOf (e : Environment) (patience : Nat) (d : Directory) (path : String) :
    (logOf e patience d path).stdout = "" := by
  unfold logOf
  cases machineIn d path with
  | error failure => rfl
  | ok loaded => exact Session.stdout_log ..

theorem logOf_of_not_trace {e : Environment} (silent : e.trace = false) (patience : Nat)
    (d : Directory) (path : String) : logOf e patience d path = {} := by
  unfold logOf
  cases machineIn d path with
  | error failure => rfl
  | ok loaded => exact Session.log_of_not_trace silent _

theorem stderr_logOf_ne {e : Environment} (traced : e.trace = true) {program : List UInt8}
    {m : Machine} (found : machineIn d path = .ok (program, m)) (patience : Nat) :
    (logOf e (patience + 1) d path).stderr ≠ "" := by
  let s := ({ trace := e.trace } : RunOptions).session e.colour
  obtain ⟨rest, attempts⟩ := s.attempts_eq_cons rfl patience ⟨m, ({} : Sink), {}⟩
  have first : (s.showTrace m).stderr ≠ "" := Session.stderr_showTrace_ne traced rfl m
  simp only [logOf, found]
  show (s.log (s.attempts (patience + 1) ⟨m, ({} : Sink), {}⟩)).stderr ≠ ""
  rw [attempts]
  show (s.showTrace m).stderr ++ (s.log rest).stderr ≠ ""
  intro nothing
  exact first (String.append_eq_empty_iff.1 nothing).1

/-! ## The two answers -/

/-- How the answer `b` of the command for running compares with that of the shortcut, `a`. -/
structure Answer.Shortcut (e : Environment) (patience : Nat) (d : Directory) (path : String)
    (a b : Answer) : Prop where
  result : a.result = b.result
  directory : a.directory = b.directory
  stdout : a.shown.stdout = b.shown.stdout
  /-- The command also shows the log. -/
  stderr : b.shown.stderr = (logOf e patience d path).stderr ++ a.shown.stderr
  same_iff : a = b ↔ e.trace = false ∨ ∃ failure, machineIn d path = .error failure

/-- Two runs that differ by the log, as the commands show them. -/
theorem Answer.Shortcut.of_agree {e : Environment} {program : List UInt8} {m : Machine}
    (found : machineIn d path = .ok (program, m)) {q r : Run} (agree : r.Agree q)
    (shown : r.shown = logOf e (patience + 1) d path ++ q.shown) (display : Display)
    (verdict : Verdict) :
    Answer.Shortcut e (patience + 1) d path (ofVerdict display path d program q verdict)
      (ofVerdict display path d program r verdict) := by
  have more : (ofVerdict display path d program r verdict).shown.stderr =
      (logOf e (patience + 1) d path).stderr ++
        (ofVerdict display path d program q verdict).shown.stderr := by
    rw [stderr_ofVerdict, stderr_ofVerdict, shown, Console.stderr_append]
  refine ⟨rfl, rfl, ?_, more, ?_, ?_⟩
  · simp only [ofVerdict, agree.sink, shown, Console.stdout_append, stdout_logOf,
      String.empty_append]
  · intro same
    left
    by_contra traced
    rw [Bool.not_eq_false] at traced
    rw [← same] at more
    have nothing := congrArg String.length more
    rw [String.length_append] at nothing
    have none_left : (logOf e (patience + 1) d path).stderr.length = 0 := by omega
    exact stderr_logOf_ne traced found patience (String.length_eq_zero_iff.1 none_left)
  · rintro (silent | ⟨failure, failed⟩)
    · rw [logOf_of_not_trace silent, Console.empty_append] at shown
      simp only [ofVerdict, agree.sink, shown]
    · rw [found] at failed
      cases failed

/-- **A path alone is run as by the command, but never traced.**  Whatever the path, the directory
and the environment: neither command ends, or both do, with one result, one directory and one
standard output, and the command for running has the log on standard error that the environment asks
for.  They agree exactly when the environment asks for none, or the file cannot be loaded. -/
theorem shortcut_runs {e : Environment}
    (plain : Request.ofArguments e [path] = .ok (.run path {})) (patience : Nat) (d : Directory) :
    Option.Rel (Answer.Shortcut e patience d path) (answer? e patience d [path])
      (answer? e patience d ["run", path]) := by
  let traced := ({ trace := e.trace } : RunOptions).session e.colour
  let silent := ({} : RunOptions).session e.colour
  rw [answer?_of_ofArguments plain, answer?_of_ofArguments (Request.ofArguments_run_path plain)]
  show Option.Rel _ ((ofRun e.colour path {}).perform patience d {})
    ((ofRun e.colour path { trace := e.trace }).perform patience d {})
  rw [perform_ofRun, perform_ofRun]
  rcases found : machineIn d path with failure | ⟨program, m⟩
  · refine .some ⟨rfl, rfl, rfl, ?_, ?_⟩
    · rw [logOf, found]
      exact String.empty_append.symm
    · exact ⟨fun _ => .inr ⟨failure, found⟩, fun _ => rfl⟩
  · have start : Run.Agree (⟨m, {}, {}⟩ : Run Sink) ⟨m, {}, {}⟩ := ⟨rfl, rfl⟩
    have same : traced.maxSteps = silent.maxSteps := rfl
    obtain ⟨agree, verdicts⟩ := Session.run_agree same start patience
    have shown : (traced.run patience ⟨m, ({} : Sink), {}⟩).1.shown = logOf e patience d path ++
        (silent.run patience ⟨m, ({} : Sink), {}⟩).1.shown := by
      rw [logOf, found]
      exact traced.shown_run_trace patience m ({} : Sink)
    show Option.Rel _ ((silent.run patience ⟨m, ({} : Sink), {}⟩).2.map _)
      ((traced.run patience ⟨m, ({} : Sink), {}⟩).2.map _)
    rw [verdicts]
    cases ended : (silent.run patience ⟨m, ({} : Sink), {}⟩).2 with
    | none => exact .none
    | some verdict =>
      cases patience with
      | zero => cases ended
      | succ patience => exact .some (.of_agree found agree shown _ verdict)

/-- A program that only halts, run where the environment switches tracing off: the two agree. -/
theorem halt_shortcut_runs :
    let e : Environment := { values := [("LS8_TRACE", "off")] }
    let d : Directory := ⟨[({ names := ["halt.ls8".toList] }, "1\n".toUTF8)]⟩
    Request.ofArguments e ["halt.ls8"] = .ok (.run "halt.ls8" {}) ∧
      ∃ a, answer? e 1 d ["halt.ls8"] = some a ∧ answer? e 1 d ["run", "halt.ls8"] = some a := by
  intro e d
  have plain : Request.ofArguments e ["halt.ls8"] = .ok (.run "halt.ls8" {}) := rfl
  have silent : e.trace = false := by decide +kernel
  have ends : (answer? e 1 d ["halt.ls8"]).isSome := by decide +kernel
  obtain ⟨a, answered⟩ := Option.isSome_iff_exists.1 ends
  refine ⟨plain, a, answered, ?_⟩
  have alike := shortcut_runs plain 1 d
  rw [answered] at alike
  rcases run : answer? e 1 d ["run", "halt.ls8"] with _ | b <;> rw [run] at alike
  · cases alike
  · cases alike with
    | some h => rw [h.same_iff.2 (.inl silent)]

/-- Where the environment switches tracing on, the command shows a line that the shortcut does not
show. -/
theorem halt_shortcut_untraced :
    let e : Environment := { values := [("LS8_TRACE", "1")] }
    let d : Directory := ⟨[({ names := ["halt.ls8".toList] }, "1\n".toUTF8)]⟩
    Request.ofArguments e ["halt.ls8"] = .ok (.run "halt.ls8" {}) ∧
      (answer? e 1 d ["halt.ls8"]).map (·.shown.stderr) = some "" ∧
      (answer? e 1 d ["run", "halt.ls8"]).map (·.shown.stderr) =
        some "TRACE: 00 | 01 00 00 | 00 00 00 00 00 00 00 F4 | HLT\n" := by
  intro e d
  refine ⟨rfl, ?_, ?_⟩
  · decide +kernel
  · decide +kernel

end Plan

end EightBit
