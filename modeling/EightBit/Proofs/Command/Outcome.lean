/-
# EightBit.Proofs.Command.Outcome -- a run seen from outside

From outside a run is its exit status and what it puts on standard output.  Status messages and what
the program prints share that stream, in order; a minimal display leaves the status messages out.

* `Loads` says when a file can be loaded, from its extension and its contents; `machineIn_eq_ok_iff`
  that this is when the command finds a program to run.
* `Completes` says when a run ends well: the program carries out a halt within the limit.
* `Exits` is the answer of a command that is waited for as long as it takes.

`run_outcome` says that the command ends in one way (`Seen`), unless nothing limits a program that
runs for ever (`RunsOn`).  There are such programs: `loop_never_exits`.
-/
import EightBit.Proofs.Command.Answers
import EightBit.Proofs.Printout
import EightBit.Proofs.Recurrence

namespace EightBit

set_option autoImplicit false

namespace Plan

open Session

variable {d : Directory} {path : String} {program : List UInt8} {m : Machine}

/-! ## Loading -/

/-- A file holds a program, as text or as the bytes of an image. -/
inductive Holds (d : Directory) (path : String) : List UInt8 → Prop
  | text {contents : ByteArray} {text : String} {program : List UInt8}
    (extension : Path.extension? path.toList = some "ls8".toList)
    (read : d.read path = .ok contents) (valid : String.fromUTF8? contents = some text)
    (parsed : ({ name := path, text } : Source).parse = .ok program) : Holds d path program
  | image {contents : ByteArray} (extension : Path.extension? path.toList = some "bin".toList)
    (read : d.read path = .ok contents) : Holds d path contents.data.toList

/-- The program a file holds can be loaded into a fresh machine, which is then `m`. -/
structure Loads (d : Directory) (path : String) (program : List UInt8) (m : Machine) : Prop where
  holds : Holds d path program
  loaded : Machine.ofProgram program = .ok m

theorem programOfText_eq_ok_iff {contents : ByteArray} :
    programOfText path contents = .ok program ↔ ∃ text, String.fromUTF8? contents = some text ∧
      ({ name := path, text } : Source).parse = .ok program := by
  unfold programOfText
  cases String.fromUTF8? contents with
  | none => exact iff_of_false (fun h => by cases h) fun ⟨_, h, _⟩ => by cases h
  | some text =>
    rw [Machine.mapError_eq_ok]
    exact ⟨fun h => ⟨text, rfl, h⟩, fun ⟨_, same, h⟩ => Option.some.inj same ▸ h⟩

theorem textIn_eq_ok_iff :
    textIn d path = .ok program ↔ ∃ contents, d.read path = .ok contents ∧
      programOfText path contents = .ok program := by
  show ((d.read path).mapError Failure.file >>= programOfText path) = .ok program ↔ _
  simp only [Machine.bind_eq_ok, Machine.mapError_eq_ok]

theorem imageIn_eq_ok_iff :
    imageIn d path = .ok program ↔ ∃ contents, d.read path = .ok contents ∧
      contents.data.toList = program := by
  unfold imageIn
  rcases d.read path with cause | contents
  · exact iff_of_false (fun h => by cases h) fun ⟨_, h, _⟩ => by cases h
  · constructor
    · intro h
      exact ⟨contents, rfl, Except.ok.inj h⟩
    · rintro ⟨_, same, rfl⟩
      obtain rfl := Except.ok.inj same
      rfl

theorem eq_of_map_ofList {letters : Option (List Char)} {text : String}
    (h : letters.map String.ofList = some text) : letters = some text.toList := by
  obtain ⟨cs, rfl, rfl⟩ := Option.map_eq_some_iff.1 h
  rw [String.toList_ofList]

/-- A file holds a program exactly when the command finds it there. -/
theorem programIn_eq_ok_iff : programIn d path = .ok program ↔ Holds d path program := by
  constructor
  · intro found
    unfold programIn at found
    split at found
    · next extension =>
      obtain ⟨contents, read, programOf⟩ := textIn_eq_ok_iff.1 found
      obtain ⟨text, valid, parsed⟩ := programOfText_eq_ok_iff.1 programOf
      exact .text (eq_of_map_ofList extension) read valid parsed
    · next extension =>
      obtain ⟨contents, read, rfl⟩ := imageIn_eq_ok_iff.1 found
      exact .image (eq_of_map_ofList extension) read
    · cases found
    · cases found
  · intro holds
    cases holds with
    | text extension read valid parsed =>
      rw [programIn_text extension, textIn_eq_ok_iff]
      exact ⟨_, read, programOfText_eq_ok_iff.2 ⟨_, valid, parsed⟩⟩
    | image extension read =>
      rw [programIn_image extension, imageIn_eq_ok_iff]
      exact ⟨_, read, rfl⟩

/-- A file can be loaded exactly when the command finds a program to run. -/
theorem machineIn_eq_ok_iff : machineIn d path = .ok (program, m) ↔ Loads d path program m := by
  constructor
  · intro found
    obtain ⟨program', held, found⟩ : ∃ program', programIn d path = .ok program' ∧
        ((Machine.ofProgram program').mapError Failure.program).map (program', ·) =
          .ok (program, m) := Machine.bind_eq_ok.1 found
    cases loaded : (Machine.ofProgram program').mapError Failure.program with
    | error failure =>
      rw [loaded] at found
      cases found
    | ok m' =>
      rw [loaded] at found
      obtain ⟨rfl, rfl⟩ := Prod.mk.inj (Except.ok.inj found)
      exact ⟨programIn_eq_ok_iff.1 held, Machine.mapError_eq_ok.1 loaded⟩
  · rintro ⟨holds, loaded⟩
    exact machineIn_of_programIn (programIn_eq_ok_iff.2 holds) loaded

/-- There is one program in a file. -/
theorem Loads.unique {program' : List UInt8} {m' : Machine} (loads : Loads d path program m)
    (loads' : Loads d path program' m') : program = program' ∧ m = m' :=
  Prod.mk.inj (Except.ok.inj
    ((machineIn_eq_ok_iff.2 loads).symm.trans (machineIn_eq_ok_iff.2 loads')))

theorem running_of_ofProgram (loaded : Machine.ofProgram program = .ok m) :
    m.status = .running ∧ m.steps = 0 := by
  unfold Machine.ofProgram Machine.load at loaded
  rcases filled : Machine.initial.memory.load program with fault | memory <;> rw [filled] at loaded
  · cases loaded
  · obtain rfl := Except.ok.inj loaded
    exact ⟨rfl, rfl⟩

/-! ## Standard output -/

/-- A status message on a full display: a word in a column of twelve, in colour or not, and the
rest. -/
def statusLine (colour : Bool) (c : Colour) (word rest : String) : String :=
  ({ colour } : Display).paintAligned 12 c word ++ " " ++ rest ++ "\n"

/-- The status message about the file that is run. -/
def targetLine (colour : Bool) (c : Colour) (word path : String) : String :=
  statusLine colour c word ("target " ++ path)

/-- Standard output of a run that ended with a verdict: what the program printed, and on a full
display the status messages around it. -/
def output (display : Display) (path : String) (program : List UInt8) (printed : String)
    (verdict : Verdict) : String :=
  if display.minimal then printed
  else
    targetLine display.colour .green "Loading" path ++
      statusLine display.colour .green "Running" (Numeral.decimal program.length ++ " bytes") ++
      printed ++
      match verdict with
      | .ok () => statusLine display.colour .cyan "Halted" "" ++
          targetLine display.colour .green "Completed" path
      | .error _ => targetLine display.colour .red "Failed" path

/-- Standard output of a run of a file that cannot be loaded. -/
def loadingOutput (display : Display) (path : String) : String :=
  if display.minimal then "" else targetLine display.colour .green "Loading" path

theorem stdout_message (display : Display) (c : Colour) (word rest : String) :
    (display.message .status c word rest).stdout =
      if display.minimal then "" else statusLine display.colour c word rest := by
  obtain ⟨minimal, colour⟩ := display
  cases minimal <;> rfl

theorem stdout_ofVerdict {display : Display} {r : Run} (quiet : r.shown.stdout = "")
    (verdict : Verdict) : (ofVerdict display path d program r verdict).shown.stdout =
      output display path program r.sink.text verdict := by
  obtain ⟨minimal, colour⟩ := display
  cases minimal <;> cases verdict <;>
    simp [ofVerdict, ending, target, byteCount, stdout_message, quiet, output, targetLine,
      String.append_assoc]

/-! ## Exit -/

/-- Running a file ends well: it can be loaded, and its program carries out a halt within the limit,
if there is one. -/
def Completes (d : Directory) (path : String) (limit : Option Nat) : Prop :=
  ∃ program m k, Loads d path program m ∧ m.HaltsWith k ∧ ∀ most ∈ limit, k ≤ most

/-- The answer of a command that is waited for as long as it takes. -/
def Exits (e : Environment) (d : Directory) (args : List String) (a : Answer) : Prop :=
  ∃ patience, answer? e patience d args = some a

/-- How a run of a file ends, seen from outside: when the exit status is zero, and what there is on
standard output.  A run that fails has a failure to report. -/
structure Seen (display : Display) (d : Directory) (path : String) (limit : Option Nat)
    (a : Answer) : Prop where
  succeeds : exitStatus a.result = 0 ↔ Completes d path limit
  fails : ¬ Completes d path limit →
    exitStatus a.result = 1 ∧ ∃ failure, a.result = .error failure
  unloaded : (∀ program m, ¬ Loads d path program m) →
    a.shown.stdout = loadingOutput display path
  loaded : ∀ program m, Loads d path program m → ∃ n verdict, m.Ends limit n verdict ∧
    a.result = verdict.mapError .run ∧
    a.shown.stdout = output display path program (m.printout n) verdict

/-- A run of a file that never ends: nothing limits it, and the program neither halts nor faults.
What it has printed at any time is what the instructions carried out by then print. -/
structure RunsOn (s : Session) (d : Directory) (path : String) : Prop where
  unlimited : s.maxSteps = none
  endless : ∃ program m, Loads d path program m ∧ m.Endless ({} : Sink) ∧
    ∀ n, (s.run n ⟨m, ({} : Sink), {}⟩).1.sink.text = m.printout n

theorem seen_of_failure {failure : Failure} (refused : machineIn d path = .error failure)
    (display : Display) (limit : Option Nat) :
    Seen display d path limit ⟨.error failure, d, target display .green "Loading" path⟩ := by
  have unloaded (program : List UInt8) (m : Machine) : ¬ Loads d path program m := by
    intro loads
    cases refused.symm.trans (machineIn_eq_ok_iff.2 loads)
  refine ⟨iff_of_false (by decide : (1 : UInt32) ≠ 0) ?_, fun _ => ⟨rfl, failure, rfl⟩, ?_, ?_⟩
  · rintro ⟨program, m, k, loads, -⟩
    exact unloaded program m loads
  · intro _
    exact stdout_message ..
  · intro program m loads
    exact absurd loads (unloaded program m)

/-- A verdict is good exactly when the run completes. -/
theorem completes_iff {limit : Option Nat} {n : Nat} {verdict : Verdict}
    (loads : Loads d path program m) (ends : m.Ends limit n verdict) :
    Completes d path limit ↔ verdict = .ok () := by
  constructor
  · rintro ⟨program', m', k, loads', halts, within⟩
    obtain ⟨-, rfl⟩ := loads'.unique loads
    obtain ⟨running, fresh⟩ := running_of_ofProgram loads.loaded
    exact verdict_unique running fresh ends (.halt halts within)
  · rintro rfl
    cases ends with
    | halt halts within => exact ⟨program, m, n, loads, halts, within⟩

/-- A program that runs for ever does not complete. -/
theorem not_completes_of_endless (loads : Loads d path program m) (endless : m.Endless ({} : Sink))
    (limit : Option Nat) : ¬ Completes d path limit := by
  rintro ⟨program', m', k, loads', halts, -⟩
  obtain ⟨-, rfl⟩ := loads'.unique loads
  obtain ⟨running, -⟩ := running_of_ofProgram loads.loaded
  exact Machine.not_haltsWith_of_endless running endless k halts

theorem seen_ofVerdict {limit : Option Nat} {n : Nat} {verdict : Verdict} {r : Run}
    (loads : Loads d path program m) (ends : m.Ends limit n verdict)
    (printed : r.sink = Sink.ofLines (m.printouts n)) (quiet : r.shown.stdout = "")
    (display : Display) :
    Seen display d path limit (ofVerdict display path d program r verdict) := by
  have completes := completes_iff loads ends
  refine ⟨?_, ?_, ?_, ?_⟩
  · rw [completes]
    rcases verdict with cause | ⟨⟩
    · exact iff_of_false (by decide : (1 : UInt32) ≠ 0) fun same => by cases same
    · exact iff_of_true rfl rfl
  · intro fails
    rw [completes] at fails
    rcases verdict with cause | ⟨⟩
    · exact ⟨rfl, .run cause, rfl⟩
    · exact absurd rfl fails
  · intro unloaded
    exact absurd loads (unloaded program m)
  · intro program' m' loads'
    obtain ⟨rfl, rfl⟩ := loads.unique loads'
    refine ⟨n, verdict, ends, rfl, ?_⟩
    rw [stdout_ofVerdict quiet, printed, Sink.text_ofLines]
    rfl

variable {e : Environment} {args : List String} {o : RunOptions}

theorem exits_iff_of_failure (asked : Request.ofArguments e args = .ok (.run path o))
    {failure : Failure} (refused : machineIn d path = .error failure) (a : Answer) :
    Exits e d args a ↔
      a = ⟨.error failure, d, target (o.display e.colour) .green "Loading" path⟩ := by
  have answered (patience : Nat) : answer? e patience d args =
      some ⟨.error failure, d, target (o.display e.colour) .green "Loading" path⟩ := by
    rw [answer?_of_ofArguments asked, ofRequest, perform_ofRun, refused]
  simp only [Exits, answered, Option.some.injEq, exists_const, eq_comm]

/-- The command ends when the session does. -/
theorem exits_iff_of_loads (asked : Request.ofArguments e args = .ok (.run path o))
    (loads : Loads d path program m) (a : Answer) :
    Exits e d args a ↔ ∃ patience verdict,
      ((o.session e.colour).run patience ⟨m, ({} : Sink), {}⟩).2 = some verdict ∧
        ofVerdict (o.display e.colour) path d program
          ((o.session e.colour).run patience ⟨m, ({} : Sink), {}⟩).1 verdict = a := by
  have answered (patience : Nat) : answer? e patience d args =
      ((o.session e.colour).run patience ⟨m, ({} : Sink), {}⟩).2.map
        (ofVerdict (o.display e.colour) path d program
          ((o.session e.colour).run patience ⟨m, ({} : Sink), {}⟩).1) := by
    rw [answer?_of_ofArguments asked, ofRequest, perform_ofRun, machineIn_eq_ok_iff.2 loads]
  simp only [Exits, answered, Option.map_eq_some_iff]

/-- The command does not end when nothing limits a program that runs for ever. -/
theorem not_exits_of_endless (asked : Request.ofArguments e args = .ok (.run path o))
    (loads : Loads d path program m) (unlimited : o.maxSteps = none)
    (endless : m.Endless ({} : Sink)) (a : Answer) : ¬ Exits e d args a := by
  intro exits
  obtain ⟨patience, verdict, ended, -⟩ := (exits_iff_of_loads asked loads a).1 exits
  obtain ⟨running, -⟩ := running_of_ofProgram loads.loaded
  have going : ((o.session e.colour).run patience ⟨m, ({} : Sink), {}⟩).2 = none :=
    (run_of_endless running rfl unlimited endless patience).1
  cases ended.symm.trans going

/-- **A run seen from outside.**  Take arguments that ask for a run of a file.  The command ends in
one way: with exit status zero if the file can be loaded and its program carries out a halt within
the limit, and otherwise with exit status one and a failure to report.  On standard output there is
what the program printed, which is one line for each print it carried out, and on a full display the
status messages around that.  Only when there is no limit, and the file can be loaded but its program
runs for ever, does the command not end. -/
theorem run_outcome (asked : Request.ofArguments e args = .ok (.run path o)) (d : Directory) :
    (∃ a, (∀ b, Exits e d args b ↔ b = a) ∧ Seen (o.display e.colour) d path o.maxSteps a) ∨
    (RunsOn (o.session e.colour) d path ∧ ∀ b, ¬ Exits e d args b) := by
  rcases found : machineIn d path with failure | ⟨program, m⟩
  · exact .inl ⟨_, exits_iff_of_failure asked found, seen_of_failure found ..⟩
  have loads := machineIn_eq_ok_iff.1 found
  have exits_iff := exits_iff_of_loads asked loads
  obtain ⟨running, fresh⟩ := running_of_ofProgram loads.loaded
  let s := o.session e.colour
  let start : Run := ⟨m, {}, {}⟩
  rcases Machine.ends_or_endless running o.maxSteps with ⟨n, verdict, ends⟩ | ⟨unlimited, endless⟩
  · have patient : s.maxSteps = none → n < n + 1 := fun _ => Nat.lt_succ_self n
    obtain ⟨ended, printed⟩ : (s.run (n + 1) start).2 = some verdict ∧
        (s.run (n + 1) start).1.sink = Sink.ofLines (m.printouts n) :=
      run_of_ends running fresh rfl ends patient
    have quiet : (s.run (n + 1) start).1.shown.stdout = "" := stdout_ticks ..
    refine .inl ⟨_, fun b => ⟨?_, ?_⟩, seen_ofVerdict loads ends printed quiet _⟩
    · -- with other patience the session ends no other way
      intro exits
      obtain ⟨patience, verdict', ended', rfl⟩ := (exits_iff b).1 exits
      have one_run : s.run patience start = s.run (n + 1) start := run_unique ended' ended
      rw [one_run] at ended' ⊢
      obtain rfl : verdict = verdict' := Option.some.inj (ended.symm.trans ended')
      rfl
    · rintro rfl
      exact (exits_iff _).2 ⟨n + 1, verdict, ended, rfl⟩
  · refine .inr ⟨⟨unlimited, program, m, loads, endless, ?_⟩,
      not_exits_of_endless asked loads unlimited endless⟩
    intro n
    have printed : (s.run n start).1.sink = Sink.ofLines (m.printouts n) :=
      (run_of_endless running rfl unlimited endless n).2
    exact (congrArg Sink.text printed).trans (Sink.text_ofLines _)

/-- A register is loaded with a value and printed, and the program halts. -/
theorem print_outcome :
    let d : Directory := ⟨[({ names := ["print.bin".toList] }, ⟨#[0x82, 0, 72, 0x47, 0, 0x01]⟩)]⟩
    let o : RunOptions := { minimal := true }
    Request.ofArguments {} ["run", "--minimal", "print.bin"] = .ok (.run "print.bin" o) ∧
      ∃ a, Exits {} d ["run", "--minimal", "print.bin"] a ∧
        Seen (o.display false) d "print.bin" none a ∧
        exitStatus a.result = 0 ∧ a.shown.stdout = "72\n" := by
  intro d o
  have asked : Request.ofArguments {} ["run", "--minimal", "print.bin"] =
      .ok (.run "print.bin" o) := rfl
  have ends : (answer? {} 3 d ["run", "--minimal", "print.bin"]).map
      (fun a => (exitStatus a.result, a.shown.stdout)) = some (0, "72\n") := by decide +kernel
  obtain ⟨a, answered, looks⟩ := Option.map_eq_some_iff.1 ends
  obtain ⟨status, stdout⟩ := Prod.mk.inj looks
  have exits : Exits {} d ["run", "--minimal", "print.bin"] a := ⟨3, answered⟩
  rcases run_outcome asked d with ⟨b, only, seen⟩ | ⟨-, never⟩
  · obtain rfl := (only a).1 exits
    exact ⟨asked, a, exits, seen, status, stdout⟩
  · exact absurd exits (never a)

/-- Where nothing limits it, a run need not end at all.  A register is loaded with zero and printed,
and a jump goes back to the start: the run does not complete, and yet the command never exits. -/
theorem loop_never_exits :
    let d : Directory :=
      ⟨[({ names := ["loop.bin".toList] }, ⟨#[0x82, 0, 0, 0x47, 0, 0x54, 0]⟩)]⟩
    let o : RunOptions := { minimal := true }
    Request.ofArguments {} ["run", "--minimal", "loop.bin"] = .ok (.run "loop.bin" o) ∧
      (∃ program m, Loads d "loop.bin" program m) ∧ ¬ Completes d "loop.bin" o.maxSteps ∧
      ¬ ∃ a, Exits {} d ["run", "--minimal", "loop.bin"] a ∧ exitStatus a.result = 1 ∧
        ∃ failure, a.result = .error failure := by
  intro d o
  have asked : Request.ofArguments {} ["run", "--minimal", "loop.bin"] =
      .ok (.run "loop.bin" o) := rfl
  obtain ⟨m, m', sink', loaded, -, -, returns, back, printed⟩ := Machine.exists_return_of_print
  have extension : Path.extension? "loop.bin".toList = some "bin".toList := by decide +kernel
  have read : d.read "loop.bin" = .ok ⟨#[0x82, 0, 0, 0x47, 0, 0x54, 0]⟩ := rfl
  have loads : Loads d "loop.bin" [0x82, 0, 0, 0x47, 0, 0x54, 0] m :=
    ⟨.image extension read, loaded⟩
  have never : Writer.NeverFails ({} : Sink) := Sink.neverFails rfl
  have endless : m.Endless ({} : Sink) :=
    Machine.endless_of_return (by decide : 0 < 3) returns back never printed never
  refine ⟨asked, ⟨_, m, loads⟩, not_completes_of_endless loads endless _, ?_⟩
  rintro ⟨a, exits, -⟩
  exact not_exits_of_endless asked loads rfl endless a exits

end Plan

end EightBit
